import Hermas.Base.Assoc
import Hermas.Base.Check
import Hermas.Compiler.Catalog

/-!
# Declaring into a catalog

A catalog grows by apps, types and actions; what is declared is checked first, and a check
that fails leaves the catalog to its caller as it was.
-/

namespace Hermas.Catalog

def maxListBound : UInt16 := 256

def maxByteBound : UInt32 := 1048576

inductive CatalogError where
  | invalidName (name : String)
  | invalidRepresentation (message : String)
  | duplicateApp (app : String)
  | duplicateType (app name : String)
  | duplicateAction (app name : String)
  | unknownApp (app : UInt16)
  | unknownType (typeId : UInt16)
  | unknownAction (action : UInt16)
  | foreignActionType (app typeName : String)
  | unknownCompensation (action compensation : String)
  | selfCompensation (action : String)
  | incompatibleCompensation (action reason : String)
  | limitExceeded (kind : String)
  deriving DecidableEq, Repr

/-- `fmt` -/
def CatalogError.message : CatalogError → String
  | invalidName name => s!"invalid catalog name `{name}`"
  | invalidRepresentation message => message
  | duplicateApp app => s!"duplicate app `{app}`"
  | duplicateType app name => s!"duplicate type `{app}::{name}`"
  | duplicateAction app name => s!"duplicate action `{app}/{name}`"
  | unknownApp app => s!"unknown app ID {app}"
  | unknownType typeId => s!"unknown type ID {typeId}"
  | unknownAction action => s!"unknown Action ID {action}"
  | foreignActionType app typeName =>
      s!"action owned by `{app}` cannot declare foreign type `{typeName}`"
  | unknownCompensation action compensation =>
      s!"action `{action}` names unknown compensation `{compensation}`"
  | selfCompensation action => s!"action `{action}` cannot compensate itself"
  | incompatibleCompensation action reason => s!"invalid compensation for `{action}`: {reason}"
  | limitExceeded kind => s!"{kind} limit exceeded"

/-- `next_id` -/
def nextId (length : Nat) (kind : String) : Except CatalogError UInt16 :=
  if length + 1 < 2 ^ 16 then .ok (UInt16.ofNat (length + 1)) else .error (.limitExceeded kind)

/-- `validate_name`; a character that is not ASCII has no byte that passes. -/
def validateName (name : String) : Except CatalogError Unit :=
  match name.toList with
  | [] => .error (.invalidName name)
  | first :: rest =>
      if (first.isAlpha || first == '_') &&
          rest.all fun c => c.isAlphanum || c == '_' || c == '-' then .ok ()
      else .error (.invalidName name)

/-- A bound on bytes, as a representation at a path has it. -/
def validateByteBound (maximum : UInt32) (path : String) : Except CatalogError Unit :=
  if 1 ≤ maximum ∧ maximum ≤ maxByteBound then .ok ()
  else .error (.invalidRepresentation
    s!"{path}: byte bound {maximum} is outside 1..={maxByteBound}")

mutual

/-- `Representation::validate` -/
def Representation.validate : Representation → String → Except CatalogError Unit
  | .unit, _ | .integer, _ | .boolean, _ => .ok ()
  | .string maximum, path | .bytes maximum, path => validateByteBound maximum path
  | .record fields, path => validateFields fields path
  | .list element maximum, path =>
      if 1 ≤ maximum ∧ maximum ≤ maxListBound then element.validate s!"{path}.element"
      else .error (.invalidRepresentation
        s!"{path}: list bound {maximum} is outside 1..={maxListBound}")
  | .variant cases, path =>
      if cases.isEmpty then
        .error (.invalidRepresentation s!"{path}: variant must declare at least one case")
      else validateCases cases path

def validateFields : List (String × Representation) → String → Except CatalogError Unit
  | [], _ => .ok ()
  | (name, field) :: fields, path => do
      validateName name
      field.validate s!"{path}.{name}"
      validateFields fields path

def validateCases : List (String × Representation) → String → Except CatalogError Unit
  | [], _ => .ok ()
  | (name, payload) :: cases, path => do
      validateName name
      payload.validate s!"{path}::{name}"
      validateCases cases path

end

mutual

/-- `==` on representations -/
def Representation.equal : Representation → Representation → Bool
  | .unit, .unit | .integer, .integer | .boolean, .boolean => true
  | .string maximum, .string maximum' | .bytes maximum, .bytes maximum' => maximum == maximum'
  | .record fields, .record fields' => equalAll fields fields'
  | .list element maximum, .list element' maximum' => element.equal element' && maximum == maximum'
  | .variant cases, .variant cases' => equalAll cases cases'
  | _, _ => false

def equalAll : List (String × Representation) → List (String × Representation) → Bool
  | [], [] => true
  | (name, member) :: members, (name', member') :: members' =>
      name == name' && member.equal member' && equalAll members members'
  | _, _ => false

end

inductive CompensationDeclaration where
  | none
  | action (name : String)
  deriving DecidableEq, Repr

structure ActionDeclaration where
  name : String
  input : UInt16
  success : UInt16
  error : UInt16
  compensation : CompensationDeclaration
  deriving DecidableEq, Repr

variable (catalog : Hermas.Catalog)

/-- The entry under a number, replaced. -/
def setIndexed {α : Type} (items : List α) (raw : UInt16) (item : α) : List α :=
  items.set (raw.toNat - 1) item

/-- `declare_app` -/
def declareApp (name : String) : Except CatalogError (UInt16 × Hermas.Catalog) := do
  validateName name
  if catalog.apps.any (·.name == name) then .error (.duplicateApp name)
  else do
    let id ← nextId catalog.apps.length "app"
    .ok (id, { catalog with apps := catalog.apps ++ [{ id, name }] })

/-- `set_action_fingerprint` -/
def setActionFingerprint (action : UInt16) (fingerprint : Option Fingerprint) :
    Except CatalogError Hermas.Catalog :=
  match catalog.action action with
  | none => .error (.unknownAction action)
  | some actionDef => .ok { catalog with
      actions := setIndexed catalog.actions action { actionDef with fingerprint } }

/-- `declare_type` -/
def declareType (app : UInt16) (name : String) (representation : Representation) :
    Except CatalogError (UInt16 × Hermas.Catalog) := do
  let appDef ← match catalog.app app with
    | none => .error (.unknownApp app)
    | some appDef => .ok appDef
  validateName name
  representation.validate name
  if catalog.types.any fun typeDef => typeDef.app == app && typeDef.name == name then
    .error (.duplicateType appDef.name name)
  else do
    let id ← nextId catalog.types.length "type"
    .ok (id, { catalog with types := catalog.types ++ [{ id, app, name, representation }] })

/-- `set_variant_cases` -/
def setVariantCases (variant : UInt16) (cases : List (String × UInt16)) :
    Except CatalogError Hermas.Catalog :=
  match catalog.typeDef variant with
  | none => .error (.unknownType variant)
  | some typeDef =>
      match typeDef.representation with
      | .variant representations =>
          if representations.length ≠ cases.length then
            .error (.invalidRepresentation s!"{typeDef.name} variant case metadata is incomplete")
          else do
            cases.forM fun (name, payload) =>
              match catalog.typeDef payload with
              | none => .error (.unknownType payload)
              | some payloadType =>
                  match representations.lookup name with
                  | none => .error (.invalidRepresentation
                      s!"{typeDef.name} has no variant case `{name}`")
                  | some expected =>
                      if payloadType.representation.equal expected then .ok ()
                      else .error (.invalidRepresentation
                        s!"{typeDef.name}::{name} payload metadata has a different representation")
            .ok { catalog with
              types := setIndexed catalog.types variant { typeDef with variantCases := cases } }
      | _ => .error (.invalidRepresentation s!"{typeDef.name} is not a variant")

/-- `set_list_element` -/
def setListElement (list element : UInt16) : Except CatalogError Hermas.Catalog :=
  match catalog.typeDef element with
  | none => .error (.unknownType element)
  | some elementType =>
      match catalog.typeDef list with
      | none => .error (.unknownType list)
      | some listType =>
          match listType.representation with
          | .list expected _ =>
              if expected.equal elementType.representation then
                .ok { catalog with
                  types := setIndexed catalog.types list { listType with listElement := some element } }
              else .error (.invalidRepresentation
                s!"{listType.name} list element metadata does not match its representation")
          | _ => .error (.invalidRepresentation s!"{listType.name} is not a list")

/-- The checks on the declarations of actions, each against those before it. -/
def checkAction (app : UInt16) (appName : String) (prior : List ActionDeclaration)
    (declaration : ActionDeclaration) : Except CatalogError Unit := do
  validateName declaration.name
  if (catalog.actions.any fun action => action.app == app && action.name == declaration.name) ||
      prior.any (·.name == declaration.name) then
    .error (.duplicateAction appName declaration.name)
  else
    [declaration.input, declaration.success, declaration.error].forM fun typeId =>
      match catalog.typeDef typeId with
      | none => .error (.unknownType typeId)
      | some typeDef =>
          if typeDef.app ≠ app then .error (.foreignActionType appName (catalog.typeName typeId))
          else .ok ()

/-- The compensation of an action among the actions that are declared with it. -/
def resolveCompensation (declarations : List ActionDeclaration) (ids : List UInt16)
    (declaration : ActionDeclaration) : Except CatalogError Compensation :=
  match declaration.compensation with
  | .none => .ok .none
  | .action compensation =>
      if compensation = declaration.name then .error (.selfCompensation declaration.name)
      else
        match (declarations.zip ids).find? fun entry => entry.1.name == compensation with
        | none => .error (.unknownCompensation declaration.name compensation)
        | some (compensationDeclaration, id) =>
            match catalog.representationCompatible declaration.success
                compensationDeclaration.input with
            | .error reason => .error (.incompatibleCompensation declaration.name reason)
            | .ok () => .ok (.action id)

/-- `declare_actions` -/
def declareActions (app : UInt16) (declarations : List ActionDeclaration) :
    Except CatalogError (List UInt16 × Hermas.Catalog) := do
  let appDef ← match catalog.app app with
    | none => .error (.unknownApp app)
    | some appDef => .ok appDef
  checkEach (checkAction catalog app appDef.name) [] declarations
  let ids ← (List.range declarations.length).mapM fun offset =>
    nextId (catalog.actions.length + offset) "action"
  let resolved ← (declarations.zip ids).mapM fun (declaration, id) => do
    let compensation ← resolveCompensation catalog declarations ids declaration
    .ok { id, app, name := declaration.name, input := declaration.input,
          success := declaration.success, error := declaration.error, compensation : ActionDef }
  .ok (ids, { catalog with actions := catalog.actions ++ resolved })

end Hermas.Catalog
