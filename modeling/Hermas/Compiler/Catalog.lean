import Hermas.Image.Representation

/-!
# The catalog

Apps, their nominal types and their actions, each under a number that starts at 1. The
graph kernel and the image encoder only read it. Fields and cases are kept in the order
of their names.
-/

namespace Hermas

namespace Catalog

/-- `Representation`; a map is the list of its entries in the order of their names. -/
inductive Representation where
  | unit
  | integer
  | boolean
  | string (maximum : UInt32)
  | bytes (maximum : UInt32)
  | record (fields : List (String × Representation))
  | list (element : Representation) (maximum : UInt16)
  | variant (cases : List (String × Representation))

/-- A sum in `usize`. -/
def checkedAdd (a b : Nat) : Option Nat := if a + b < 2 ^ 64 then some (a + b) else none

/-- A product in `usize`. -/
def checkedMul (a b : Nat) : Option Nat := if a * b < 2 ^ 64 then some (a * b) else none

mutual

/-- `maximum_wire_size` -/
def Representation.maximumWireSize : Representation → Option Nat
  | .unit => some 0
  | .integer => some 8
  | .boolean => some 1
  | .string maximum | .bytes maximum => checkedAdd maximum.toNat 8
  | .record fields => wireSizeOfFields 0 fields
  | .list element maximum => do
      let payload ← checkedMul (← element.maximumWireSize) maximum.toNat
      checkedAdd payload 8
  | .variant cases => do checkedAdd (← wireSizeOfCases 0 cases) 8

def wireSizeOfFields (size : Nat) : List (String × Representation) → Option Nat
  | [] => some size
  | (_, field) :: fields => do
      wireSizeOfFields (← checkedAdd size (← field.maximumWireSize)) fields

def wireSizeOfCases (largest : Nat) : List (String × Representation) → Option Nat
  | [] => some largest
  | (_, case_) :: cases => do
      wireSizeOfCases (max largest (← case_.maximumWireSize)) cases

end

/-- `kind_name` -/
def Representation.kindName : Representation → String
  | .unit => "Unit"
  | .integer => "Integer"
  | .boolean => "Boolean"
  | .string _ => "String"
  | .bytes _ => "Bytes"
  | .record _ => "Record"
  | .list _ _ => "List"
  | .variant _ => "Variant"

/-- The bounds of two strings. -/
def compatibleBytes (source destination : UInt32) (path : String) : Except String Unit :=
  if destination < source then
    .error s!"{path}: source byte bound {source} exceeds destination bound {destination}"
  else .ok ()

mutual

/-- `compatible_with` -/
def Representation.compatibleWith : Representation → Representation → String → Except String Unit
  | .unit, .unit, _ | .integer, .integer, _ | .boolean, .boolean, _ => .ok ()
  | .string source, .string destination, path => compatibleBytes source destination path
  | .bytes source, .bytes destination, path => compatibleBytes source destination path
  | .record source, .record destination, path =>
      if source.length ≠ destination.length then .error s!"{path}: record field counts differ"
      else compatibleFields source destination path
  | .list element source, .list element' destination, path =>
      if destination < source then
        .error s!"{path}: source list bound {source} exceeds destination bound {destination}"
      else element.compatibleWith element' s!"{path}.element"
  | .variant source, .variant destination, path =>
      if source.length ≠ destination.length then .error s!"{path}: variant case counts differ"
      else compatibleCases source destination path
  | source, destination, path =>
      let kind := source.kindName
      let expected := destination.kindName
      .error s!"{path}: source representation {kind} does not match destination {expected}"

def compatibleFields : List (String × Representation) → List (String × Representation) → String →
    Except String Unit
  | [], _, _ => .ok ()
  | (name, field) :: fields, destination, path =>
      match destination.lookup name with
      | none => .error s!"{path}.{name}: destination field is missing"
      | some field' => do
          field.compatibleWith field' s!"{path}.{name}"
          compatibleFields fields destination path

def compatibleCases : List (String × Representation) → List (String × Representation) → String →
    Except String Unit
  | [], _, _ => .ok ()
  | (name, payload) :: cases, destination, path =>
      match destination.lookup name with
      | none => .error s!"{path}::{name}: destination case is missing"
      | some payload' => do
          payload.compatibleWith payload' s!"{path}::{name}"
          compatibleCases cases destination path

end

mutual

/-- What `encode_representation` keeps of a representation: an image has no names. -/
def Representation.nameless : Representation → Image.Representation
  | .unit => .unit
  | .integer => .integer
  | .boolean => .boolean
  | .string maximum => .string maximum
  | .bytes maximum => .bytes maximum
  | .record fields => .record (namelessAll fields)
  | .list element maximum => .list element.nameless maximum
  | .variant cases => .variant (namelessAll cases)

def namelessAll : List (String × Representation) → List Image.Representation
  | [] => []
  | (_, child) :: children => child.nameless :: namelessAll children

end

structure AppDef where
  id : UInt16
  name : String
  deriving Repr

structure NominalType where
  id : UInt16
  app : UInt16
  name : String
  representation : Representation
  /-- The payload type of each case of a named variant, in the order of the names. -/
  variantCases : List (String × UInt16) := []
  listElement : Option UInt16 := none

inductive Compensation where
  | none
  | action (action : UInt16)
  deriving DecidableEq, Repr

/-- `[u8; 32]` -/
abbrev Fingerprint := { bytes : Bytes // bytes.length = 32 }

structure ActionDef where
  id : UInt16
  app : UInt16
  name : String
  input : UInt16
  success : UInt16
  error : UInt16
  compensation : Compensation := .none
  fingerprint : Option Fingerprint := none
  deriving Repr

end Catalog

open Catalog

structure Catalog where
  apps : List AppDef := []
  types : List NominalType := []
  actions : List ActionDef := []

namespace Catalog

/-- `indexed` -/
def indexed {α : Type} (items : List α) (raw : UInt16) : Option α :=
  if raw = 0 then none else items[raw.toNat - 1]?

variable (catalog : Catalog)

def app (id : UInt16) : Option AppDef := indexed catalog.apps id

/-- `type_def` -/
def typeDef (id : UInt16) : Option NominalType := indexed catalog.types id

def action (id : UInt16) : Option ActionDef := indexed catalog.actions id

/-- `list_element` -/
def listElement (list : UInt16) : Option (UInt16 × UInt16) := do
  let typeDef ← catalog.typeDef list
  match typeDef.representation with
  | .list _ maximum => some (← typeDef.listElement, maximum)
  | _ => none

/-- `variant_cases`: the payload types, in the order of the names. -/
def variantCases (variant : UInt16) : Option (List (String × UInt16)) := do
  let typeDef ← catalog.typeDef variant
  if typeDef.variantCases.isEmpty then none else some typeDef.variantCases

/-- `find_app` -/
def findApp (name : String) : Option UInt16 := (catalog.apps.find? (·.name == name)).map (·.id)

/-- `find_type` -/
def findType (app : UInt16) (name : String) : Option UInt16 :=
  (catalog.types.find? fun item => item.app == app && item.name == name).map (·.id)

/-- `find_action` -/
def findAction (app : UInt16) (name : String) : Option UInt16 :=
  (catalog.actions.find? fun item => item.app == app && item.name == name).map (·.id)

/-- `resolve_type` -/
def resolveType (app name : String) : Option UInt16 := do catalog.findType (← catalog.findApp app) name

/-- `resolve_action` -/
def resolveAction (app name : String) : Option UInt16 := do
  catalog.findAction (← catalog.findApp app) name

/-- `app_name` -/
def appName (id : UInt16) : String :=
  match catalog.app id with
  | none => s!"<app:{id}>"
  | some app => app.name

/-- `type_name` -/
def typeName (id : UInt16) : String :=
  match catalog.typeDef id with
  | none => s!"<type:{id}>"
  | some typeDef => catalog.appName typeDef.app ++ "::" ++ typeDef.name

/-- `action_name` -/
def actionName (id : UInt16) : String :=
  match catalog.action id with
  | none => s!"<action:{id}>"
  | some action => catalog.appName action.app ++ "/" ++ action.name

/-- `representation_compatible` -/
def representationCompatible (source destination : UInt16) : Except String Unit :=
  match catalog.typeDef source, catalog.typeDef destination with
  | none, _ => .error s!"unknown source type ID {source}"
  | some _, none => .error s!"unknown destination type ID {destination}"
  | some source, some destination => source.representation.compatibleWith destination.representation "$"

end Catalog

end Hermas
