import Hermas.Compiler.Declare
import Hermas.Compiler.SchemaFingerprint
import Hermas.Compiler.SchemaOrder

/-!
# Compiling a schema

`compile_schema` declares what a schema says in a catalog and takes the fingerprints of its
actions. A schema that it accepts has been checked (`compileSchema_checked`), so that two
actions of accepted schemas have one text exactly if they have the same contract, and the text
is the same in whatever order a schema is written (`actionText_contract`).
-/

namespace Hermas.Schema

open Catalog (Representation Fingerprint CatalogError ActionDeclaration)

structure SchemaContract where
  app : UInt16
  types : List (String × UInt16)
  actions : List (String × UInt16)
  fingerprint : Fingerprint
  actionFingerprints : List (String × Option Fingerprint)

/-- The text that `fingerprint` takes its digest of. -/
def contractText (parsed : ParsedSchema) : String :=
  "hermas-contract-v1\napp:" ++ parsed.app ++ "\n" ++
    String.join (parsed.types.map fun entry =>
      "type:" ++ entry.1 ++ "=" ++ writeTypeExpression entry.2.expression ++ "\n") ++
    String.join (parsed.actions.map fun entry =>
      "action:" ++ entry.1 ++ ":" ++ entry.2.input ++ "->" ++ entry.2.success ++ "!" ++
        entry.2.error ++ ":compensation:" ++ writeCompensation entry.2.compensation ++ "\n")

/-- An error of the catalog at a place of the schema. -/
def atPlace {α : Type} (file code : String) (span : Span) (result : Except CatalogError α) :
    Except SchemaDiagnostic α :=
  result.mapError fun error => ⟨file, "catalog", code, span, error.message⟩

section Compile

variable (digest : String → Fingerprint) (file : String) (parsed : ParsedSchema)

/-- The types with their representations -/
def declareTypes (app : UInt16) : List (String × Representation) → Hermas.Catalog →
    Except SchemaDiagnostic (List (String × UInt16) × Hermas.Catalog)
  | [], candidate => .ok ([], candidate)
  | (name, representation) :: rest, candidate => do
      let span := ((parsed.types.lookup name).map (·.span)).getD .start
      let (typeId, candidate) ←
        atPlace file "invalid-type" span (candidate.declareType app name representation)
      let (types, candidate) ← declareTypes app rest candidate
      .ok ((name, typeId) :: types, candidate)

/-- The type that an expression names -/
def namedType (types : List (String × UInt16)) : TypeExpression → Option UInt16
  | .named name _ => types.lookup name
  | _ => none

/-- What is known of the cases of a variant, if all of them are named. -/
def declareCases (types : List (String × UInt16)) (candidate : Hermas.Catalog)
    (entry : String × TypeDeclaration) : Except SchemaDiagnostic Hermas.Catalog :=
  match entry.2.expression with
  | .variant cases =>
      match cases.mapM fun case_ => (namedType types case_.2).map fun typeId => (case_.1, typeId) with
      | none => .ok candidate
      | some caseTypes => atPlace file "invalid-variant" entry.2.span
          (candidate.setVariantCases ((types.lookup entry.1).getD 0) caseTypes)
  | _ => .ok candidate

/-- What is known of the element of a list, if it is named. -/
def declareElement (types : List (String × UInt16)) (candidate : Hermas.Catalog)
    (entry : String × TypeDeclaration) : Except SchemaDiagnostic Hermas.Catalog :=
  match entry.2.expression with
  | .list element _ =>
      match namedType types element with
      | none => .ok candidate
      | some elementType => atPlace file "invalid-list" entry.2.span
          (candidate.setListElement ((types.lookup entry.1).getD 0) elementType)
  | _ => .ok candidate

/-- The type of a port -/
def resolvePort (types : List (String × UInt16)) (name : String) (action : ParsedAction)
    (typeName : String) : Except SchemaDiagnostic UInt16 :=
  match types.lookup typeName with
  | none => .error ⟨file, "schema", "unknown-action-type", action.span,
      s!"Action `{name}` references unknown type `{typeName}`"⟩
  | some typeId => .ok typeId

def declarationOf (types : List (String × UInt16)) (entry : String × ParsedAction) :
    Except SchemaDiagnostic ActionDeclaration := do
  let input ← resolvePort file types entry.1 entry.2 entry.2.input
  let success ← resolvePort file types entry.1 entry.2 entry.2.success
  let error ← resolvePort file types entry.1 entry.2 entry.2.error
  let compensation := match entry.2.compensation with
    | .none => Catalog.CompensationDeclaration.none
    | .action compensation => .action compensation
  .ok { name := entry.1, input, success, error, compensation }

/-- Where an error on actions is shown. -/
def actionSpan : CatalogError → Span
  | .duplicateAction _ name | .unknownCompensation name _ | .incompatibleCompensation name _
  | .selfCompensation name => ((parsed.actions.lookup name).map (·.span)).getD parsed.appSpan
  | _ => parsed.appSpan

/-- The fingerprints of the actions into the catalog -/
def setFingerprints : List (UInt16 × Option Fingerprint) → Hermas.Catalog → Hermas.Catalog
  | [], candidate => candidate
  | (action, fingerprint) :: rest, candidate =>
      setFingerprints rest ((candidate.setActionFingerprint action fingerprint).toOption.getD candidate)

/-- `compile_schema`, with the catalog behind it. A fingerprint that is missing is one that it
panics at. -/
def compileSchema (catalog : Hermas.Catalog) (source : Bytes) :
    Except SchemaDiagnostic (SchemaContract × Hermas.Catalog) := do
  let parsed ← parse file source
  let representations ← resolveTypes file parsed.types
  let (app, candidate) ← atPlace file "invalid-app" parsed.appSpan (catalog.declareApp parsed.app)
  let (types, candidate) ← declareTypes file parsed app representations candidate
  let candidate ← parsed.types.foldlM (declareCases file types) candidate
  let candidate ← parsed.types.foldlM (declareElement file types) candidate
  let declarations ← parsed.actions.mapM (declarationOf file types)
  let fingerprints := parsed.actions.map fun entry =>
    (entry.1, (actionText parsed entry.1 entry.2).map digest)
  let (ids, candidate) ← (candidate.declareActions app declarations).mapError fun error =>
    ⟨file, "catalog", "invalid-action", actionSpan parsed error, error.message⟩
  .ok ({ app, types, actions := (parsed.actions.map Prod.fst).zip ids,
         fingerprint := digest (contractText parsed), actionFingerprints := fingerprints },
    setFingerprints (ids.zip (fingerprints.map Prod.snd)) candidate)

end Compile

/-- A schema that is accepted, into some catalog. -/
def Accepted (file : String) (source : Bytes) (parsed : ParsedSchema) : Prop :=
  parse file source = .ok parsed ∧ ∃ digest catalog result,
    compileSchema digest file catalog source = .ok result

section Accepted

variable {digest : String → Fingerprint} {file file' : String} {source source' : Bytes}
  {parsed parsed' : ParsedSchema} {types : List (String × UInt16)}

theorem resolvePort_ok {name typeName : String} {action : ParsedAction} {typeId : UInt16}
    (h : resolvePort file types name action typeName = .ok typeId) :
    types.lookup typeName = some typeId := by
  unfold resolvePort at h
  split at h
  · cases h
  · rename_i found hfound
    cases h
    exact hfound

/-- The types that are declared are those that were resolved. -/
theorem declareTypes_names : ∀ {representations : List (String × Representation)}
    {types : List (String × UInt16)} {app : UInt16} {candidate candidate' : Hermas.Catalog},
    declareTypes file parsed app representations candidate = .ok (types, candidate') →
      types.map Prod.fst = representations.map Prod.fst
  | [], _, _, _, _, h => by
      cases h
      rfl
  | (name, representation) :: rest, _, _, _, _, h => by
      simp only [declareTypes, bind_ok] at h
      obtain ⟨⟨typeId, _⟩, -, ⟨types, _⟩, hrest, h⟩ := h
      cases h
      rw [List.map_cons, List.map_cons, declareTypes_names hrest]

/-- **A schema that is accepted has been checked.** -/
theorem Accepted.checked (h : Accepted file source parsed) : Checked file source parsed := by
  obtain ⟨hparse, digest, catalog, result, hcompile⟩ := h
  unfold compileSchema at hcompile
  simp only [bind_ok] at hcompile
  obtain ⟨found, hfound, representations, hresolve, ⟨app, _⟩, -, ⟨types, _⟩, htypes, _, -, _, -,
    declarations, hdeclarations, -⟩ := hcompile
  rw [hparse] at hfound
  cases hfound
  refine ⟨hparse, ⟨representations, hresolve⟩, fun entry hentry port hport => ?_⟩
  -- the port is the name of a type that was resolved
  have hnames := declareTypes_names htypes
  have hsound := (resolveTypes_sound (parse_lexical hparse).typesSorted hresolve).1
  have hdeclared : ∀ {typeName typeId}, types.lookup typeName = some typeId →
      (parsed.types.lookup typeName).isSome = true := by
    intro typeName typeId htype
    have hmem : typeName ∈ representations.map Prod.fst :=
      hnames ▸ List.mem_map_of_mem (Assoc.mem_of_lookup htype)
    obtain ⟨representation, hrepresentation⟩ :=
      Option.isSome_iff_exists.mp (Assoc.isSome_lookup.mpr hmem)
    obtain ⟨declaration, hdeclaration, -⟩ := hsound.denotes _ _ hrepresentation
    rw [hdeclaration]
    rfl
  obtain ⟨declaration, -, hdeclaration⟩ := mapM_mem hdeclarations entry hentry
  simp only [declarationOf, bind_ok] at hdeclaration
  obtain ⟨input, hinput, success, hsuccess, error, herror, -⟩ := hdeclaration
  rcases List.mem_cons.mp hport with rfl | hport
  · exact hdeclared (resolvePort_ok hinput)
  rcases List.mem_cons.mp hport with rfl | hport
  · exact hdeclared (resolvePort_ok hsuccess)
  obtain rfl := List.mem_singleton.mp hport
  exact hdeclared (resolvePort_ok herror)

/-! ## Other orders -/

mutual

/-- The same expressions name the same types. -/
theorem names_same : ∀ {expression other : TypeExpression}, expression.Same other →
    ∀ name ∈ expression.names, name ∈ other.names
  | .unit, _, _ | .integer, _, _ | .boolean, _, _ | .string _, _, _ | .bytes _, _, _ =>
      List.forall_mem_nil _
  | .named _ _, other, h => by
      cases other with
      | named other' span =>
          obtain rfl : _ = other' := h
          exact fun name hname => hname
      | _ => exact h.elim
  | .record fields, other, h => by
      cases other with
      | record fields' => exact namesAll_same h
      | _ => exact h.elim
  | .list element maximum, other, h => by
      cases other with
      | list element' maximum' => exact @names_same element element' h.1
      | _ => exact h.elim
  | .variant cases, other, h => by
      cases other with
      | variant cases' => exact namesAll_same h
      | _ => exact h.elim

theorem namesAll_same : ∀ {members others : List (String × TypeExpression)},
    SameMembers members others → ∀ name ∈ namesAll members, name ∈ namesAll others
  | [], _, _ => List.forall_mem_nil _
  | (_, member) :: members, others, h => by
      obtain ⟨front, member', behind, rfl, hsame, hrest⟩ := h
      intro name hname
      rcases List.mem_append.mp hname with hname | hname
      · exact mem_namesAll.mpr ⟨_, List.mem_append_right _ List.mem_cons_self, names_same hsame name hname⟩
      · obtain ⟨other, hother, hname⟩ := mem_namesAll.mp (namesAll_same hrest name hname)
        refine mem_namesAll.mpr ⟨other, ?_, hname⟩
        exact List.perm_middle.symm.subset (List.mem_cons_of_mem _ hother)

end

/-- A member has its like among the same members. -/
theorem SameMembers.mem {members others : List (String × TypeExpression)}
    (h : SameMembers members others) {entry : String × TypeExpression} (hentry : entry ∈ members) :
    ∃ member', (entry.1, member') ∈ others ∧ entry.2.Same member' := by
  induction members generalizing others with
  | nil => cases hentry
  | cons first members ih =>
      obtain ⟨front, first', behind, rfl, hfirst, hrest⟩ := h
      rcases List.mem_cons.mp hentry with rfl | hentry
      · exact ⟨first', List.mem_append_right _ List.mem_cons_self, hfirst⟩
      · obtain ⟨member', hmember', hsame⟩ := ih hrest hentry
        exact ⟨member', List.perm_middle.symm.subset (List.mem_cons_of_mem _ hmember'), hsame⟩

/-- Two schemas declare the same types. -/
def SameTypes (types types' : List (String × TypeDeclaration)) : Prop :=
  ∀ name declaration, types.lookup name = some declaration → ∃ declaration',
    types'.lookup name = some declaration' ∧ declaration.expression.Same declaration'.expression

theorem sameTypes_of_members {types types' : List (String × TypeDeclaration)}
    (hsorted : Assoc.Sorted types') (h : SameMembers (expressionsOf types) (expressionsOf types')) :
    SameTypes types types' := by
  intro name declaration hdeclaration
  have hmem : (name, declaration.expression) ∈ expressionsOf types :=
    List.mem_map_of_mem (f := fun entry : String × TypeDeclaration => (entry.1, entry.2.expression))
      (Assoc.mem_of_lookup hdeclaration)
  obtain ⟨expression, hexpression, hsame⟩ := h.mem hmem
  obtain ⟨⟨name', declaration'⟩, hentry, heq⟩ := List.mem_map.mp hexpression
  cases heq
  exact ⟨declaration', hsorted.lookup hentry, hsame⟩

theorem Reaches.same {action action' : ParsedAction} {type : String}
    (h : SameTypes parsed.types parsed'.types) (hports : action.ports = action'.ports)
    (hreaches : Reaches parsed action type) : Reaches parsed' action' type := by
  obtain ⟨port, hport, hreach⟩ := hreaches
  refine ⟨port, hports ▸ hport, Relation.ReflTransGen.mono ?_ _ _ hreach⟩
  rintro name other ⟨declaration, hdeclaration, hother⟩
  obtain ⟨declaration', hdeclaration', hsame⟩ := h name declaration hdeclaration
  exact ⟨declaration', hdeclaration', names_same hsame other hother⟩

/-- **Actions of schemas that declare the same types have the same contract** if they are the same but
for their places. -/
theorem sameContract_of_types {name : String} {action action' : ParsedAction}
    (h : Checked file source parsed) (happ : parsed.app = parsed'.app)
    (htypes : SameTypes parsed.types parsed'.types) (htypes' : SameTypes parsed'.types parsed.types)
    (haction : (name, action) ∈ parsed.actions) (hplaceless : action.placeless = action'.placeless) :
    SameContract parsed parsed' name name action action' := by
  simp only [ParsedAction.placeless, ParsedAction.mk.injEq, and_true] at hplaceless
  obtain ⟨hinput, hsuccess, herror, hcompensation⟩ := hplaceless
  have hports : action.ports = action'.ports := by
    rw [ParsedAction.ports, ParsedAction.ports, hinput, hsuccess, herror]
  refine ⟨happ, rfl, hinput, hsuccess, herror, hcompensation,
    fun type => ⟨Reaches.same htypes hports, Reaches.same htypes' hports.symm⟩, fun type htype => ?_⟩
  obtain ⟨declaration, hdeclaration, -⟩ := h.declared haction htype
  obtain ⟨declaration', hdeclaration', hsame⟩ := htypes type declaration hdeclaration
  exact ⟨declaration, declaration', hdeclaration, hdeclaration', hsame⟩

/-- The same declarations in another order of the text, with their members in another order. -/
structure Reordered (declarations declarations' : List Declaration) : Prop where
  types : SameMembers (Declaration.types declarations) (Declaration.types declarations')
  actions : (Declaration.actions declarations).Perm (Declaration.actions declarations')

/-- An action of a text is an action of the text in another order. -/
theorem exists_of_reordered {app : String} {declarations declarations' : List Declaration}
    (h : Checked file source parsed) (h' : Checked file' source' parsed')
    (hwrites : Writes file source app declarations)
    (hwrites' : Writes file' source' app declarations') (hreordered : Reordered declarations declarations')
    {name : String} {action : ParsedAction} (haction : (name, action) ∈ parsed.actions) :
    ∃ action', (name, action') ∈ parsed'.actions ∧
      SameContract parsed parsed' name name action action' := by
  obtain ⟨happ, htypes, hactions⟩ := parse_words h.reads hwrites
  obtain ⟨happ', htypes', hactions'⟩ := parse_words h'.reads hwrites'
  have hsame : SameMembers (expressionsOf parsed.types) (expressionsOf parsed'.types) :=
    sameMembers_trans (sameMembers_symm htypes) (sameMembers_trans hreordered.types htypes')
  have hmem : (name, action.placeless) ∈ placelessActions parsed'.actions :=
    (hactions.trans (hreordered.actions.trans hactions'.symm)).subset
      (List.mem_map_of_mem (f := fun entry : String × ParsedAction => (entry.1, entry.2.placeless)) haction)
  obtain ⟨⟨name', action'⟩, haction', heq⟩ := List.mem_map.mp hmem
  obtain ⟨rfl, hplaceless⟩ := Prod.mk.inj heq
  refine ⟨action', haction', sameContract_of_types h (happ.trans happ'.symm) ?_ ?_ haction hplaceless.symm⟩
  · exact sameTypes_of_members (parse_lexical h'.reads).typesSorted hsame
  · exact sameTypes_of_members (parse_lexical h.reads).typesSorted (sameMembers_symm hsame)

/-- **Two actions of accepted schemas have one text exactly if they have the same contract**, and in
whatever order a schema is written its actions keep their texts. -/
theorem actionText_contract (h : Accepted file source parsed) (h' : Accepted file' source' parsed') :
    (∀ name action name' action', (name, action) ∈ parsed.actions →
      (name', action') ∈ parsed'.actions →
        (actionText parsed name action).isSome = true ∧
          (actionText parsed name action = actionText parsed' name' action' ↔
            SameContract parsed parsed' name name' action action')) ∧
    ∀ app declarations declarations', Writes file source app declarations →
      Writes file' source' app declarations' → Reordered declarations declarations' →
        ∀ name action, (name, action) ∈ parsed.actions → ∃ action', (name, action') ∈ parsed'.actions ∧
          actionText parsed name action = actionText parsed' name action' := by
  have hchecked := h.checked
  have hchecked' := h'.checked
  constructor
  · intro name action name' action' haction haction'
    refine ⟨?_, sameContract_of_text hchecked hchecked' haction haction',
      fun hsame => hsame.text hchecked hchecked' haction haction'⟩
    obtain ⟨-, lines, hlines⟩ := hchecked.writeTypes haction
    obtain ⟨text, htext, -⟩ : ∃ text, actionText parsed name action = some text ∧ _ :=
      actionText_eq hlines
    rw [htext]
    rfl
  · intro app declarations declarations' hwrites hwrites' hreordered name action haction
    obtain ⟨action', haction', hsame⟩ :=
      exists_of_reordered hchecked hchecked' hwrites hwrites' hreordered haction
    exact ⟨action', haction', hsame.text hchecked hchecked' haction haction'⟩

end Accepted

/-! ## An example -/

def taskSource : Bytes :=
  bytesOf "app tasks type Task = record { title: String<80>; done: Boolean } " ++
    bytesOf "type Board = variant { none: Unit; some: Task } type Lost = Unit " ++
    bytesOf "action Open { input Task success Board error Lost compensation Close } " ++
    bytesOf "action Close { input Board success Task error Lost compensation none }"

theorem actionText_contract_tasks : ∃ parsed, Accepted "tasks.hschema" taskSource parsed ∧
    ∀ name action name' action', (name, action) ∈ parsed.actions → (name', action') ∈ parsed.actions →
      (actionText parsed name action).isSome = true ∧
        (actionText parsed name action = actionText parsed name' action' ↔
          SameContract parsed parsed name name' action action') := by
  have hok : (compileSchema (fun _ => ⟨List.replicate 32 0, by decide⟩) "tasks.hschema" {}
      taskSource).toOption.isSome = true := by decide +kernel
  cases hcompile : compileSchema (fun _ => ⟨List.replicate 32 0, by decide⟩) "tasks.hschema" {}
      taskSource with
  | error e =>
      rw [hcompile] at hok
      cases hok
  | ok result =>
      cases hparse : parse "tasks.hschema" taskSource with
      | error e =>
          rw [compileSchema, hparse] at hcompile
          cases hcompile
      | ok parsed =>
          have haccepted : Accepted "tasks.hschema" taskSource parsed := ⟨hparse, _, _, result, hcompile⟩
          exact ⟨parsed, haccepted, (actionText_contract haccepted haccepted).1⟩

end Hermas.Schema
