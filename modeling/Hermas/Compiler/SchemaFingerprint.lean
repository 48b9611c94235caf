import Hermas.Compiler.SchemaResolve
import Hermas.Compiler.SchemaText

/-!
# What a fingerprint stands for

The types behind the ports of an action are those that can be reached from them
(`mem_reachableTypes`), and the text of an action has a line for each. Two actions have one text
exactly if they have the same contract (`actionText_eq_iff`): the app, the name, the
ports, the compensation, and the same types behind the ports with the same declarations.
-/

namespace Hermas.Schema

/-- What a schema is checked for before a fingerprint is taken: its types are resolved and the
ports of its actions are declared. -/
structure Checked (file : String) (source : Bytes) (parsed : ParsedSchema) : Prop where
  reads : parse file source = .ok parsed
  resolved : ∃ resolved, resolveTypes file parsed.types = .ok resolved
  ports : ∀ entry ∈ parsed.actions, ∀ port ∈ entry.2.ports,
    (parsed.types.lookup port).isSome = true

/-- A type is named by a port of the action or by the declaration of such a type. -/
def Reaches (parsed : ParsedSchema) (action : ParsedAction) (name : String) : Prop :=
  ∃ port ∈ action.ports, Relation.ReflTransGen (Refers parsed.types) port name

/-- Two actions say the same, in two schemas. -/
structure SameContract (parsed parsed' : ParsedSchema) (name name' : String)
    (action action' : ParsedAction) : Prop where
  app : parsed.app = parsed'.app
  name : name = name'
  input : action.input = action'.input
  success : action.success = action'.success
  error : action.error = action'.error
  compensation : action.compensation = action'.compensation
  types : ∀ type, Reaches parsed action type ↔ Reaches parsed' action' type
  declarations : ∀ type, Reaches parsed action type → ∃ declaration declaration',
    parsed.types.lookup type = some declaration ∧ parsed'.types.lookup type = some declaration' ∧
      declaration.expression.Same declaration'.expression

/-! ## The types behind the ports -/

section Reachable

variable {types : List (String × TypeDeclaration)} {parsed : ParsedSchema} {action : ParsedAction}
  {name : String}

/-- The types that a declaration names. -/
def namedBy (types : List (String × TypeDeclaration)) (name : String) : List String :=
  match types.lookup name with
  | none => []
  | some declaration => declaration.expression.names

theorem mem_namedBy {other : String} : other ∈ namedBy types name ↔ Refers types name other := by
  unfold namedBy Refers
  cases types.lookup name <;> simp

/-- The collection is a depth-first search. -/
theorem collectReachableType_eq (types : List (String × TypeDeclaration)) : ∀ levels : Nat,
    collectReachableType types levels = DepthFirst.visit (namedBy types) levels
  | 0 => by
      funext reachable name
      rw [collectReachableType, DepthFirst.visit]
  | levels + 1 => by
      funext reachable name
      rw [collectReachableType, DepthFirst.visit, collectReachableType_eq types levels, namedBy]
      cases types.lookup name <;> rfl

/-- **The types that are collected are those that can be reached.** -/
theorem mem_reachableTypes : name ∈ reachableTypes parsed action ↔ Reaches parsed action name := by
  have hpoints : ∀ a, namedBy parsed.types a ≠ [] → a ∈ parsed.types.map Prod.fst := by
    intro a ha
    rw [← Assoc.isSome_lookup]
    cases hlookup : parsed.types.lookup a with
    | none => exact absurd (by rw [namedBy, hlookup]) ha
    | some declaration => rfl
  unfold reachableTypes
  rw [collectReachableType_eq, DepthFirst.mem_foldl_visit hpoints (by rw [List.length_map])]
  simp only [mem_namedBy]
  rfl

theorem reachableTypes_sorted : (reachableTypes parsed action).SortedLT := by
  unfold reachableTypes
  rw [collectReachableType_eq]
  exact DepthFirst.sorted_foldl (DepthFirst.sorted_visit _) _ _ List.Pairwise.nil.sortedLT

/-- The same types are collected in the same order. -/
theorem reachableTypes_eq {parsed' : ParsedSchema} {action' : ParsedAction}
    (h : ∀ type, Reaches parsed action type ↔ Reaches parsed' action' type) :
    reachableTypes parsed action = reachableTypes parsed' action' := by
  refine reachableTypes_sorted.eq_of_mem_iff reachableTypes_sorted fun type => ?_
  rw [mem_reachableTypes, mem_reachableTypes, h]

end Reachable

section Contract

variable {file file' : String} {source source' : Bytes} {parsed parsed' : ParsedSchema}
  {name name' : String} {action action' : ParsedAction}

/-- **A type behind the ports is declared.** -/
theorem Checked.declared (h : Checked file source parsed) (haction : (name, action) ∈ parsed.actions)
    {type : String} (hreaches : Reaches parsed action type) :
    ∃ declaration, parsed.types.lookup type = some declaration ∧ Identifier type ∧
      declaration.expression.Lexical := by
  have hlexical := parse_lexical h.reads
  obtain ⟨resolved, hresolved⟩ := h.resolved
  have hwell := wellFormed_of_resolveTypes hlexical.typesSorted hresolved
  obtain ⟨port, hport, hreach⟩ := hreaches
  have hsome : (parsed.types.lookup type).isSome = true := by
    cases hreach with
    | refl => exact h.ports _ haction _ hport
    | tail _ hstep => exact hwell.declared _ _ hstep
  obtain ⟨declaration, hdeclaration⟩ := Option.isSome_iff_exists.mp hsome
  obtain ⟨hidentifier, hexpression, -⟩ := hlexical.types _ (Assoc.mem_of_lookup hdeclaration)
  exact ⟨declaration, hdeclaration, hidentifier, hexpression⟩

/-! ## The lines of the types -/

/-- The types of these names are declared, with lexical expressions. -/
def DeclaredIn (types : List (String × TypeDeclaration)) (names : List String) : Prop :=
  ∀ name ∈ names, ∃ declaration, types.lookup name = some declaration ∧ Identifier name ∧
    declaration.expression.Lexical

/-- One declaration under a name in two schemas. -/
def SameDeclaration (types types' : List (String × TypeDeclaration)) (name : String) : Prop :=
  ∃ declaration declaration', types.lookup name = some declaration ∧
    types'.lookup name = some declaration' ∧ declaration.expression.Same declaration'.expression

variable {types types' : List (String × TypeDeclaration)}

/-- There is a line for every type that is declared. -/
theorem writeTypes_isSome {names : List String} (h : DeclaredIn types names) :
    ∃ lines, writeTypes types names = some lines := by
  induction names with
  | nil => exact ⟨"", rfl⟩
  | cons name names ih =>
      obtain ⟨⟨declaration, hdeclaration, -⟩, hrest⟩ := List.forall_mem_cons.mp h
      obtain ⟨lines, hlines⟩ := ih hrest
      exact ⟨_, by rw [writeTypes, hdeclaration, Option.bind_eq_bind, Option.bind_some, hlines]; rfl⟩

/-- The same declarations have the same lines. -/
theorem writeTypes_same {names : List String} (h : DeclaredIn types names)
    (h' : DeclaredIn types' names) (hsame : ∀ name ∈ names, SameDeclaration types types' name) :
    writeTypes types names = writeTypes types' names := by
  induction names with
  | nil => rfl
  | cons name names ih =>
      obtain ⟨⟨declaration, hdeclaration, -, hl⟩, hrest⟩ := List.forall_mem_cons.mp h
      obtain ⟨⟨declaration', hdeclaration', -, hl'⟩, hrest'⟩ := List.forall_mem_cons.mp h'
      obtain ⟨⟨found, found', hfound, hfound', hfirst⟩, hsame⟩ := List.forall_mem_cons.mp hsame
      rw [hdeclaration] at hfound
      rw [hdeclaration'] at hfound'
      obtain rfl := Option.some.inj hfound
      obtain rfl := Option.some.inj hfound'
      rw [writeTypes, writeTypes, hdeclaration, hdeclaration', ih hrest hrest' hsame,
        Option.bind_eq_bind, Option.bind_some, Option.bind_some, writeTypeExpression_same hfirst hl hl']

theorem writeTypes_cons {names : List String} {lines : String}
    (h : writeTypes types (name :: names) = some lines) :
    ∃ declaration behind, types.lookup name = some declaration ∧ writeTypes types names = some behind ∧
      ∀ rest, lines.toList ++ rest = "type:".toList ++ (name.toList ++
        '=' :: ((writeTypeExpression declaration.expression).toList ++
          '\n' :: (behind.toList ++ rest))) := by
  simp only [writeTypes, Option.bind_eq_bind, Option.bind_eq_some_iff, Option.some.injEq] at h
  obtain ⟨declaration, hdeclaration, behind, hbehind, rfl⟩ := h
  exact ⟨declaration, behind, hdeclaration, hbehind, fun rest => by simp⟩

/-- **The lines of types are read off their text**, up to the line of the ports. -/
theorem writeTypes_inj : ∀ {names names' : List String} {lines lines' : String} {rest rest' : List Char},
    DeclaredIn types names → DeclaredIn types' names' → writeTypes types names = some lines →
      writeTypes types' names' = some lines' →
      lines.toList ++ 'p' :: rest = lines'.toList ++ 'p' :: rest' →
        names = names' ∧ rest = rest' ∧ ∀ name ∈ names, SameDeclaration types types' name
  | [], [], _, _, _, _, _, _, hlines, hlines', h => by
      cases hlines
      cases hlines'
      exact ⟨rfl, (List.cons.inj h).2, List.forall_mem_nil _⟩
  | [], name :: names, _, _, _, _, _, _, hlines, hlines', h => by
      cases hlines
      obtain ⟨declaration, behind, -, -, htext⟩ := writeTypes_cons hlines'
      rw [htext] at h
      exact absurd (List.cons.inj h).1 (by decide)
  | name :: names, [], _, _, _, _, _, _, hlines, hlines', h => by
      cases hlines'
      obtain ⟨declaration, behind, -, -, htext⟩ := writeTypes_cons hlines
      rw [htext] at h
      exact absurd (List.cons.inj h).1 (by decide)
  | name :: names, name' :: names', _, _, _, _, hdeclared, hdeclared', hlines, hlines', h => by
      obtain ⟨declaration, behind, hdeclaration, hbehind, htext⟩ := writeTypes_cons hlines
      obtain ⟨declaration', behind', hdeclaration', hbehind', htext'⟩ := writeTypes_cons hlines'
      rw [htext, htext'] at h
      obtain ⟨⟨found, hfound, hname, hl⟩, hrest⟩ := List.forall_mem_cons.mp hdeclared
      obtain ⟨⟨found', hfound', hname', hl'⟩, hrest'⟩ := List.forall_mem_cons.mp hdeclared'
      rw [hdeclaration] at hfound
      rw [hdeclaration'] at hfound'
      obtain rfl := Option.some.inj hfound
      obtain rfl := Option.some.inj hfound'
      have hequals : ∀ behind, WordEnds NameSign ('=' :: behind) :=
        fun _ => (by decide : ¬ NameSign '=')
      obtain ⟨rfl, hexpression⟩ :=
        name_append_inj hname hname' (hequals _) (hequals _) (List.append_cancel_left h)
      obtain ⟨hsame, hnext⟩ := writeTypeExpression_inj hl hl' (closes_cons (by decide : '\n' ∈ _))
        (closes_cons (by decide : '\n' ∈ _)) (List.cons.inj hexpression).2
      obtain ⟨rfl, hrests, hall⟩ :=
        writeTypes_inj hrest hrest' hbehind hbehind' (List.cons.inj hnext).2
      exact ⟨rfl, hrests, List.forall_mem_cons.mpr
        ⟨⟨declaration, declaration', hdeclaration, hdeclaration', hsame⟩, hall⟩⟩

/-! ## The lines around them -/

theorem ends_newline {behind : List Char} : WordEnds NameSign ('\n' :: behind) :=
  (by decide : ¬ NameSign '\n')

/-- The compensation is read off its name, as no action is called as none is. -/
theorem writeCompensation_inj (h : action.Lexical) (h' : action'.Lexical)
    (heq : (writeCompensation action.compensation).toList ++ ['\n'] =
      (writeCompensation action'.compensation).toList ++ ['\n']) :
    action.compensation = action'.compensation := by
  have hname := String.toList_inj.mp (List.append_cancel_right heq)
  cases hc : action.compensation with
  | none =>
      cases hc' : action'.compensation with
      | none => rfl
      | action named =>
          rw [hc, hc'] at hname
          exact absurd hname.symm (h'.compensation named hc').2
  | action named =>
      cases hc' : action'.compensation with
      | none =>
          rw [hc, hc'] at hname
          exact absurd hname (h.compensation named hc).2
      | action named' =>
          rw [hc, hc'] at hname
          exact congrArg ParsedCompensation.action hname

/-- A port in front of an arrow is read off the text; the arrow begins like a sign of a name. -/
theorem arrow_append_inj (h : Identifier name) (h' : Identifier name') {rest rest' : List Char}
    (heq : name.toList ++ '-' :: '>' :: rest = name'.toList ++ '-' :: '>' :: rest') :
    name = name' ∧ rest = rest' := by
  have hsigns : ∀ {word : String}, Identifier word → ∀ c ∈ word.toList ++ ['-'], NameSign c := by
    intro word hword
    exact List.forall_mem_append.mpr ⟨hword.signs, List.forall_mem_singleton.mpr (by decide)⟩
  have harrow : ∀ behind, WordEnds NameSign ('>' :: behind) := fun _ => (by decide : ¬ NameSign '>')
  rw [List.append_cons, List.append_cons name'.toList] at heq
  obtain ⟨hword, hrests⟩ := word_append_inj (hsigns h) (hsigns h') (harrow _) (harrow _) heq
  exact ⟨String.toList_inj.mp (List.append_cancel_right hword), (List.cons.inj hrests).2⟩

/-- The text of an action with the lines of its types. -/
theorem actionText_eq {lines : String}
    (h : writeTypes parsed.types (reachableTypes parsed action) = some lines) :
    ∃ text, actionText parsed name action = some text ∧ text.toList =
      "hermas-action-v1\napp:".toList ++ (parsed.app.toList ++ '\n' :: ("action:".toList ++
        (name.toList ++ '\n' :: (lines.toList ++ 'p' :: ("orts:".toList ++
          (action.input.toList ++ '-' :: '>' :: (action.success.toList ++
            '!' :: (action.error.toList ++ '\n' :: ("compensation:".toList ++
              ((writeCompensation action.compensation).toList ++ ['\n'])))))))))) := by
  refine ⟨_, by rw [actionText, h, Option.bind_eq_bind, Option.bind_some], ?_⟩
  simp

/-- **An action of a schema that is checked has a text.** -/
theorem Checked.writeTypes (h : Checked file source parsed) (haction : (name, action) ∈ parsed.actions) :
    DeclaredIn parsed.types (reachableTypes parsed action) ∧
      ∃ lines, Schema.writeTypes parsed.types (reachableTypes parsed action) = some lines := by
  have hdeclared : DeclaredIn parsed.types (reachableTypes parsed action) := fun type htype =>
    h.declared haction (mem_reachableTypes.mp htype)
  exact ⟨hdeclared, writeTypes_isSome hdeclared⟩

/-- **The contract is read off the text.** -/
theorem sameContract_of_text (h : Checked file source parsed) (h' : Checked file' source' parsed')
    (haction : (name, action) ∈ parsed.actions) (haction' : (name', action') ∈ parsed'.actions)
    (htext : actionText parsed name action = actionText parsed' name' action') :
    SameContract parsed parsed' name name' action action' := by
  obtain ⟨hdeclared, lines, hlines⟩ := h.writeTypes haction
  obtain ⟨hdeclared', lines', hlines'⟩ := h'.writeTypes haction'
  obtain ⟨text, hsome, heq⟩ : ∃ text, actionText parsed name action = some text ∧ _ :=
    actionText_eq hlines
  obtain ⟨text', hsome', heq'⟩ : ∃ text, actionText parsed' name' action' = some text ∧ _ :=
    actionText_eq hlines'
  rw [hsome, hsome'] at htext
  obtain rfl := Option.some.inj htext
  have hlexical := parse_lexical h.reads
  have hlexical' := parse_lexical h'.reads
  obtain ⟨hname, hl⟩ := hlexical.actions _ haction
  obtain ⟨hname', hl'⟩ := hlexical'.actions _ haction'
  have hbang : ∀ behind, WordEnds NameSign ('!' :: behind) := fun _ => (by decide : ¬ NameSign '!')
  -- from the front to the end, word by word
  obtain ⟨happ, hrest⟩ := name_append_inj hlexical.app hlexical'.app ends_newline ends_newline
    (List.append_cancel_left (heq.symm.trans heq'))
  obtain ⟨hnames, hrest⟩ := name_append_inj hname hname' ends_newline ends_newline
    (List.append_cancel_left (List.cons.inj hrest).2)
  obtain ⟨htypes, hrest, hall⟩ := writeTypes_inj hdeclared hdeclared' hlines hlines' (List.cons.inj hrest).2
  obtain ⟨hinput, hrest⟩ := arrow_append_inj hl.input hl'.input (List.append_cancel_left hrest)
  obtain ⟨hsuccess, hrest⟩ := name_append_inj hl.success hl'.success (hbang _) (hbang _) hrest
  obtain ⟨herror, hrest⟩ := name_append_inj hl.error hl'.error ends_newline ends_newline
    (List.cons.inj hrest).2
  have hcompensation := writeCompensation_inj hl hl' (List.append_cancel_left (List.cons.inj hrest).2)
  refine ⟨happ, hnames, hinput, hsuccess, herror, hcompensation, fun type => ?_, fun type htype => ?_⟩
  · rw [← mem_reachableTypes, ← mem_reachableTypes, htypes]
  · exact hall type (mem_reachableTypes.mpr htype)

/-- **The text is that of the contract.** -/
theorem SameContract.text (hsame : SameContract parsed parsed' name name' action action')
    (h : Checked file source parsed) (h' : Checked file' source' parsed')
    (haction : (name, action) ∈ parsed.actions) (haction' : (name', action') ∈ parsed'.actions) :
    actionText parsed name action = actionText parsed' name' action' := by
  have hreachable := reachableTypes_eq hsame.types
  have hlines : Schema.writeTypes parsed.types (reachableTypes parsed action) =
      Schema.writeTypes parsed'.types (reachableTypes parsed' action') := by
    rw [← hreachable]
    refine writeTypes_same (h.writeTypes haction).1 (hreachable ▸ (h'.writeTypes haction').1) ?_
    exact fun type htype => hsame.declarations type (mem_reachableTypes.mp htype)
  rw [actionText, actionText, hlines, hsame.app, hsame.name, hsame.input, hsame.success, hsame.error,
    hsame.compensation]

end Contract

end Hermas.Schema
