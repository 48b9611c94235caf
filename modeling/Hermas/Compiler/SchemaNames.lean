import Hermas.Compiler.SchemaParse
import Hermas.Compiler.SchemaResolve

/-!
# Other names

A schema with other names for its types says the same: what refers, what a type stands for
and how deep it opens goes over to the new names (`Refers.rename`, `expand_rename`,
`Opens.rename`). The order of the types is that of their names, so that names also bring any
order about (`byRank`).
-/

namespace Hermas.Schema

/-- Other names for types, and other places in the text. -/
structure Renaming where
  name : String → String
  span : Span → Span
  injective : Function.Injective name
  identifier : ∀ {word}, Identifier word → Identifier (name word)
  free : ∀ {word}, word ∉ typeWords → name word ∉ typeWords

mutual

def TypeExpression.rename (ρ : Renaming) : TypeExpression → TypeExpression
  | .unit => .unit
  | .integer => .integer
  | .boolean => .boolean
  | .string maximum => .string maximum
  | .bytes maximum => .bytes maximum
  | .named name span => .named (ρ.name name) (ρ.span span)
  | .record fields => .record (renameAll ρ fields)
  | .list element maximum => .list (element.rename ρ) maximum
  | .variant cases => .variant (renameAll ρ cases)

def renameAll (ρ : Renaming) : List (String × TypeExpression) → List (String × TypeExpression)
  | [] => []
  | (name, member) :: members => (name, member.rename ρ) :: renameAll ρ members

end

def TypeDeclaration.rename (ρ : Renaming) (declaration : TypeDeclaration) : TypeDeclaration :=
  { expression := declaration.expression.rename ρ, span := ρ.span declaration.span }

/-- The types under their new names, in the order of these. -/
def renameTypes (ρ : Renaming) :
    List (String × TypeDeclaration) → List (String × TypeDeclaration)
  | [] => []
  | (name, declaration) :: types =>
      Assoc.insert (ρ.name name) (declaration.rename ρ) (renameTypes ρ types)

variable {ρ : Renaming} {types : List (String × TypeDeclaration)} {expression : TypeExpression}

/-! ## Types -/

theorem renameTypes_sorted : Assoc.Sorted (renameTypes ρ types) := by
  induction types with
  | nil => exact List.Pairwise.nil
  | cons entry types ih => exact ih.insert

/-- A type is found under its new name. -/
theorem lookup_renameTypes {name : String} :
    (renameTypes ρ types).lookup (ρ.name name) = (types.lookup name).map (·.rename ρ) := by
  induction types with
  | nil => rfl
  | cons entry types ih =>
      rw [renameTypes, Assoc.lookup_insert renameTypes_sorted, List.lookup_cons]
      by_cases hname : name = entry.1
      · simp [hname]
      · rw [if_neg (fun hsame => hname (ρ.injective hsame)), beq_eq_false_iff_ne.mpr hname, ih]

/-- What is found is a type under its new name. -/
theorem exists_of_lookup_renameTypes {name : String} {declaration : TypeDeclaration}
    (h : (renameTypes ρ types).lookup name = some declaration) :
    ∃ old, name = ρ.name old ∧ ∃ original, types.lookup old = some original ∧
      declaration = original.rename ρ := by
  have hold : ∃ old, name = ρ.name old := by
    induction types with
    | nil => cases h
    | cons entry types ih =>
        rw [renameTypes, Assoc.lookup_insert renameTypes_sorted] at h
        split_ifs at h with hname
        · exact ⟨entry.1, hname⟩
        · exact ih h
  obtain ⟨old, rfl⟩ := hold
  rw [lookup_renameTypes] at h
  obtain ⟨original, horiginal, rfl⟩ := Option.map_eq_some_iff.mp h
  exact ⟨old, rfl, original, horiginal, rfl⟩

theorem mem_renameTypes {entry : String × TypeDeclaration} (h : entry ∈ renameTypes ρ types) :
    ∃ original ∈ types, entry = (ρ.name original.1, original.2.rename ρ) := by
  induction types with
  | nil => cases h
  | cons original types ih =>
      rcases Assoc.mem_insert h with rfl | h
      · exact ⟨original, List.mem_cons_self, rfl⟩
      · obtain ⟨other, hother, rfl⟩ := ih h
        exact ⟨other, List.mem_cons_of_mem _ hother, rfl⟩

/-! ## Expressions -/

theorem renameAll_eq {members : List (String × TypeExpression)} :
    renameAll ρ members = members.map fun member => (member.1, member.2.rename ρ) := by
  induction members with
  | nil => rfl
  | cons member members ih => rw [renameAll, List.map_cons, ih]

@[simp] theorem isNamed_rename : (expression.rename ρ).isNamed = expression.isNamed := by
  cases expression <;> rfl

theorem members_rename :
    (expression.rename ρ).members =
      expression.members.map fun member => (member.1, member.2.rename ρ) := by
  cases expression <;>
    simp [TypeExpression.rename, TypeExpression.members, renameAll_eq]

theorem build_rename (hnode : expression.isNamed = false)
    (representations : List (String × Catalog.Representation)) :
    (expression.rename ρ).build representations = expression.build representations := by
  cases expression with
  | named name span => cases hnode
  | _ => rfl

mutual

theorem names_rename : ∀ expression : TypeExpression,
    (expression.rename ρ).names = expression.names.map ρ.name
  | .unit | .integer | .boolean | .string _ | .bytes _ | .named _ _ => rfl
  | .record fields => namesAll_rename fields
  | .list element _ => names_rename element
  | .variant cases => namesAll_rename cases

theorem namesAll_rename : ∀ members : List (String × TypeExpression),
    namesAll (renameAll ρ members) = (namesAll members).map ρ.name
  | [] => rfl
  | (_, member) :: members => by
      rw [renameAll, namesAll, namesAll, List.map_append, names_rename member, namesAll_rename members]

end

mutual

theorem levels_rename : ∀ expression : TypeExpression,
    (expression.rename ρ).levels = expression.levels
  | .unit | .integer | .boolean | .string _ | .bytes _ | .named _ _ => rfl
  | .record fields | .variant fields => congrArg (· + 1) (levelsAll_rename fields)
  | .list element _ => congrArg (· + 1) (levels_rename element)

theorem levelsAll_rename : ∀ members : List (String × TypeExpression),
    levelsAll (renameAll ρ members) = levelsAll members
  | [] => rfl
  | (_, member) :: members => by
      rw [renameAll, levelsAll, levelsAll, levels_rename member, levelsAll_rename members]

end

/-! ## What the types say -/

theorem Refers.rename {name other : String} (h : Refers types name other) :
    Refers (renameTypes ρ types) (ρ.name name) (ρ.name other) := by
  obtain ⟨declaration, hdeclaration, hother⟩ := h
  refine ⟨declaration.rename ρ, by rw [lookup_renameTypes, hdeclaration]; rfl, ?_⟩
  rw [show (declaration.rename ρ).expression = declaration.expression.rename ρ from rfl, names_rename]
  exact List.mem_map_of_mem hother

theorem exists_of_refers_rename {name other : String} (h : Refers (renameTypes ρ types) name other) :
    ∃ old oldOther, name = ρ.name old ∧ other = ρ.name oldOther ∧ Refers types old oldOther := by
  obtain ⟨declaration, hdeclaration, hother⟩ := h
  obtain ⟨old, rfl, original, horiginal, rfl⟩ := exists_of_lookup_renameTypes hdeclaration
  rw [show (original.rename ρ).expression = original.expression.rename ρ from rfl, names_rename] at hother
  obtain ⟨oldOther, holdOther, rfl⟩ := List.mem_map.mp hother
  exact ⟨old, oldOther, rfl, rfl, original, horiginal, holdOther⟩

/-- **Types are well formed under any names.** -/
theorem wellFormed_rename : WellFormed (renameTypes ρ types) ↔ WellFormed types := by
  constructor
  · intro h
    constructor
    · intro name other hrefers
      have hdeclared := h.declared _ _ (hrefers.rename (ρ := ρ))
      rwa [lookup_renameTypes, Option.isSome_map] at hdeclared
    · intro name hcycle
      exact h.acyclic (ρ.name name) (hcycle.lift ρ.name fun _ _ => Refers.rename)
  · intro h
    constructor
    · intro name other hrefers
      obtain ⟨old, oldOther, rfl, rfl, hold⟩ := exists_of_refers_rename hrefers
      rw [lookup_renameTypes, Option.isSome_map]
      exact h.declared old oldOther hold
    · intro name hcycle
      have hlift : ∀ other, Relation.TransGen (Refers (renameTypes ρ types)) name other →
          ∃ old oldOther, name = ρ.name old ∧ other = ρ.name oldOther ∧
            Relation.TransGen (Refers types) old oldOther := by
        intro other htrans
        induction htrans with
        | single hstep =>
            obtain ⟨old, oldOther, hold, holdOther, hrefers⟩ := exists_of_refers_rename hstep
            exact ⟨old, oldOther, hold, holdOther, .single hrefers⟩
        | tail _ hstep ih =>
            obtain ⟨old, between, hold, rfl, hreaches⟩ := ih
            obtain ⟨between', last, hbetween, hlast, hrefers⟩ := exists_of_refers_rename hstep
            obtain rfl := ρ.injective hbetween
            exact ⟨old, last, hold, hlast, hreaches.tail hrefers⟩
      obtain ⟨old, oldOther, hold, holdOther, hreaches⟩ := hlift name hcycle
      obtain rfl := ρ.injective (hold.symm.trans holdOther)
      exact h.acyclic old hreaches

theorem expandMembers_map {α β γ : Type} {small : α → Option γ} {large : β → Option γ} {f : α → β}
    (h : ∀ a, large (f a) = small a) (members : List (String × α)) :
    expandMembers large (members.map fun member => (member.1, f member.2)) =
      expandMembers small members := by
  induction members with
  | nil => rfl
  | cons member members ih => simp only [List.map_cons, expandMembers, h, ih]

/-- An expression stands for the same under any names. -/
theorem expand_rename : ∀ (steps : Nat) (expression : TypeExpression),
    expand (renameTypes ρ types) steps (expression.rename ρ) = expand types steps expression
  | 0, _ => rfl
  | steps + 1, expression => by
      cases hnamed : expression.isNamed with
      | true =>
          cases expression with
          | named name span =>
              rw [TypeExpression.rename, expand, expand, lookup_renameTypes, Option.bind_map]
              congr 1
              funext declaration
              exact expand_rename steps declaration.expression
          | _ => cases hnamed
      | false =>
          rw [expand_node hnamed, expand_node (by rw [isNamed_rename, hnamed]), members_rename,
            expandMembers_map (expand_rename steps)]
          congr 1
          funext representations
          exact build_rename hnamed representations

theorem Denotes.rename {representation : Catalog.Representation}
    (h : Denotes types expression representation) :
    Denotes (renameTypes ρ types) (expression.rename ρ) representation := by
  obtain ⟨steps, hsteps⟩ := h
  exact ⟨steps, by rw [expand_rename, hsteps]⟩

/-- Types open equally deep under any names. -/
theorem Opens.rename {known known' : Set String} {expressions : List TypeExpression} {depth : Nat}
    (h : Opens types known expressions depth known') :
    Opens (renameTypes ρ types) (ρ.name '' known) (expressions.map (·.rename ρ)) depth
      (ρ.name '' known') := by
  induction h with
  | done => exact .done
  | node hnode _ _ ih ih' =>
      refine .node (by rw [isNamed_rename, hnode]) ?_ ih'
      rw [members_rename, List.map_map]
      rw [List.map_map] at ih
      exact ih
  | known hname _ ih => exact .known (Set.mem_image_of_mem _ hname) ih
  | @fresh _ _ _ name _ declaration _ _ _ hname hdeclaration _ _ ih ih' =>
      have hrenamed : (renameTypes ρ types).lookup (ρ.name name) = some (declaration.rename ρ) := by
        rw [lookup_renameTypes, hdeclaration]
        rfl
      rw [Set.image_insert_eq] at ih'
      refine .fresh ?_ hrenamed ih ih'
      rwa [ρ.injective.mem_set_image]

/-! ## Names that bring an order about -/

/-- The rank of a name, as a letter repeated, in front of it. -/
def byRank (rank : String → Nat) (name : String) : String :=
  String.ofList (List.replicate (rank name) 'b' ++ 'a' :: name.toList)

theorem toList_byRank {rank : String → Nat} {name : String} :
    (byRank rank name).toList = List.replicate (rank name) 'b' ++ 'a' :: name.toList :=
  String.toList_ofList

/-- The number of letters in front is read off the word. -/
theorem replicate_append_inj {α : Type} {a b : α} (hne : a ≠ b) {n m : Nat} {xs ys : List α}
    (h : List.replicate n b ++ a :: xs = List.replicate m b ++ a :: ys) : n = m ∧ xs = ys := by
  induction n generalizing m with
  | zero =>
      cases m with
      | zero => exact ⟨rfl, (List.cons.inj h).2⟩
      | succ m => exact absurd (List.cons.inj h).1 hne
  | succ n ih =>
      cases m with
      | zero => exact absurd (List.cons.inj h).1 hne.symm
      | succ m =>
          obtain ⟨rfl, hrest⟩ := ih (List.cons.inj h).2
          exact ⟨rfl, hrest⟩

theorem replicate_append_lt {n m : Nat} {xs ys : List Char} (h : n < m) :
    List.replicate n 'b' ++ 'a' :: xs < List.replicate m 'b' ++ 'a' :: ys := by
  induction n generalizing m with
  | zero =>
      obtain ⟨m, rfl⟩ := Nat.exists_eq_succ_of_ne_zero (by omega : m ≠ 0)
      exact List.Lex.rel (by decide)
  | succ n ih =>
      obtain ⟨m, rfl⟩ := Nat.exists_eq_succ_of_ne_zero (by omega : m ≠ 0)
      exact List.Lex.cons (ih (Nat.lt_of_succ_lt_succ h))

/-- A lower rank is a smaller name. -/
theorem byRank_lt {rank : String → Nat} {name other : String} (h : rank name < rank other) :
    byRank rank name < byRank rank other := by
  rw [String.lt_iff_toList_lt, toList_byRank, toList_byRank]
  exact replicate_append_lt h

theorem byRank_injective {rank : String → Nat} : Function.Injective (byRank rank) := by
  intro name other h
  have hlists := congrArg String.toList h
  rw [toList_byRank, toList_byRank] at hlists
  exact String.toList_inj.mp (replicate_append_inj (by decide) hlists).2

theorem byRank_identifier {rank : String → Nat} {name : String} (h : Identifier name) :
    Identifier (byRank rank name) := by
  obtain ⟨first, rest, hfirst, hrest, rfl⟩ := h
  have htext : byRank rank (text (first :: rest)) =
      text (List.replicate (rank (text (first :: rest))) 98 ++ 97 :: first :: rest) := by
    rw [byRank, text, text, String.toList_ofList, List.map_append, List.map_replicate]
    rfl
  rw [htext]
  have hall : ∀ byte ∈ first :: rest, identifierContinue byte = true :=
    List.forall_mem_cons.mpr ⟨by simp [identifierContinue, hfirst], hrest⟩
  cases rank (text (first :: rest)) with
  | zero => exact ⟨97, _, by decide, hall, rfl⟩
  | succ n =>
      refine ⟨98, List.replicate n 98 ++ 97 :: first :: rest, by decide, ?_, rfl⟩
      rw [List.forall_mem_append]
      refine ⟨fun byte hbyte => ?_, List.forall_mem_cons.mpr ⟨by decide, hall⟩⟩
      rw [List.eq_of_mem_replicate hbyte]
      decide

theorem byRank_free {rank : String → Nat} {name : String} : byRank rank name ∉ typeWords := by
  have hhead : ∀ word ∈ typeWords, word.toList.head? ≠ some 'a' ∧ word.toList.head? ≠ some 'b' := by
    decide
  intro hmem
  obtain ⟨ha, hb⟩ := hhead _ hmem
  rw [toList_byRank] at ha hb
  cases hrank : rank name with
  | zero => exact ha (by rw [hrank]; rfl)
  | succ n => exact hb (by rw [hrank]; rfl)

/-- The names with their ranks in front; the places stay. -/
def Renaming.byRank (rank : String → Nat) : Renaming where
  name := Schema.byRank rank
  span := id
  injective := byRank_injective
  identifier := byRank_identifier
  free := fun _ => byRank_free

end Hermas.Schema
