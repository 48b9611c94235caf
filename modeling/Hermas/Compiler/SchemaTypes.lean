import Hermas.Base.Walk
import Hermas.Compiler.Catalog
import Hermas.Compiler.Schema
import Mathlib.Order.Lattice.Nat

/-!
# Resolving the types of a schema

`resolve_types` puts the representation of a type in the place of its name, type by type in
the order of the names, and keeps what it has resolved. What it returns are the expansions
of the types (`Denotes`), and they are there exactly if no type is missing and none refers to
itself. How deep it goes to find them is another matter: it counts a level for a name that it
resolves but none below a name that it knows (`Opens`).
-/

namespace Hermas.Schema

open Catalog (Representation)

namespace TypeExpression

/-- The members of an expression; the element of a list has no name. -/
def members : TypeExpression → List (String × TypeExpression)
  | .record fields => fields
  | .list element _ => [("", element)]
  | .variant cases => cases
  | _ => []

def isNamed : TypeExpression → Bool
  | .named _ _ => true
  | _ => false

/-- The representation of an expression with those of its members. -/
def build : TypeExpression → List (String × Representation) → Representation
  | .unit, _ => .unit
  | .integer, _ => .integer
  | .boolean, _ => .boolean
  | .string maximum, _ => .string maximum
  | .bytes maximum, _ => .bytes maximum
  | .named _ _, _ => .unit
  | .record _, fields => .record fields
  | .list _ maximum, members => .list ((members.head?.map (·.2)).getD .unit) maximum
  | .variant _, cases => .variant cases

end TypeExpression

mutual

/-- The types that an expression names. -/
def TypeExpression.names : TypeExpression → List String
  | .named name _ => [name]
  | .record fields => namesAll fields
  | .list element _ => element.names
  | .variant cases => namesAll cases
  | _ => []

def namesAll : List (String × TypeExpression) → List String
  | [] => []
  | (_, member) :: members => member.names ++ namesAll members

end

mutual

/-- The levels of nesting of an expression as it is written. -/
def TypeExpression.levels : TypeExpression → Nat
  | .record fields => levelsAll fields + 1
  | .list element _ => element.levels + 1
  | .variant cases => levelsAll cases + 1
  | _ => 1

def levelsAll : List (String × TypeExpression) → Nat
  | [] => 0
  | (_, member) :: members => max member.levels (levelsAll members)

end

/-! ## Resolution -/

/-- The members one after another. -/
def resolveMembers {ε σ α β : Type} (resolve : α → σ → Except ε (β × σ)) :
    List (String × α) → σ → Except ε (List (String × β) × σ)
  | [], state => .ok ([], state)
  | (name, member) :: members, state => do
      let (representation, state) ← resolve member state
      let (representations, state) ← resolveMembers resolve members state
      .ok ((name, representation) :: representations, state)

section Resolve

variable (file : String) (declarations : List (String × TypeDeclaration))

/-- `resolve_expression`, with the levels that are left. A name is taken off the visited ones
when its type is resolved, so that below an expression they are what they are at it. -/
def resolveExpression : Nat → List String → TypeExpression → List (String × Representation) →
    Except SchemaDiagnostic (Representation × List (String × Representation))
  | 0, _, _, _ => .error ⟨file, "schema", "limit-exceeded", .start,
      s!"representation nesting exceeds {maxRepresentationDepth}"⟩
  | levels + 1, visiting, expression, resolved =>
      match expression with
      | .unit => .ok (.unit, resolved)
      | .integer => .ok (.integer, resolved)
      | .boolean => .ok (.boolean, resolved)
      | .string maximum => .ok (.string maximum, resolved)
      | .bytes maximum => .ok (.bytes maximum, resolved)
      | .named name span =>
          match resolved.lookup name with
          | some representation => .ok (representation, resolved)
          | none =>
              match declarations.lookup name with
              | none => .error ⟨file, "schema", "unknown-type", span, s!"unknown type `{name}`"⟩
              | some declaration =>
                  if visiting.contains name then
                    .error ⟨file, "schema", "recursive-representation", span,
                      s!"type `{name}` has a recursive representation"⟩
                  else do
                    let (representation, resolved) ←
                      resolveExpression levels (name :: visiting) declaration.expression resolved
                    .ok (representation, Assoc.insert name representation resolved)
      | .record fields => do
          let (fields, resolved) ← resolveMembers (resolveExpression levels visiting) fields resolved
          .ok (.record fields, resolved)
      | .list element maximum => do
          let (element, resolved) ← resolveExpression levels visiting element resolved
          .ok (.list element maximum, resolved)
      | .variant cases => do
          let (cases, resolved) ← resolveMembers (resolveExpression levels visiting) cases resolved
          .ok (.variant cases, resolved)

/-- The loop of `resolve_types` -/
def resolveTypesFrom : List (String × TypeDeclaration) → List (String × Representation) →
    Except SchemaDiagnostic (List (String × Representation))
  | [], resolved => .ok resolved
  | (name, declaration) :: rest, resolved =>
      if (resolved.lookup name).isSome then resolveTypesFrom rest resolved
      else do
        let (representation, resolved) ← resolveExpression file declarations
          (maxRepresentationDepth + 1) [name] declaration.expression resolved
        resolveTypesFrom rest (Assoc.insert name representation resolved)

/-- `resolve_types` -/
def resolveTypes : Except SchemaDiagnostic (List (String × Representation)) :=
  resolveTypesFrom file declarations declarations []

end Resolve

/-! ## What the types stand for -/

/-- The expansions of the members. -/
def expandMembers {α β : Type} (expand : α → Option β) :
    List (String × α) → Option (List (String × β))
  | [] => some []
  | (name, member) :: members => do
      let representation ← expand member
      let representations ← expandMembers expand members
      some ((name, representation) :: representations)

/-- An expression with every name replaced by what it stands for, if so many steps do. -/
def expand (types : List (String × TypeDeclaration)) : Nat → TypeExpression → Option Representation
  | 0, _ => none
  | steps + 1, .named name _ =>
      (types.lookup name).bind fun declaration => expand types steps declaration.expression
  | steps + 1, expression => (expandMembers (expand types steps) expression.members).map expression.build

/-- What an expression stands for. -/
def Denotes (types : List (String × TypeDeclaration)) (expression : TypeExpression)
    (representation : Representation) : Prop :=
  ∃ steps, expand types steps expression = some representation

/-- The declaration of the first type names the second. -/
def Refers (types : List (String × TypeDeclaration)) (name other : String) : Prop :=
  ∃ declaration, types.lookup name = some declaration ∧ other ∈ declaration.expression.names

/-- Every type that is named is declared, and none leads back to itself. -/
structure WellFormed (types : List (String × TypeDeclaration)) : Prop where
  declared : ∀ name other, Refers types name other → (types.lookup other).isSome = true
  acyclic : ∀ name, ¬ Relation.TransGen (Refers types) name name

/-- How deep the expansion of some expressions goes if what is known is not expanded, and what is
known behind it. -/
inductive Opens (types : List (String × TypeDeclaration)) :
    Set String → List TypeExpression → Nat → Set String → Prop
  | done {known : Set String} : Opens types known [] 0 known
  | node {known known' known'' : Set String} {expression : TypeExpression}
      {rest : List TypeExpression} {depth depth' : Nat} : expression.isNamed = false →
      Opens types known (expression.members.map (·.2)) depth known' →
      Opens types known' rest depth' known'' →
        Opens types known (expression :: rest) (max (depth + 1) depth') known''
  | known {known known' : Set String} {name : String} {span : Span} {rest : List TypeExpression}
      {depth : Nat} : name ∈ known → Opens types known rest depth known' →
        Opens types known (.named name span :: rest) (max 1 depth) known'
  | fresh {known known' known'' : Set String} {name : String} {span : Span}
      {declaration : TypeDeclaration} {rest : List TypeExpression} {depth depth' : Nat} :
      name ∉ known → types.lookup name = some declaration →
      Opens types known [declaration.expression] depth known' →
      Opens types (insert name known') rest depth' known'' →
        Opens types known (.named name span :: rest) (max (depth + 1) depth') known''

/-! ## Expansions -/

section Expand

variable {types : List (String × TypeDeclaration)} {expression : TypeExpression}
  {representation : Representation}

theorem expand_node (hnode : expression.isNamed = false) (steps : Nat) :
    expand types (steps + 1) expression =
      (expandMembers (expand types steps) expression.members).map expression.build := by
  cases expression with
  | named name span => cases hnode
  | _ => rfl

theorem names_node (hnode : expression.isNamed = false) :
    expression.names = namesAll expression.members := by
  cases expression with
  | named name span => cases hnode
  | list element maximum => simp [TypeExpression.members, TypeExpression.names, namesAll]
  | _ => simp [TypeExpression.members, TypeExpression.names, namesAll]

theorem levels_node (hnode : expression.isNamed = false) :
    expression.levels = levelsAll expression.members + 1 := by
  cases expression with
  | named name span => cases hnode
  | list element maximum => simp [TypeExpression.members, TypeExpression.levels, levelsAll]
  | _ => simp [TypeExpression.members, TypeExpression.levels, levelsAll]

theorem mem_namesAll {members : List (String × TypeExpression)} {name : String} :
    name ∈ namesAll members ↔ ∃ member ∈ members, name ∈ member.2.names := by
  induction members with
  | nil => simp [namesAll]
  | cons member members ih => simp [namesAll, ih]

theorem le_levelsAll {members : List (String × TypeExpression)} :
    ∀ member ∈ members, member.2.levels ≤ levelsAll members := by
  induction members with
  | nil => intro member hmem; cases hmem
  | cons member members ih =>
      rw [List.forall_mem_cons]
      refine ⟨Nat.le_max_left _ _, fun other hother => ?_⟩
      exact (ih other hother).trans (Nat.le_max_right _ _)

theorem expandMembers_mono {α β : Type} {small large : α → Option β}
    (h : ∀ a b, small a = some b → large a = some b) :
    ∀ {members : List (String × α)} {representations : List (String × β)},
      expandMembers small members = some representations →
        expandMembers large members = some representations
  | [], _, hsome => hsome
  | (name, member) :: members, _, hsome => by
      simp only [expandMembers, Option.bind_eq_bind, Option.bind_eq_some_iff] at hsome ⊢
      obtain ⟨first, hfirst, rest, hrest, heq⟩ := hsome
      exact ⟨first, h _ _ hfirst, rest, expandMembers_mono h hrest, heq⟩

theorem expand_succ : ∀ {steps : Nat} {expression : TypeExpression}
    {representation : Representation}, expand types steps expression = some representation →
      expand types (steps + 1) expression = some representation
  | 0, _, _, h => by cases h
  | steps + 1, .named name span, _, h => by
      rw [expand] at h ⊢
      obtain ⟨declaration, hdeclaration, h⟩ := Option.bind_eq_some_iff.mp h
      exact Option.bind_eq_some_iff.mpr ⟨declaration, hdeclaration, expand_succ h⟩
  | steps + 1, expression@(.record _), _, h | steps + 1, expression@(.list _ _), _, h
  | steps + 1, expression@(.variant _), _, h | steps + 1, expression@(.unit), _, h
  | steps + 1, expression@(.integer), _, h | steps + 1, expression@(.boolean), _, h
  | steps + 1, expression@(.string _), _, h | steps + 1, expression@(.bytes _), _, h => by
      rw [expand_node rfl] at h ⊢
      obtain ⟨members, hmembers, rfl⟩ := Option.map_eq_some_iff.mp h
      rw [expandMembers_mono (fun _ _ => expand_succ) hmembers]
      rfl

theorem expand_mono {steps more : Nat} (h : expand types steps expression = some representation)
    (hle : steps ≤ more) : expand types more expression = some representation := by
  induction hle with
  | refl => exact h
  | step _ ih => exact expand_succ ih

/-- An expression stands for one representation. -/
theorem Denotes.unique {other : Representation} (h : Denotes types expression representation)
    (h' : Denotes types expression other) : representation = other := by
  obtain ⟨steps, h⟩ := h
  obtain ⟨steps', h'⟩ := h'
  have hleft := expand_mono h (Nat.le_max_left steps steps')
  have hright := expand_mono h' (Nat.le_max_right steps steps')
  exact Option.some.inj (hleft.symm.trans hright)

/-- What is expanded names types that are expanded in fewer steps. -/
theorem expand_names : ∀ {steps : Nat} {expression : TypeExpression}
    {representation : Representation}, expand types steps expression = some representation →
      ∀ name ∈ expression.names, ∃ declaration, types.lookup name = some declaration ∧
        ∃ fewer < steps, (expand types fewer declaration.expression).isSome = true
  | 0, _, _, h => by cases h
  | steps + 1, expression, _, h => by
      intro name hname
      cases hnamed : expression.isNamed with
      | true =>
          cases expression with
          | named other span =>
              obtain rfl := List.mem_singleton.mp hname
              obtain ⟨declaration, hdeclaration, h⟩ := Option.bind_eq_some_iff.mp h
              exact ⟨declaration, hdeclaration, steps, Nat.lt_succ_self _, by rw [h]; rfl⟩
          | _ => cases hnamed
      | false =>
          rw [expand_node hnamed] at h
          obtain ⟨representations, hmembers, -⟩ := Option.map_eq_some_iff.mp h
          rw [names_node hnamed] at hname
          obtain ⟨member, hmember, hname⟩ := mem_namesAll.mp hname
          obtain ⟨representation, hrepresentation⟩ := exists_of_expandMembers hmembers member hmember
          obtain ⟨declaration, hdeclaration, fewer, hfewer, hsome⟩ :=
            expand_names hrepresentation name hname
          exact ⟨declaration, hdeclaration, fewer, hfewer.trans (Nat.lt_succ_self _), hsome⟩
where
  exists_of_expandMembers {α β : Type} {expand : α → Option β} :
      ∀ {members : List (String × α)} {representations : List (String × β)},
        expandMembers expand members = some representations →
          ∀ member ∈ members, ∃ representation, expand member.2 = some representation
    | [], _, _ => fun _ hmem => by cases hmem
    | (name, member) :: members, _, hsome => by
        simp only [expandMembers, Option.bind_eq_bind, Option.bind_eq_some_iff] at hsome
        obtain ⟨first, hfirst, rest, hrest, -⟩ := hsome
        exact List.forall_mem_cons.mpr ⟨⟨first, hfirst⟩, exists_of_expandMembers hrest⟩

/-- **Types that stand for something are well formed.** -/
theorem wellFormed_of_denotes (h : ∀ name declaration, types.lookup name = some declaration →
    ∃ representation, Denotes types declaration.expression representation) : WellFormed types := by
  classical
  -- the least number of steps goes down from a type to those that it names
  let needs (name : String) (steps : Nat) : Prop := ∃ declaration,
    types.lookup name = some declaration ∧ (expand types steps declaration.expression).isSome = true
  have hrefers : ∀ name other, Refers types name other → (∃ steps, needs other steps) ∧
      sInf {steps | needs other steps} < sInf {steps | needs name steps} := by
    rintro name other ⟨declaration, hdeclaration, hother⟩
    obtain ⟨representation, steps, hsteps⟩ := h name declaration hdeclaration
    have hmem : needs name (sInf {steps | needs name steps}) :=
      Nat.sInf_mem (s := {steps | needs name steps})
        ⟨steps, declaration, hdeclaration, by rw [hsteps]; rfl⟩
    obtain ⟨declaration', hdeclaration', hsome⟩ := hmem
    obtain rfl := Option.some.inj (hdeclaration.symm.trans hdeclaration')
    obtain ⟨representation, hexpand⟩ := Option.isSome_iff_exists.mp hsome
    obtain ⟨target, htarget, fewer, hfewer, htargetSome⟩ := expand_names hexpand other hother
    have hneeds : needs other fewer := ⟨target, htarget, htargetSome⟩
    exact ⟨⟨fewer, hneeds⟩, lt_of_le_of_lt (Nat.sInf_le hneeds) hfewer⟩
  constructor
  · intro name other hother
    obtain ⟨⟨steps, declaration, hdeclaration, -⟩, -⟩ := hrefers name other hother
    rw [hdeclaration]
    rfl
  · intro name hcycle
    have hlt : ∀ other, Relation.TransGen (Refers types) name other →
        sInf {steps | needs other steps} < sInf {steps | needs name steps} := by
      intro other htrans
      induction htrans with
      | single hstep => exact (hrefers _ _ hstep).2
      | tail _ hstep ih => exact (hrefers _ _ hstep).2.trans ih
    exact Nat.lt_irrefl _ (hlt name hcycle)

end Expand

/-! ## How deep an expansion goes -/

section Opens

variable {types : List (String × TypeDeclaration)} {known known' known'' : Set String}
  {expressions : List TypeExpression} {depth depth' : Nat}

/-- What a known type names is known. -/
def Closed (types : List (String × TypeDeclaration)) (known : Set String) : Prop :=
  ∀ name ∈ known, ∀ other, Refers types name other → other ∈ known

theorem Opens.cons {expression : TypeExpression} (h : Opens types known [expression] depth known')
    (hrest : Opens types known' expressions depth' known'') :
    Opens types known (expression :: expressions) (max depth depth') known'' := by
  cases h with
  | node hnode hmembers hnone =>
      cases hnone
      rw [Nat.max_eq_left (Nat.zero_le _)]
      exact .node hnode hmembers hrest
  | known hname hnone =>
      cases hnone
      rw [Nat.max_eq_left (Nat.zero_le 1)]
      exact .known hname hrest
  | fresh hname hdeclaration hopens hnone =>
      cases hnone
      rw [Nat.max_eq_left (Nat.zero_le _)]
      exact .fresh hname hdeclaration hopens hrest

theorem Opens.subset (h : Opens types known expressions depth known') : known ⊆ known' := by
  induction h with
  | done => exact subset_rfl
  | node _ _ _ ih ih' => exact ih.trans ih'
  | known _ _ ih => exact ih
  | fresh _ _ _ _ ih ih' => exact (ih.trans (Set.subset_insert _ _)).trans ih'

/-- Behind the expansion all that is named is known. -/
theorem Opens.names (h : Opens types known expressions depth known') :
    ∀ expression ∈ expressions, ∀ name ∈ expression.names, name ∈ known' := by
  induction h with
  | done => intro expression hmem; cases hmem
  | node hnode _ hrest ih ih' =>
      refine List.forall_mem_cons.mpr ⟨fun name hname => hrest.subset ?_, ih'⟩
      rw [names_node hnode] at hname
      obtain ⟨member, hmember, hname⟩ := mem_namesAll.mp hname
      exact ih member.2 (List.mem_map_of_mem hmember) name hname
  | known hknown hrest ih =>
      refine List.forall_mem_cons.mpr ⟨fun name hname => hrest.subset ?_, ih⟩
      rwa [List.mem_singleton.mp hname]
  | fresh _ _ _ hrest _ ih' =>
      refine List.forall_mem_cons.mpr ⟨fun name hname => hrest.subset ?_, ih'⟩
      rw [List.mem_singleton.mp hname]
      exact Set.mem_insert _ _

/-- A type joins those whose names are known with its own. -/
theorem Closed.insert {name : String} {declaration : TypeDeclaration} (h : Closed types known)
    (hdeclaration : types.lookup name = some declaration)
    (hnames : ∀ other ∈ declaration.expression.names, other ∈ known) :
    Closed types (insert name known) := by
  intro a ha b hrefers
  rcases Set.mem_insert_iff.mp ha with rfl | ha
  · obtain ⟨declaration', hdeclaration', hb⟩ := hrefers
    rw [hdeclaration] at hdeclaration'
    exact Set.mem_insert_of_mem _ (hnames b (Option.some.inj hdeclaration' ▸ hb))
  · exact Set.mem_insert_of_mem _ (h a ha b hrefers)

theorem Opens.closed (h : Opens types known expressions depth known') (hclosed : Closed types known) :
    Closed types known' := by
  induction h with
  | done => exact hclosed
  | node _ _ _ ih ih' => exact ih' (ih hclosed)
  | known _ _ ih => exact ih hclosed
  | fresh _ hdeclaration hopens _ ih ih' =>
      exact ih' ((ih hclosed).insert hdeclaration (hopens.names _ (List.mem_singleton_self _)))

/-- An expansion makes nothing known that is not below what is known or named. -/
theorem Opens.least (h : Opens types known expressions depth known') {all : Set String}
    (hknown : known ⊆ all) (hclosed : Closed types all)
    (hnames : ∀ expression ∈ expressions, ∀ name ∈ expression.names, name ∈ all) : known' ⊆ all := by
  induction h with
  | done => exact hknown
  | node hnode _ _ ih ih' =>
      obtain ⟨hfirst, hrest⟩ := List.forall_mem_cons.mp hnames
      refine ih' (ih hknown fun member hmem name hname => hfirst name ?_) hrest
      rw [names_node hnode]
      obtain ⟨entry, hentry, rfl⟩ := List.mem_map.mp hmem
      exact mem_namesAll.mpr ⟨entry, hentry, hname⟩
  | known _ _ ih => exact ih hknown (List.forall_mem_cons.mp hnames).2
  | @fresh _ _ _ name _ declaration _ _ _ _ hdeclaration _ _ ih ih' =>
      obtain ⟨hfirst, hrest⟩ := List.forall_mem_cons.mp hnames
      have hname : name ∈ all := hfirst name (List.mem_singleton_self _)
      refine ih' (Set.insert_subset hname (ih hknown ?_)) hrest
      rw [List.forall_mem_singleton]
      exact fun other hother => hclosed name hname other ⟨declaration, hdeclaration, hother⟩

/-- **The more is known, the less deep it goes.** -/
theorem Opens.compare (h : Opens types known expressions depth known') :
    ∀ {more more' : Set String} {depth' : Nat}, Opens types more expressions depth' more' →
      known ⊆ more → Closed types more → depth' ≤ depth ∧ known' ⊆ more' := by
  induction h with
  | done =>
      intro more more' depth' hmore hsub _
      cases hmore
      exact ⟨Nat.le_refl _, hsub⟩
  | node hnode _ _ ih ih' =>
      intro more more' depth' hmore hsub hclosed
      cases hmore with
      | node _ hmembers hrest =>
          obtain ⟨hdepth, hsub⟩ := ih hmembers hsub hclosed
          obtain ⟨hdepth', hsub⟩ := ih' hrest hsub (hmembers.closed hclosed)
          exact ⟨max_le_max (Nat.succ_le_succ hdepth) hdepth', hsub⟩
      | known => cases hnode
      | fresh => cases hnode
  | known hname _ ih =>
      intro more more' depth' hmore hsub hclosed
      cases hmore with
      | node hnode => cases hnode
      | known _ hrest =>
          obtain ⟨hdepth, hsub⟩ := ih hrest hsub hclosed
          exact ⟨max_le_max (Nat.le_refl 1) hdepth, hsub⟩
      | fresh hnot => exact absurd (hsub hname) hnot
  | @fresh _ _ _ name _ declaration _ _ _ _ hdeclaration hopens _ ih ih' =>
      intro more more' depth' hmore hsub hclosed
      cases hmore with
      | node hnode => cases hnode
      | known hknown hrest =>
          -- all that is below the type is known with it
          have hbelow := hopens.least hsub hclosed (by
            rw [List.forall_mem_singleton]
            exact fun other hother => hclosed name hknown other ⟨declaration, hdeclaration, hother⟩)
          obtain ⟨hdepth, hsub⟩ := ih' hrest (Set.insert_subset hknown hbelow) hclosed
          exact ⟨max_le_max (Nat.succ_le_succ (Nat.zero_le _)) hdepth, hsub⟩
      | fresh _ hdeclaration' hopens' hrest =>
          obtain rfl := Option.some.inj (hdeclaration.symm.trans hdeclaration')
          obtain ⟨hdepth, hsub⟩ := ih hopens' hsub hclosed
          obtain ⟨hdepth', hsub⟩ := ih' hrest (Set.insert_subset_insert hsub)
            ((hopens'.closed hclosed).insert hdeclaration (hopens'.names _ (List.mem_singleton_self _)))
          exact ⟨max_le_max (Nat.succ_le_succ hdepth) hdepth', hsub⟩

/-- Expressions that name what is known are as deep as they are written. -/
theorem Opens.le_levels (h : Opens types known expressions depth known') {levels : Nat}
    (hlevels : ∀ expression ∈ expressions, expression.levels ≤ levels)
    (hnames : ∀ expression ∈ expressions, ∀ name ∈ expression.names, name ∈ known) :
    depth ≤ levels := by
  induction h generalizing levels with
  | done => exact Nat.zero_le _
  | @node _ _ _ expression _ _ _ hnode hmembers _ ih ih' =>
      obtain ⟨hfirst, hrest⟩ := List.forall_mem_cons.mp hlevels
      obtain ⟨hfirstNames, hrestNames⟩ := List.forall_mem_cons.mp hnames
      rw [levels_node hnode] at hfirst
      have hdepth := @ih (levelsAll expression.members) (fun member hmem => by
          obtain ⟨entry, hentry, rfl⟩ := List.mem_map.mp hmem
          exact le_levelsAll entry hentry) (fun member hmem name hname => hfirstNames name (by
          rw [names_node hnode]
          obtain ⟨entry, hentry, rfl⟩ := List.mem_map.mp hmem
          exact mem_namesAll.mpr ⟨entry, hentry, hname⟩))
      exact max_le (by omega) (ih' hrest fun expression hmem name hname =>
        hmembers.subset (hrestNames expression hmem name hname))
  | known _ _ ih =>
      obtain ⟨hfirst, hrest⟩ := List.forall_mem_cons.mp hlevels
      exact max_le hfirst (ih hrest (List.forall_mem_cons.mp hnames).2)
  | fresh hnot _ _ _ _ _ =>
      exact absurd ((List.forall_mem_cons.mp hnames).1 _ (List.mem_singleton_self _)) hnot

mutual

/-- An expression is expanded if the names in it are. -/
theorem opens_of_names {allowed : String → Prop}
    (hnamed : ∀ name span known, allowed name →
      ∃ depth known', Opens types known [.named name span] depth known') :
    ∀ (expression : TypeExpression), (∀ name ∈ expression.names, allowed name) →
      ∀ known, ∃ depth known', Opens types known [expression] depth known'
  | .named name span, hnames, known => hnamed name span known (hnames name (List.mem_singleton_self _))
  | .record fields, hnames, known => by
      obtain ⟨depth, known', h⟩ := opensAll_of_names hnamed fields hnames known
      exact ⟨_, _, .node rfl h .done⟩
  | .variant cases, hnames, known => by
      obtain ⟨depth, known', h⟩ := opensAll_of_names hnamed cases hnames known
      exact ⟨_, _, .node rfl h .done⟩
  | .list element maximum, hnames, known => by
      obtain ⟨depth, known', h⟩ := opens_of_names hnamed element hnames known
      exact ⟨_, _, .node rfl h .done⟩
  | .unit, _, known | .integer, _, known | .boolean, _, known | .string _, _, known
  | .bytes _, _, known => ⟨_, _, .node rfl .done .done⟩

theorem opensAll_of_names {allowed : String → Prop}
    (hnamed : ∀ name span known, allowed name →
      ∃ depth known', Opens types known [.named name span] depth known') :
    ∀ (members : List (String × TypeExpression)), (∀ name ∈ namesAll members, allowed name) →
      ∀ known, ∃ depth known', Opens types known (members.map (·.2)) depth known'
  | [], _, known => ⟨_, _, .done⟩
  | (_, member) :: members, hnames, known => by
      obtain ⟨depth, known', h⟩ := opens_of_names hnamed member
        (fun name hname => hnames name (List.mem_append_left _ hname)) known
      obtain ⟨depth', known'', h'⟩ := opensAll_of_names hnamed members
        (fun name hname => hnames name (List.mem_append_right _ hname)) known'
      exact ⟨_, _, h.cons h'⟩

end

/-- **Well-formed types are expanded.** -/
theorem WellFormed.opens (h : WellFormed types) {expression : TypeExpression}
    (hnames : ∀ name ∈ expression.names, (types.lookup name).isSome = true) (known : Set String) :
    ∃ depth known', Opens types known [expression] depth known' := by
  obtain ⟨rank, hrank⟩ := exists_rank (types.map Prod.fst)
    (fun a b hrefers => Assoc.isSome_lookup.mp (h.declared a b hrefers)) h.acyclic
  have hnamed : ∀ bound name span known, (types.lookup name).isSome = true → rank name < bound →
      ∃ depth known', Opens types known [.named name span] depth known' := by
    intro bound
    induction bound with
    | zero => exact fun _ _ _ _ hlt => absurd hlt (Nat.not_lt_zero _)
    | succ bound ih =>
        intro name span known hdeclared hlt
        obtain ⟨declaration, hdeclaration⟩ := Option.isSome_iff_exists.mp hdeclared
        by_cases hknown : name ∈ known
        · exact ⟨_, _, .known hknown .done⟩
        · have hbelow : ∀ other ∈ declaration.expression.names,
              (types.lookup other).isSome = true ∧ rank other < bound := by
            intro other hother
            have hrefers : Refers types name other := ⟨declaration, hdeclaration, hother⟩
            have hlower := hrank _ _ hrefers
            exact ⟨h.declared _ _ hrefers, by omega⟩
          obtain ⟨depth, known', hopens⟩ := opens_of_names
            (fun other span known hother => ih other span known hother.1 hother.2)
            declaration.expression hbelow known
          exact ⟨_, _, .fresh hknown hdeclaration hopens .done⟩
  exact opens_of_names (fun name span known hdeclared =>
    hnamed (rank name + 1) name span known hdeclared (Nat.lt_succ_self _)) expression hnames known

end Opens

end Hermas.Schema
