import Hermas.Base.Check
import Hermas.Compiler.SchemaTypes

/-!
# What the resolution finds

A resolution that succeeds has replaced every name by what it stands for, and has gone as
deep as the types open behind those that it knew (`resolveExpression_sound`); and where the
types open within the levels that are left, it succeeds (`resolveMembers_opens`).
-/

namespace Hermas.Schema

open Catalog (Representation)

variable {file : String} {types : List (String × TypeDeclaration)}
  {resolved resolved' : List (String × Representation)} {visiting : List String} {levels : Nat}
  {expression : TypeExpression} {representation : Representation} {name : String}

/-! ## What is resolved -/

/-- The types that are resolved. -/
def knownOf (resolved : List (String × Representation)) : Set String :=
  {name | (resolved.lookup name).isSome = true}

/-- What is resolved is what the types stand for. -/
structure Sound (types : List (String × TypeDeclaration))
    (resolved : List (String × Representation)) : Prop where
  sorted : Assoc.Sorted resolved
  denotes : ∀ name representation, resolved.lookup name = some representation →
    ∃ declaration, types.lookup name = some declaration ∧
      Denotes types declaration.expression representation

theorem sound_nil : Sound types [] :=
  ⟨List.Pairwise.nil, fun _ _ h => by cases h⟩

theorem mem_knownOf : name ∈ knownOf resolved ↔ (resolved.lookup name).isSome = true := Iff.rfl

theorem knownOf_nil : knownOf [] = ∅ := by
  ext name
  simp [mem_knownOf]

theorem knownOf_insert (h : Assoc.Sorted resolved) :
    knownOf (Assoc.insert name representation resolved) = insert name (knownOf resolved) := by
  ext other
  rw [mem_knownOf, Assoc.lookup_insert h, Set.mem_insert_iff, mem_knownOf]
  by_cases hother : other = name
  · simp [hother]
  · rw [if_neg hother]
    exact ⟨.inr, fun hmem => hmem.resolve_left hother⟩

theorem Sound.insert {declaration : TypeDeclaration} (h : Sound types resolved)
    (hdeclaration : types.lookup name = some declaration)
    (hdenotes : Denotes types declaration.expression representation) :
    Sound types (Assoc.insert name representation resolved) := by
  refine ⟨h.sorted.insert, fun other found hfound => ?_⟩
  rw [Assoc.lookup_insert h.sorted] at hfound
  split_ifs at hfound with hother
  · rw [hother, ← Option.some.inj hfound]
    exact ⟨declaration, hdeclaration, hdenotes⟩
  · exact h.denotes other found hfound

/-! ## Soundness -/

/-- An expression that is no name is resolved by its members. -/
theorem resolveExpression_node (hnode : expression.isNamed = false) :
    resolveExpression file types (levels + 1) visiting expression resolved =
      (resolveMembers (resolveExpression file types levels visiting) expression.members resolved).map
        fun result => (expression.build result.1, result.2) := by
  cases expression with
  | named name span => cases hnode
  | record fields | variant cases =>
      rw [resolveExpression, TypeExpression.members]
      cases resolveMembers (resolveExpression file types levels visiting) _ resolved <;> rfl
  | list element maximum =>
      rw [resolveExpression, TypeExpression.members, resolveMembers]
      cases resolveExpression file types levels visiting element resolved <;> rfl
  | _ => rfl

/-- What a resolution has done. -/
structure Resolves (types : List (String × TypeDeclaration)) (levels : Nat)
    (expressions : List TypeExpression) (resolved resolved' : List (String × Representation)) :
    Prop where
  sound : Sound types resolved'
  opens : ∃ depth ≤ levels, Opens types (knownOf resolved) expressions depth (knownOf resolved')

theorem resolveMembers_sound {members : List (String × TypeExpression)}
    {representations : List (String × Representation)}
    {resolve : TypeExpression → List (String × Representation) →
      Except SchemaDiagnostic (Representation × List (String × Representation))}
    (hresolve : ∀ {expression resolved representation resolved'},
      resolve expression resolved = .ok (representation, resolved') → Sound types resolved →
        Resolves types levels [expression] resolved resolved' ∧
          Denotes types expression representation)
    (h : resolveMembers resolve members resolved = .ok (representations, resolved'))
    (hsound : Sound types resolved) :
    Resolves types levels (members.map (·.2)) resolved resolved' ∧
      ∃ steps, expandMembers (expand types steps) members = some representations := by
  induction members generalizing resolved representations with
  | nil =>
      cases h
      exact ⟨⟨hsound, 0, Nat.zero_le _, .done⟩, 0, rfl⟩
  | cons member members ih =>
      obtain ⟨name, member⟩ := member
      simp only [resolveMembers, bind_ok] at h
      obtain ⟨⟨first, between⟩, hfirst, ⟨rest, last⟩, hrest, h⟩ := h
      cases h
      obtain ⟨⟨hbetween, depth, hdepth, hopens⟩, steps, hexpand⟩ := hresolve hfirst hsound
      obtain ⟨⟨hlast, depth', hdepth', hopens'⟩, steps', hexpand'⟩ := ih hrest hbetween
      refine ⟨⟨hlast, _, max_le hdepth hdepth', hopens.cons hopens'⟩, max steps steps', ?_⟩
      rw [expandMembers, expand_mono hexpand (Nat.le_max_left _ _),
        expandMembers_mono (fun _ _ hsome => expand_mono hsome (Nat.le_max_right _ _)) hexpand']
      rfl

/-- **What a resolution returns is what the expression stands for**, and it has gone no deeper
than it may. -/
theorem resolveExpression_sound : ∀ {levels : Nat} {visiting : List String}
    {expression : TypeExpression} {resolved : List (String × Representation)}
    {representation : Representation} {resolved' : List (String × Representation)},
    resolveExpression file types levels visiting expression resolved =
        .ok (representation, resolved') → Sound types resolved →
      Resolves types levels [expression] resolved resolved' ∧ Denotes types expression representation
  | 0, _, _, _, _, _, h, _ => by cases h
  | levels + 1, visiting, expression, resolved, representation, resolved', h, hsound => by
      cases hnamed : expression.isNamed with
      | false =>
          rw [resolveExpression_node hnamed] at h
          cases hmembers : resolveMembers (resolveExpression file types levels visiting)
              expression.members resolved with
          | error e =>
              rw [hmembers] at h
              cases h
          | ok result =>
              rw [hmembers] at h
              cases h
              obtain ⟨⟨hlast, depth, hdepth, hopens⟩, steps, hexpand⟩ :=
                resolveMembers_sound resolveExpression_sound hmembers hsound
              refine ⟨⟨hlast, _, max_le (Nat.succ_le_succ hdepth) (Nat.zero_le _),
                .node hnamed hopens .done⟩, steps + 1, ?_⟩
              rw [expand_node hnamed, hexpand]
              rfl
      | true =>
          cases expression with
          | named name span =>
              rw [resolveExpression] at h
              dsimp only at h
              split at h
              · -- a type that is known
                rename_i found hfound
                obtain ⟨declaration, hdeclaration, steps, hsteps⟩ := hsound.denotes name found hfound
                cases h
                refine ⟨⟨hsound, _, max_le (Nat.succ_le_succ (Nat.zero_le _)) (Nat.zero_le _),
                  .known (by rw [mem_knownOf, hfound]; rfl) .done⟩, steps + 1, ?_⟩
                rw [expand, hdeclaration, Option.bind_some, hsteps]
              · rename_i hunknown
                split at h
                · cases h
                rename_i declaration hdeclaration
                split at h
                · cases h
                simp only [bind_ok] at h
                obtain ⟨⟨found, between⟩, hfound, h⟩ := h
                cases h
                obtain ⟨⟨hbetween, depth, hdepth, hopens⟩, hdenotes⟩ :=
                  resolveExpression_sound hfound hsound
                refine ⟨⟨hbetween.insert hdeclaration hdenotes, _,
                  max_le (Nat.succ_le_succ hdepth) (Nat.zero_le _), ?_⟩, ?_⟩
                · rw [knownOf_insert hbetween.sorted]
                  refine .fresh ?_ hdeclaration hopens .done
                  rw [mem_knownOf, hunknown]
                  decide
                · obtain ⟨steps, hsteps⟩ := hdenotes
                  exact ⟨steps + 1, by rw [expand, hdeclaration, Option.bind_some, hsteps]⟩
          | _ => cases hnamed

/-! ## Completeness -/

/-- No type that is being resolved is named, at once or further down. -/
def Unvisited (types : List (String × TypeDeclaration)) (visiting : List String)
    (expressions : List TypeExpression) : Prop :=
  ∀ expression ∈ expressions, ∀ name ∈ expression.names, ∀ visited ∈ visiting,
    ¬ Relation.ReflTransGen (Refers types) name visited

/-- Below a type that is resolved none is named that is being resolved. -/
theorem Unvisited.below {declaration : TypeDeclaration} {span : Span}
    {expressions : List TypeExpression} (hwell : WellFormed types)
    (h : Unvisited types visiting (.named name span :: expressions))
    (hdeclaration : types.lookup name = some declaration) :
    Unvisited types (name :: visiting) [declaration.expression] := by
  intro expression hmem other hother visited hvisited hreaches
  obtain rfl := List.mem_singleton.mp hmem
  have hrefers : Refers types name other := ⟨declaration, hdeclaration, hother⟩
  rcases List.mem_cons.mp hvisited with rfl | hvisited
  · exact hwell.acyclic visited (Relation.TransGen.head' hrefers hreaches)
  · exact h _ List.mem_cons_self name (List.mem_singleton_self _) visited hvisited
      (.head hrefers hreaches)

/-- **What opens within the levels that are left is resolved.** -/
theorem resolveMembers_opens (hwell : WellFormed types) {known known' : Set String}
    {expressions : List TypeExpression} {depth : Nat}
    (h : Opens types known expressions depth known') :
    ∀ {levels : Nat} {visiting : List String} {resolved : List (String × Representation)}
      {members : List (String × TypeExpression)}, Sound types resolved → knownOf resolved = known →
      depth ≤ levels → Unvisited types visiting expressions → members.map (·.2) = expressions →
        ∃ representations resolved',
          resolveMembers (resolveExpression file types levels visiting) members resolved =
            .ok (representations, resolved') := by
  have hgeneral : ∀ {levels : Nat} {visiting : List String}
      {resolved : List (String × Representation)} {members : List (String × TypeExpression)},
      Sound types resolved → knownOf resolved = known → depth ≤ levels →
      Unvisited types visiting expressions → members.map (·.2) = expressions →
        ∃ representations resolved',
          resolveMembers (resolveExpression file types levels visiting) members resolved =
            .ok (representations, resolved') ∧ knownOf resolved' = known' := by
    induction h with
    | done =>
        intro levels visiting resolved members _ hknown _ _ hmembers
        obtain rfl := List.map_eq_nil_iff.mp hmembers
        exact ⟨[], resolved, rfl, hknown⟩
    | @node _ _ _ expression _ _ _ hnode _ _ ih ih' =>
        intro levels visiting resolved members hsound hknown hdepth hunvisited hmembers
        obtain ⟨⟨name, member⟩, members, rfl, rfl, rfl⟩ := List.map_eq_cons_iff.mp hmembers
        obtain ⟨levels, rfl⟩ : ∃ less, levels = less + 1 :=
          Nat.exists_eq_succ_of_ne_zero (by omega)
        obtain ⟨representations, between, hbetween, hknownBetween⟩ := @ih levels visiting resolved _
          hsound hknown (by omega) (fun other hother name hname => by
            obtain ⟨entry, hentry, rfl⟩ := List.mem_map.mp hother
            refine hunvisited member List.mem_cons_self name ?_
            rw [names_node hnode]
            exact mem_namesAll.mpr ⟨entry, hentry, hname⟩) rfl
        have hbetweenSound := (resolveMembers_sound resolveExpression_sound hbetween hsound).1.sound
        obtain ⟨rest, last, hlast, hknownLast⟩ := @ih' (levels + 1) visiting between members
          hbetweenSound hknownBetween (by omega)
          (fun other hother => hunvisited other (List.mem_cons_of_mem _ hother)) rfl
        refine ⟨(name, member.build representations) :: rest, last, ?_, hknownLast⟩
        rw [resolveMembers, resolveExpression_node hnode, hbetween]
        dsimp only [Except.map, bind, Except.bind]
        rw [hlast]
    | @known _ _ typeName span _ _ hname _ ih =>
        intro levels visiting resolved members hsound hknown hdepth hunvisited hmembers
        obtain ⟨⟨name, member⟩, members, rfl, rfl, rfl⟩ := List.map_eq_cons_iff.mp hmembers
        obtain ⟨levels, rfl⟩ : ∃ less, levels = less + 1 :=
          Nat.exists_eq_succ_of_ne_zero (by omega)
        obtain ⟨representation, hfound⟩ := Option.isSome_iff_exists.mp
          (show (resolved.lookup typeName).isSome = true by rw [← hknown] at hname; exact hname)
        obtain ⟨rest, last, hlast, hknownLast⟩ := @ih (levels + 1) visiting resolved members hsound
          hknown (by omega) (fun other hother => hunvisited other (List.mem_cons_of_mem _ hother)) rfl
        refine ⟨(name, representation) :: rest, last, ?_, hknownLast⟩
        rw [resolveMembers, resolveExpression]
        dsimp only
        rw [hfound]
        dsimp only [bind, Except.bind]
        rw [hlast]
    | @fresh _ _ _ typeName span declaration _ _ _ hname hdeclaration _ _ ih ih' =>
        intro levels visiting resolved members hsound hknown hdepth hunvisited hmembers
        obtain ⟨⟨name, member⟩, members, rfl, rfl, rfl⟩ := List.map_eq_cons_iff.mp hmembers
        obtain ⟨levels, rfl⟩ : ∃ less, levels = less + 1 :=
          Nat.exists_eq_succ_of_ne_zero (by omega)
        have hunknown : resolved.lookup typeName = none := by
          rw [← hknown] at hname
          cases hlookup : resolved.lookup typeName with
          | none => rfl
          | some found => exact absurd (by rw [mem_knownOf, hlookup]; rfl) hname
        have hfree : visiting.contains typeName = false := by
          rw [List.contains_eq_mem, decide_eq_false_iff_not]
          exact fun hmem => hunvisited _ List.mem_cons_self typeName (List.mem_singleton_self _)
            typeName hmem .refl
        obtain ⟨representations, between, hbetween, hknownBetween⟩ :=
          @ih levels (typeName :: visiting) resolved [("", declaration.expression)] hsound hknown
            (by omega) (hunvisited.below hwell hdeclaration) rfl
        rw [resolveMembers] at hbetween
        simp only [bind_ok] at hbetween
        obtain ⟨⟨representation, between⟩, hexpression, ⟨_, _⟩, hnone, heq⟩ := hbetween
        cases hnone
        cases heq
        obtain ⟨hresolves, hdenotes⟩ := resolveExpression_sound hexpression hsound
        have hinsert := hresolves.sound.insert hdeclaration hdenotes
        obtain ⟨rest, last, hlast, hknownLast⟩ := @ih' (levels + 1) visiting
          (Assoc.insert typeName representation between) members hinsert
          (by rw [knownOf_insert hresolves.sound.sorted, hknownBetween]) (by omega)
          (fun other hother => hunvisited other (List.mem_cons_of_mem _ hother)) rfl
        refine ⟨(name, representation) :: rest, last, ?_, hknownLast⟩
        rw [resolveMembers, resolveExpression]
        dsimp only
        rw [hunknown, hdeclaration]
        dsimp only
        rw [hfree, if_neg Bool.false_ne_true, hexpression]
        dsimp only [bind, Except.bind]
        rw [hlast]
  intro levels visiting resolved members hsound hknown hdepth hunvisited hmembers
  obtain ⟨representations, resolved', hok, -⟩ :=
    hgeneral hsound hknown hdepth hunvisited hmembers
  exact ⟨representations, resolved', hok⟩

/-- An expression that opens within the levels that are left is resolved. -/
theorem resolveExpression_opens (hwell : WellFormed types) (hsound : Sound types resolved)
    {known' : Set String} {depth : Nat}
    (h : Opens types (knownOf resolved) [expression] depth known') (hdepth : depth ≤ levels)
    (hunvisited : Unvisited types visiting [expression]) :
    ∃ representation resolved', resolveExpression file types levels visiting expression resolved =
      .ok (representation, resolved') := by
  obtain ⟨representations, resolved', hok⟩ := @resolveMembers_opens file _ hwell _ _ _ _ h levels
    visiting resolved [("", expression)] hsound rfl hdepth hunvisited rfl
  rw [resolveMembers] at hok
  simp only [bind_ok] at hok
  obtain ⟨⟨representation, between⟩, hexpression, -⟩ := hok
  exact ⟨representation, between, hexpression⟩

/-! ## All types -/

/-- **What the loop returns is what the types stand for.** -/
theorem resolveTypesFrom_sound {rest : List (String × TypeDeclaration)}
    (hrest : ∀ entry ∈ rest, types.lookup entry.1 = some entry.2) (hsound : Sound types resolved)
    (h : resolveTypesFrom file types rest resolved = .ok resolved') :
    Sound types resolved' ∧ knownOf resolved ⊆ knownOf resolved' ∧
      ∀ entry ∈ rest, entry.1 ∈ knownOf resolved' := by
  induction rest generalizing resolved with
  | nil =>
      cases h
      exact ⟨hsound, subset_rfl, fun _ hmem => by cases hmem⟩
  | cons entry rest ih =>
      obtain ⟨name, declaration⟩ := entry
      obtain ⟨hfirst, hrest⟩ := List.forall_mem_cons.mp hrest
      rw [resolveTypesFrom] at h
      split_ifs at h with hknown
      · obtain ⟨hlast, hsub, hall⟩ := ih hrest hsound h
        exact ⟨hlast, hsub, List.forall_mem_cons.mpr ⟨hsub hknown, hall⟩⟩
      · simp only [bind_ok] at h
        obtain ⟨⟨representation, between⟩, hexpression, h⟩ := h
        obtain ⟨⟨hbetween, depth, -, hopens⟩, hdenotes⟩ := resolveExpression_sound hexpression hsound
        obtain ⟨hlast, hsub, hall⟩ := ih hrest (hbetween.insert hfirst hdenotes) h
        rw [knownOf_insert hbetween.sorted] at hsub
        exact ⟨hlast, (hopens.subset.trans (Set.subset_insert _ _)).trans hsub,
          List.forall_mem_cons.mpr ⟨hsub (Set.mem_insert _ _), hall⟩⟩

/-- **The loop ends well if every type opens within the levels when it is met.** -/
theorem resolveTypesFrom_opens (hwell : WellFormed types) {front rest : List (String × TypeDeclaration)}
    (hrest : ∀ entry ∈ rest, types.lookup entry.1 = some entry.2) (hsound : Sound types resolved)
    (hclosed : Closed types (knownOf resolved)) (hfront : ∀ entry ∈ front, entry.1 ∈ knownOf resolved)
    (hopens : ∀ before entry after, front ++ rest = before ++ entry :: after →
      ∀ known, Closed types known → (∀ earlier ∈ before, earlier.1 ∈ known) →
        ∃ depth known', depth ≤ maxRepresentationDepth + 1 ∧
          Opens types known [entry.2.expression] depth known') :
    ∃ resolved', resolveTypesFrom file types rest resolved = .ok resolved' := by
  induction rest generalizing front resolved with
  | nil => exact ⟨resolved, rfl⟩
  | cons entry rest ih =>
      obtain ⟨name, declaration⟩ := entry
      obtain ⟨hfirst, hrest⟩ := List.forall_mem_cons.mp hrest
      have hsplit : front ++ (name, declaration) :: rest = front ++ [(name, declaration)] ++ rest := by
        simp
      rw [resolveTypesFrom]
      split_ifs with hknown
      · have hfront' : ∀ entry ∈ front ++ [(name, declaration)], entry.1 ∈ knownOf resolved :=
          List.forall_mem_append.mpr ⟨hfront, List.forall_mem_singleton.mpr hknown⟩
        exact ih hrest hsound hclosed hfront' (hsplit ▸ hopens)
      · obtain ⟨depth, known', hdepth, h⟩ := hopens front _ rest rfl _ hclosed hfront
        have hunvisited : Unvisited types [name] [declaration.expression] := by
          intro expression hmem other hother visited hvisited hreaches
          obtain rfl := List.mem_singleton.mp hmem
          obtain rfl := List.mem_singleton.mp hvisited
          exact hwell.acyclic visited (Relation.TransGen.head' ⟨declaration, hfirst, hother⟩ hreaches)
        obtain ⟨representation, between, hexpression⟩ :=
          @resolveExpression_opens file _ _ _ _ _ hwell hsound _ _ h hdepth hunvisited
        obtain ⟨⟨hbetween, depth', -, hopened⟩, hdenotes⟩ := resolveExpression_sound hexpression hsound
        have hknownOf : knownOf (Assoc.insert name representation between) =
            insert name (knownOf between) := knownOf_insert hbetween.sorted
        have hclosed' : Closed types (knownOf (Assoc.insert name representation between)) := by
          rw [hknownOf]
          exact (hopened.closed hclosed).insert hfirst (hopened.names _ (List.mem_singleton_self _))
        have hfront' : ∀ entry ∈ front ++ [(name, declaration)],
            entry.1 ∈ knownOf (Assoc.insert name representation between) := by
          rw [hknownOf]
          refine List.forall_mem_append.mpr ⟨fun earlier hearlier => ?_,
            List.forall_mem_singleton.mpr (Set.mem_insert _ _)⟩
          exact Set.mem_insert_of_mem _ (hopened.subset (hfront earlier hearlier))
        rw [hexpression]
        exact ih hrest (hbetween.insert hfirst hdenotes) hclosed' hfront' (hsplit ▸ hopens)

section Types

variable (hsorted : Assoc.Sorted types)
include hsorted

/-- **Types are resolved only to what they stand for**, and then all of them are. -/
theorem resolveTypes_sound (h : resolveTypes file types = .ok resolved) :
    Sound types resolved ∧ ∀ entry ∈ types, entry.1 ∈ knownOf resolved := by
  obtain ⟨hsound, -, hall⟩ := resolveTypesFrom_sound (fun entry hmem => hsorted.lookup hmem) sound_nil h
  exact ⟨hsound, hall⟩

/-- A type that is declared has been resolved. -/
theorem exists_of_resolveTypes (h : resolveTypes file types = .ok resolved)
    {declaration : TypeDeclaration} (hdeclaration : types.lookup name = some declaration) :
    ∃ representation, resolved.lookup name = some representation ∧
      Denotes types declaration.expression representation := by
  obtain ⟨hsound, hall⟩ := resolveTypes_sound hsorted h
  obtain ⟨representation, hfound⟩ := Option.isSome_iff_exists.mp
    (mem_knownOf.mp (hall _ (Assoc.mem_of_lookup hdeclaration)))
  obtain ⟨declaration', hdeclaration', hdenotes⟩ := hsound.denotes name representation hfound
  rw [hdeclaration] at hdeclaration'
  exact ⟨representation, hfound, Option.some.inj hdeclaration' ▸ hdenotes⟩

/-- **Types that are resolved are well formed.** -/
theorem wellFormed_of_resolveTypes (h : resolveTypes file types = .ok resolved) : WellFormed types := by
  refine wellFormed_of_denotes fun name declaration hdeclaration => ?_
  obtain ⟨representation, -, hdenotes⟩ := exists_of_resolveTypes hsorted h hdeclaration
  exact ⟨representation, hdenotes⟩

/-- The loop ends well from its start. -/
theorem resolveTypes_opens (hwell : WellFormed types)
    (hopens : ∀ before entry after, types = before ++ entry :: after →
      ∀ known, Closed types known → (∀ earlier ∈ before, earlier.1 ∈ known) →
        ∃ depth known', depth ≤ maxRepresentationDepth + 1 ∧
          Opens types known [entry.2.expression] depth known') :
    ∃ resolved, resolveTypes file types = .ok resolved := by
  have hfront : ∀ entry ∈ ([] : List (String × TypeDeclaration)), entry.1 ∈ knownOf [] :=
    List.forall_mem_nil _
  refine resolveTypesFrom_opens hwell (fun entry hmem => hsorted.lookup hmem) sound_nil ?_ hfront
    hopens
  rw [knownOf_nil]
  exact fun _ hmem => absurd hmem (Set.notMem_empty _)

end Types

end Hermas.Schema
