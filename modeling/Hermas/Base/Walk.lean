import Mathlib.Data.List.Nodup
import Mathlib.Data.Finset.Card
import Mathlib.Logic.Relation
import Mathlib.Order.Bounds.Basic

/-!
# Longest walks

A walk starts at an entry and follows a relation; its length is the number of points on
it. The lengths of the longest walks grow along the relation, and where a rank grows along
it too, no walk has more points than the rank has values. A rank is what a list gives that
names every point behind those that lead to it (`Topological`).
-/

namespace Hermas

variable {α : Type} {entry : α → Prop} {step : α → α → Prop}

/-- There is a walk of this length from an entry to the point. -/
inductive Walk (entry : α → Prop) (step : α → α → Prop) : Nat → α → Prop
  | enter {a : α} : entry a → Walk entry step 1 a
  | step {n : Nat} {a b : α} : Walk entry step n a → step a b → Walk entry step (n + 1) b

/-- The length of the longest walk to a point. -/
def Longest (entry : α → Prop) (step : α → α → Prop) (a : α) (n : Nat) : Prop :=
  IsGreatest {k | Walk entry step k a} n

namespace Walk

theorem pos {n : Nat} {a : α} (h : Walk entry step n a) : 0 < n := by
  cases h <;> exact Nat.succ_pos _

/-- A walk goes on to every point further down. -/
theorem trans {n : Nat} {a b : α} (h : Walk entry step n a) (hab : Relation.TransGen step a b) :
    ∃ m, n < m ∧ Walk entry step m b := by
  induction hab with
  | single hstep => exact ⟨n + 1, Nat.lt_succ_self n, h.step hstep⟩
  | tail _ hstep ih =>
      obtain ⟨m, hlt, hwalk⟩ := ih
      exact ⟨m + 1, Nat.lt_succ_of_lt hlt, hwalk.step hstep⟩

/-- A walk has at most as many points as there are ranks up to its end. -/
theorem le_rank {rank : α → Nat} (hrank : ∀ a b, step a b → rank a < rank b) {n : Nat} {a : α}
    (h : Walk entry step n a) : n ≤ rank a + 1 := by
  induction h with
  | enter _ => omega
  | step _ hstep ih =>
      have := hrank _ _ hstep
      omega

end Walk

/-- **The longest walks get longer along the relation.** -/
theorem Longest.lt {a b : α} {n m : Nat} (ha : Longest entry step a n)
    (hb : Longest entry step b m) (hab : Relation.TransGen step a b) : n < m := by
  obtain ⟨k, hlt, hwalk⟩ := Walk.trans ha.1 hab
  exact hlt.trans_le (hb.2 hwalk)

/-! ## Lists that name every point behind those that lead to it -/

/-- What leads to a point of the list is in front of it. -/
def Topological (step : α → α → Prop) (order : List α) : Prop :=
  ∀ before b after, order = before ++ b :: after → ∀ a, step a b → a ∈ before

theorem topological_nil : Topological step [] := by
  intro before b after h
  simp at h

/-- A point goes to the end of the list when all that leads to it is there. -/
theorem Topological.append {order : List α} {b : α} (h : Topological step order)
    (hb : ∀ a, step a b → a ∈ order) : Topological step (order ++ [b]) := by
  intro before c after heq
  rcases List.eq_nil_or_concat after with rfl | ⟨after, last, rfl⟩
  · obtain ⟨rfl, hlast⟩ := List.append_inj' heq rfl
    obtain rfl := (List.cons.inj hlast).1
    exact hb
  · have heq' : order ++ [b] = (before ++ c :: after) ++ [last] := by
      rw [heq]
      simp
    exact h before c after (List.append_inj' heq' rfl).1

/-- The place in such a list is a rank. -/
theorem Topological.idxOf_lt [DecidableEq α] {order : List α} (h : Topological step order) (hnodup : order.Nodup) {a b : α}
    (hb : b ∈ order) (hab : step a b) : order.idxOf a < order.idxOf b := by
  obtain ⟨before, after, rfl⟩ := List.append_of_mem hb
  have ha := h before b after rfl a hab
  have hnot : b ∉ before := fun hmem =>
    (List.disjoint_of_nodup_append hnodup) hmem List.mem_cons_self
  rw [List.idxOf_append_of_mem ha, List.idxOf_append_of_notMem hnot, List.idxOf_cons_self]
  have := List.idxOf_lt_length_of_mem ha
  omega

/-- As many different numbers as there are below a bound are all of them. -/
theorem mem_of_nodup_length {xs : List Nat} {bound : Nat} (hnodup : xs.Nodup)
    (hbound : ∀ x ∈ xs, x < bound) (hlength : xs.length = bound) {x : Nat} (hx : x < bound) :
    x ∈ xs := by
  have hsub : xs.toFinset ⊆ Finset.range bound := fun y hy =>
    Finset.mem_range.mpr (hbound y (List.mem_toFinset.mp hy))
  have hcard : (Finset.range bound).card ≤ xs.toFinset.card := by
    rw [Finset.card_range, List.toFinset_card_of_nodup hnodup, hlength]
  have heq := Finset.eq_of_subset_of_card_le hsub hcard
  exact List.mem_toFinset.mp (heq ▸ Finset.mem_range.mpr hx)

theorem length_le_of_nodup {xs : List Nat} {bound : Nat} (hnodup : xs.Nodup)
    (hbound : ∀ x ∈ xs, x < bound) : xs.length ≤ bound := by
  have hsub : xs.toFinset ⊆ Finset.range bound := fun y hy =>
    Finset.mem_range.mpr (hbound y (List.mem_toFinset.mp hy))
  have hcard := Finset.card_le_card hsub
  rwa [Finset.card_range, List.toFinset_card_of_nodup hnodup] at hcard

/-- The other way round: with all of them the list is as long as the bound. -/
theorem length_of_nodup_mem {xs : List Nat} {bound : Nat} (hnodup : xs.Nodup)
    (hbound : ∀ x ∈ xs, x < bound) (hmem : ∀ x < bound, x ∈ xs) : xs.length = bound := by
  have heq : xs.toFinset = Finset.range bound := by
    ext x
    rw [List.mem_toFinset, Finset.mem_range]
    exact ⟨hbound x, hmem x⟩
  rw [← List.toFinset_card_of_nodup hnodup, heq, Finset.card_range]

/-! ## Ranks -/

/-- **A relation that leads into finitely many points and never back has a rank**: the number of
points below. -/
theorem exists_rank (points : List α) (hpoints : ∀ a b, step a b → b ∈ points)
    (hacyclic : ∀ a, ¬ Relation.TransGen step a a) :
    ∃ rank : α → Nat, ∀ a b, step a b → rank b < rank a := by
  classical
  refine ⟨fun a => (points.toFinset.filter (Relation.TransGen step a)).card, fun a b hstep => ?_⟩
  refine Finset.card_lt_card (Finset.ssubset_iff_of_subset ?_ |>.mpr ⟨b, ?_, ?_⟩)
  · intro c hc
    rw [Finset.mem_filter] at hc ⊢
    exact ⟨hc.1, .head hstep hc.2⟩
  · exact Finset.mem_filter.mpr ⟨List.mem_toFinset.mpr (hpoints a b hstep), .single hstep⟩
  · exact fun hb => hacyclic b (Finset.mem_filter.mp hb).2

end Hermas
