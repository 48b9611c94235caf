import Mathlib.Data.List.Sort
import Mathlib.Logic.Relation

/-!
# Depth-first search

A search goes from a point to the points behind it and keeps those that it has met in a
sorted list, each once. With as many levels as there are unmet points that lead on, it meets
exactly what can be reached, and what it has met is closed: all that is behind it has been
met too.
-/

namespace Hermas.DepthFirst

variable {α : Type} [LinearOrder α]

/-- The points that have been met behind the search from a point. -/
def visit (next : α → List α) : Nat → List α → α → List α
  | 0, met, a => if a ∈ met then met else met.orderedInsert (· ≤ ·) a
  | levels + 1, met, a =>
      if a ∈ met then met
      else (next a).foldl (visit next levels) (met.orderedInsert (· ≤ ·) a)

/-- Among these points, those that have not been met. -/
def unmet (points met : List α) : Nat := (points.filter fun a => a ∉ met).length

variable {next : α → List α} {levels : Nat} {met : List α} {a b : α}

/-! ## What is kept -/

omit [LinearOrder α] in
theorem subset_foldl {step : List α → α → List α} (hstep : ∀ met a, met ⊆ step met a) :
    ∀ (points met : List α), met ⊆ points.foldl step met
  | [], met => List.Subset.refl met
  | a :: points, met => List.Subset.trans (hstep met a) (subset_foldl hstep points (step met a))

theorem subset_visit : ∀ (levels : Nat) (met : List α) (a : α), met ⊆ visit next levels met a
  | 0, met, a => by
      rw [visit]
      split_ifs
      · exact List.Subset.refl met
      · exact fun b hb => (List.mem_orderedInsert _).mpr (.inr hb)
  | levels + 1, met, a => by
      rw [visit]
      split_ifs
      · exact List.Subset.refl met
      · refine List.Subset.trans (fun b hb => ?_) (subset_foldl (subset_visit levels) (next a) _)
        exact (List.mem_orderedInsert _).mpr (.inr hb)

theorem mem_visit (levels : Nat) (met : List α) (a : α) : a ∈ visit next levels met a := by
  have hinsert : a ∈ met.orderedInsert (· ≤ ·) a := (List.mem_orderedInsert _).mpr (.inl rfl)
  cases levels with
  | zero =>
      rw [visit]
      split_ifs with hmem
      · exact hmem
      · exact hinsert
  | succ levels =>
      rw [visit]
      split_ifs with hmem
      · exact hmem
      · exact subset_foldl (subset_visit levels) (next a) _ hinsert

/-- A point that is new goes to its place. -/
theorem sortedLT_orderedInsert (h : met.SortedLT) (hnew : a ∉ met) :
    (met.orderedInsert (· ≤ ·) a).SortedLT := by
  have hle : (met.orderedInsert (· ≤ ·) a).Pairwise (· ≤ ·) :=
    List.Pairwise.orderedInsert a met (h.pairwise.imp le_of_lt)
  have hnodup : (met.orderedInsert (· ≤ ·) a).Nodup :=
    (List.perm_orderedInsert _ a met).nodup_iff.mpr (List.nodup_cons.mpr ⟨hnew, h.nodup⟩)
  exact (hle.sortedLE.sortedLT_of_nodup hnodup)

theorem sorted_foldl {step : List α → α → List α}
    (hstep : ∀ met a, met.SortedLT → (step met a).SortedLT) :
    ∀ (points met : List α), met.SortedLT → (points.foldl step met).SortedLT
  | [], _, h => h
  | a :: points, met, h => sorted_foldl hstep points (step met a) (hstep met a h)

/-- The points that are met stay sorted, each once. -/
theorem sorted_visit : ∀ (levels : Nat) (met : List α) (a : α), met.SortedLT →
    (visit next levels met a).SortedLT
  | 0, met, a, h => by
      rw [visit]
      split_ifs with hmem
      · exact h
      · exact sortedLT_orderedInsert h hmem
  | levels + 1, met, a, h => by
      rw [visit]
      split_ifs with hmem
      · exact h
      · exact sorted_foldl (sorted_visit levels) (next a) _ (sortedLT_orderedInsert h hmem)

/-! ## What is met -/

omit [LinearOrder α] in
theorem reach_foldl {step : List α → α → List α} {reach : α → α → Prop}
    (hstep : ∀ met a b, b ∈ step met a → b ∈ met ∨ reach a b) :
    ∀ (points met : List α) (b : α), b ∈ points.foldl step met →
      b ∈ met ∨ ∃ a ∈ points, reach a b
  | [], _, _, h => .inl h
  | a :: points, met, b, h => by
      rcases reach_foldl hstep points (step met a) b h with h | ⟨c, hc, hreach⟩
      · rcases hstep met a b h with h | hreach
        · exact .inl h
        · exact .inr ⟨a, List.mem_cons_self, hreach⟩
      · exact .inr ⟨c, List.mem_cons_of_mem _ hc, hreach⟩

/-- **Only what can be reached is met.** -/
theorem reach_visit : ∀ (levels : Nat) (met : List α) (a b : α), b ∈ visit next levels met a →
    b ∈ met ∨ Relation.ReflTransGen (fun a b => b ∈ next a) a b
  | 0, met, a, b, h => by
      rw [visit] at h
      split_ifs at h
      · exact .inl h
      · rcases (List.mem_orderedInsert _).mp h with rfl | h
        · exact .inr .refl
        · exact .inl h
  | levels + 1, met, a, b, h => by
      rw [visit] at h
      split_ifs at h
      · exact .inl h
      · rcases reach_foldl (reach_visit levels) (next a) _ b h with h | ⟨c, hc, hreach⟩
        · rcases (List.mem_orderedInsert _).mp h with rfl | h
          · exact .inr .refl
          · exact .inl h
        · exact .inr (.head hc hreach)

theorem unmet_mono {points met met' : List α} (h : met ⊆ met') : unmet points met' ≤ unmet points met := by
  refine List.Sublist.length_le (List.monotone_filter_right points fun a ha => ?_)
  simp only [decide_not, Bool.not_eq_true', decide_eq_false_iff_not] at ha ⊢
  exact fun hmem => ha (h hmem)

/-- A point that is new is unmet no more. -/
theorem unmet_orderedInsert {points : List α} (hpoint : a ∈ points) (hnew : a ∉ met) :
    unmet points (met.orderedInsert (· ≤ ·) a) < unmet points met := by
  unfold unmet
  have hsub : (points.filter fun b => b ∉ met.orderedInsert (· ≤ ·) a) =
      (points.filter fun b => b ∉ met).filter fun b => b ≠ a := by
    rw [List.filter_filter]
    refine List.filter_congr fun b _ => ?_
    simp [List.mem_orderedInsert, not_or]
  rw [hsub]
  refine List.length_filter_lt_length_iff_exists.mpr ⟨a, ?_, by simp⟩
  exact List.mem_filter.mpr ⟨hpoint, by simpa using hnew⟩

/-- What is behind the points that are new has been met. -/
def ClosedFrom (next : α → List α) (met met' : List α) : Prop :=
  ∀ a ∈ met', a ∉ met → ∀ b ∈ next a, b ∈ met'

theorem closed_foldl {points : List α} {step : List α → α → List α}
    (hsub : ∀ met a, met ⊆ step met a) (hmem : ∀ met a, a ∈ step met a)
    (hstep : ∀ met a, unmet points met ≤ levels → ClosedFrom next met (step met a)) :
    ∀ (behind met : List α), unmet points met ≤ levels →
      ClosedFrom next met (behind.foldl step met) ∧ ∀ b ∈ behind, b ∈ behind.foldl step met
  | [], _, _ => ⟨fun _ ha hnew => absurd ha hnew, List.forall_mem_nil _⟩
  | a :: behind, met, hlevels => by
      have hfirst := hstep met a hlevels
      obtain ⟨hrest, hall⟩ := closed_foldl hsub hmem hstep behind (step met a)
        ((unmet_mono (hsub met a)).trans hlevels)
      have hkeep := subset_foldl hsub behind (step met a)
      refine ⟨fun b hb hnew c hc => ?_, List.forall_mem_cons.mpr ⟨hkeep (hmem met a), hall⟩⟩
      by_cases hbetween : b ∈ step met a
      · exact hkeep (hfirst b hbetween hnew c hc)
      · exact hrest b hb hbetween c hc

/-- **A search with enough levels leaves nothing behind what it has met.** -/
theorem closed_visit {points : List α} (hpoints : ∀ a, next a ≠ [] → a ∈ points) :
    ∀ (levels : Nat) (met : List α) (a : α), unmet points met ≤ levels →
      ClosedFrom next met (visit next levels met a)
  | 0, met, a, hlevels => by
      rw [visit]
      split_ifs with hmem
      · exact fun b hb hnew => absurd hb hnew
      · -- no point leads on that has not been met
        intro b hb hnew c hc
        have hb : b = a := ((List.mem_orderedInsert _).mp hb).resolve_right hnew
        subst hb
        have hunmet := unmet_orderedInsert (hpoints b (List.ne_nil_of_mem hc)) hmem
        omega
  | levels + 1, met, a, hlevels => by
      rw [visit]
      split_ifs with hmem
      · exact fun b hb hnew => absurd hb hnew
      · cases hnext : next a with
        | nil =>
            intro b hb hnew c hc
            have hb : b = a := ((List.mem_orderedInsert _).mp hb).resolve_right hnew
            subst hb
            rw [hnext] at hc
            cases hc
        | cons c behind =>
            have hunmet := unmet_orderedInsert (hpoints a (by rw [hnext]; exact List.cons_ne_nil _ _)) hmem
            rw [← hnext]
            obtain ⟨hclosed, hall⟩ := closed_foldl (subset_visit levels) (mem_visit levels)
              (closed_visit hpoints levels) (next a) (met.orderedInsert (· ≤ ·) a) (by omega)
            intro b hb hnew c hc
            by_cases hba : b = a
            · subst hba
              exact hall c hc
            · exact hclosed b hb (fun hin => ((List.mem_orderedInsert _).mp hin).elim hba hnew) c hc

omit [LinearOrder α] in
/-- What is closed holds all that can be reached from it. -/
theorem mem_of_reach (hclosed : ClosedFrom next [] met) (ha : a ∈ met)
    (h : Relation.ReflTransGen (fun a b => b ∈ next a) a b) : b ∈ met := by
  induction h with
  | refl => exact ha
  | tail _ hstep ih => exact hclosed _ ih (List.not_mem_nil) _ hstep

/-- **With enough levels a search from some points meets exactly what can be reached.** -/
theorem mem_foldl_visit {points : List α} (hpoints : ∀ a, next a ≠ [] → a ∈ points)
    (hlevels : points.length ≤ levels) (start : List α) :
    b ∈ start.foldl (visit next levels) [] ↔
      ∃ a ∈ start, Relation.ReflTransGen (fun a b => b ∈ next a) a b := by
  have hunmet : unmet points [] ≤ levels := by
    have hle : unmet points [] ≤ points.length := List.length_filter_le _ _
    exact hle.trans hlevels
  obtain ⟨hclosed, hall⟩ := closed_foldl (subset_visit levels) (mem_visit levels)
    (closed_visit hpoints levels) start [] hunmet
  constructor
  · intro hb
    rcases reach_foldl (reach_visit levels) start [] b hb with hb | hreach
    · cases hb
    · exact hreach
  · rintro ⟨a, ha, hreach⟩
    exact mem_of_reach hclosed (hall a ha) hreach

end Hermas.DepthFirst
