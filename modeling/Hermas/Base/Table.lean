import Mathlib.Data.Fintype.EquivFin
import Mathlib.Data.List.FinRange

/-!
# Tables of a fixed size

The daemon allocates nothing: every collection is an array of a fixed number of
slots that is searched from the front for the first slot with some property. A
table is a function from the slot index, and the two facts every user needs are
what the search found and what its failure means.
-/

namespace Hermas

variable {n : Nat}

/-- The first index with a property. -/
def firstIndex (p : Fin n → Bool) : Option (Fin n) := (List.finRange n).find? p

theorem firstIndex_some {p : Fin n → Bool} {i : Fin n} (h : firstIndex p = some i) : p i = true :=
  List.find?_some h

theorem firstIndex_none {p : Fin n → Bool} : firstIndex p = none ↔ ∀ i, p i = false := by
  simp [firstIndex, List.find?_eq_none]

theorem firstIndex_isSome {p : Fin n → Bool} {i : Fin n} (h : p i = true) :
    ∃ j, firstIndex p = some j := by
  cases hf : firstIndex p with
  | none => rw [firstIndex_none.mp hf i] at h; exact Bool.noConfusion h
  | some j => exact ⟨j, rfl⟩

/-- A property that holds of one index only is found there. -/
theorem firstIndex_unique {p : Fin n → Bool} {i : Fin n} (h : p i = true)
    (hu : ∀ j, p j = true → j = i) : firstIndex p = some i := by
  obtain ⟨j, hj⟩ := firstIndex_isSome h
  rw [hj, hu j (firstIndex_some hj)]

theorem firstIndex_congr {p q : Fin n → Bool} (h : ∀ i, p i = q i) :
    firstIndex p = firstIndex q := by
  rw [funext h]

/--
A table has a free slot as long as what is in use maps injectively into some,
but not all, of another table's slots.
-/
theorem exists_unused_of_injOn {used other : Fin n → Prop} (f : ∀ i, used i → Fin n)
    (hf : ∀ i hi, other (f i hi)) (hinj : ∀ i j hi hj, f i hi = f j hj → i = j)
    (hfree : ∃ k, ¬ other k) : ∃ i, ¬ used i := by
  classical
  by_contra hall
  have hall : ∀ i, used i := by simpa using hall
  obtain ⟨k, hk⟩ := hfree
  have hi : Function.Injective (fun i => f i (hall i)) := fun i j h => hinj i j _ _ h
  obtain ⟨i, hi⟩ := (Finite.injective_iff_surjective.mp hi) k
  exact hk (hi ▸ hf i (hall i))

end Hermas
