import Mathlib.Data.List.Basic

/-!
# Where words end

A text can be cut in one way only where a word is followed by a sign that is in no word, and
where the words are a few of which none begins another.
-/

namespace Hermas

variable {α : Type} {xs ys rest rest' : List α}

/-- A text that goes on with a sign that is in no word. -/
def WordEnds (word : α → Prop) : List α → Prop
  | [] => False
  | sign :: _ => ¬ word sign

/-- **A word ends where the first other sign is.** -/
theorem word_append_inj {word : α → Prop} (hxs : ∀ x ∈ xs, word x) (hys : ∀ y ∈ ys, word y)
    (hrest : WordEnds word rest) (hrest' : WordEnds word rest') (h : xs ++ rest = ys ++ rest') :
    xs = ys ∧ rest = rest' := by
  induction xs generalizing ys with
  | nil =>
      cases ys with
      | nil => exact ⟨rfl, h⟩
      | cons y ys =>
          rw [List.nil_append] at h
          rw [h] at hrest
          exact absurd (hys y List.mem_cons_self) hrest
  | cons x xs ih =>
      cases ys with
      | nil =>
          rw [List.nil_append] at h
          rw [← h] at hrest'
          exact absurd (hxs x List.mem_cons_self) hrest'
      | cons y ys =>
          obtain ⟨rfl, htail⟩ := List.cons.inj h
          obtain ⟨rfl, hrests⟩ := ih (List.forall_mem_cons.mp hxs).2 (List.forall_mem_cons.mp hys).2 htail
          exact ⟨rfl, hrests⟩

/-- **Of words of which none begins another only one stands in front.** -/
theorem prefix_append_inj {words : List (List α)}
    (hfree : ∀ w ∈ words, ∀ w' ∈ words, w <+: w' → w = w') (hxs : xs ∈ words) (hys : ys ∈ words)
    (h : xs ++ rest = ys ++ rest') : xs = ys ∧ rest = rest' := by
  have heq : xs = ys := by
    rcases List.prefix_or_prefix_of_prefix (List.prefix_append xs rest)
        (h ▸ List.prefix_append ys rest') with hprefix | hprefix
    · exact hfree xs hxs ys hys hprefix
    · exact (hfree ys hys xs hxs hprefix).symm
  subst heq
  exact ⟨rfl, List.append_cancel_left h⟩

end Hermas
