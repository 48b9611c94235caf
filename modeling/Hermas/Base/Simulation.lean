import Mathlib.Init

/-!
# Two machines side by side

A machine takes an operation in a state, answers it and goes over into another
state; it may also have no answer. Two machines that are related at the start, and
whose answers agree and states stay related at every operation, give the same
answers for ever.
-/

namespace Hermas

variable {σ τ ι ω : Type}

/-- The answers to operations in a row. -/
def answersTo (step : σ → ι → Option (ω × σ)) : List ι → σ → Option (List ω × σ)
  | [], s => some ([], s)
  | op :: ops, s => do
      let (answer, s) ← step s op
      let (answers, s) ← answersTo step ops s
      return (answer :: answers, s)

/-- Both machines answer an operation alike and stay related. -/
def Simulates (first : σ → ι → Option (ω × σ)) (second : τ → ι → Option (ω × τ))
    (R : σ → τ → Prop) : Prop :=
  ∀ s t op, R s t → ∃ answer s' t',
    first s op = some (answer, s') ∧ second t op = some (answer, t') ∧ R s' t'

/-- **Related machines give the same answers.** -/
theorem Simulates.answersTo {first : σ → ι → Option (ω × σ)} {second : τ → ι → Option (ω × τ)}
    {R : σ → τ → Prop} (h : Simulates first second R) :
    ∀ (ops : List ι) {s : σ} {t : τ}, R s t → ∃ answers s' t',
      answersTo first ops s = some (answers, s') ∧
      Hermas.answersTo second ops t = some (answers, t') ∧ R s' t' := by
  intro ops
  induction ops with
  | nil => intro s t hst; exact ⟨[], s, t, rfl, rfl, hst⟩
  | cons op ops ih =>
      intro s t hst
      obtain ⟨answer, s₁, t₁, hfirst, hsecond, hrel⟩ := h s t op hst
      obtain ⟨answers, s₂, t₂, hfirsts, hseconds, hrels⟩ := ih hrel
      refine ⟨answer :: answers, s₂, t₂, ?_, ?_, hrels⟩
      · simp [Hermas.answersTo, hfirst, hfirsts]
      · simp [Hermas.answersTo, hsecond, hseconds]

end Hermas
