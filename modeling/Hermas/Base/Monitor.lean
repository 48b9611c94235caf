import Mathlib.Data.List.Basic

/-!
# Monitors

A monitor watches the calls that several parties make and knows the stage that each of
them is in. It allows a call at some stages only. The calls are on record with the newest
first, and a party's stage follows from its own calls, whatever the others do in between.
-/

namespace Hermas

/-- The stage a party begins in, and the stage behind a call that is allowed. -/
structure Monitor (σ α : Type) where
  start : σ
  next : σ → α → Option σ

namespace Monitor

variable {σ α κ : Type} (monitor : Monitor σ α)

/-- The stage behind the calls of one party. -/
def after : List α → Option σ
  | [] => some monitor.start
  | call :: earlier => (after earlier).bind fun stage => monitor.next stage call

variable [DecidableEq κ] (party : α → κ) (k : κ)

/-- The stage of a party behind the calls of all. -/
def stage (calls : List α) : Option σ := monitor.after (calls.filter fun call => party call = k)

variable {monitor party k}

theorem stage_nil : monitor.stage party k [] = some monitor.start := rfl

theorem stage_cons_of_ne {call : α} {earlier : List α} (h : party call ≠ k) :
    monitor.stage party k (call :: earlier) = monitor.stage party k earlier := by
  rw [stage, List.filter_cons_of_neg (by simpa using h), stage]

theorem stage_cons_self {call : α} {earlier : List α} (h : party call = k) :
    monitor.stage party k (call :: earlier) =
      (monitor.stage party k earlier).bind fun before => monitor.next before call := by
  rw [stage, List.filter_cons_of_pos (by simpa using h), after, stage]

/-- A call that is allowed brings its party to the next stage. -/
theorem stage_next {call : α} {earlier : List α} {before behind : σ} (h : party call = k)
    (hbefore : monitor.stage party k earlier = some before)
    (hnext : monitor.next before call = some behind) :
    monitor.stage party k (call :: earlier) = some behind := by
  rw [stage_cons_self h, hbefore, Option.bind_some, hnext]

/-- A party that is at a stage now was at one before. -/
theorem stage_earlier {earlier : List α} : ∀ {later : List α} {last : σ},
    monitor.stage party k (later ++ earlier) = some last →
      ∃ before, monitor.stage party k earlier = some before := by
  intro later
  induction later with
  | nil => exact fun h => ⟨_, h⟩
  | cons newest later ih =>
      intro last h
      by_cases hnewest : party newest = k
      · rw [List.cons_append, stage_cons_self hnewest, Option.bind_eq_some_iff] at h
        obtain ⟨before, hbefore, -⟩ := h
        exact ih hbefore
      · rw [List.cons_append, stage_cons_of_ne hnewest] at h
        exact ih h

/-- A call on record was allowed at the stage that its party was in. -/
theorem allowed {call : α} {later earlier : List α} {last : σ} (hparty : party call = k)
    (h : monitor.stage party k (later ++ call :: earlier) = some last) :
    ∃ before behind, monitor.stage party k earlier = some before ∧
      monitor.next before call = some behind := by
  obtain ⟨behind, hbehind⟩ := stage_earlier h
  rw [stage_cons_self hparty, Option.bind_eq_some_iff] at hbehind
  obtain ⟨before, hbefore, hnext⟩ := hbehind
  exact ⟨before, behind, hbefore, hnext⟩

end Monitor

end Hermas
