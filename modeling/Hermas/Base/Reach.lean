import Mathlib.Init

/-!
# Reachable states

A system has starting states and labelled steps. What is proved of its runs is
proved of every state reachable by steps that all meet a side condition on the
state before the step and the label; the condition that holds always gives the
reachable states as such.
-/

namespace Hermas

/-- A labelled transition system. -/
structure System (σ ι : Type) where
  /-- Where a run may start. -/
  Init : σ → Prop
  /-- What a step with a label may do. -/
  Step : σ → ι → σ → Prop

namespace System

variable {σ ι : Type}

/-- Reachable by steps that all meet the condition. -/
inductive ReachWhere (S : System σ ι) (C : σ → ι → Prop) : σ → Prop
  | init {s : σ} : S.Init s → S.ReachWhere C s
  | step {s s' : σ} {i : ι} : S.ReachWhere C s → C s i → S.Step s i s' → S.ReachWhere C s'

/-- Reachable at all. -/
def Reach (S : System σ ι) : σ → Prop := S.ReachWhere (fun _ _ => True)

variable {S : System σ ι} {C : σ → ι → Prop}

/-- What holds at the start and is kept by every step that meets the condition holds throughout. -/
theorem ReachWhere.invariant {P : σ → Prop} (hinit : ∀ s, S.Init s → P s)
    (hstep : ∀ s i s', P s → C s i → S.Step s i s' → P s') {s : σ} (h : S.ReachWhere C s) :
    P s := by
  induction h with
  | init h => exact hinit _ h
  | step _ hc hs ih => exact hstep _ _ _ ih hc hs

/-- The same with one invariant already known of every state on the way. -/
theorem ReachWhere.invariant_with {P Q : σ → Prop} (hQ : ∀ s, S.ReachWhere C s → Q s)
    (hinit : ∀ s, S.Init s → P s)
    (hstep : ∀ s i s', Q s → P s → C s i → S.Step s i s' → P s') {s : σ}
    (h : S.ReachWhere C s) : P s := by
  induction h with
  | init h => exact hinit _ h
  | step hr hc hs ih => exact hstep _ _ _ (hQ _ hr) ih hc hs

theorem ReachWhere.reach {s : σ} (h : S.ReachWhere C s) : S.Reach s := by
  induction h with
  | init h => exact .init h
  | step _ _ hs ih => exact .step ih trivial hs

/-- The same system started in a given state. -/
def startingAt (S : System σ ι) (s : σ) : System σ ι := { S with Init := (· = s) }

/-- A run goes on where another one ends. -/
theorem ReachWhere.append {s s' : σ} (h : S.ReachWhere C s)
    (h' : (S.startingAt s).ReachWhere C s') : S.ReachWhere C s' := by
  induction h' with
  | init hs => exact hs ▸ h
  | step _ hc hstep ih => exact .step ih hc hstep

end System

end Hermas
