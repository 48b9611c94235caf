import Mathlib.Data.List.Basic

/-!
# Queues that are worked off

A loop takes the first task off a queue, does it and puts what it leads to at the end,
until nothing is left. `Drains` is such a loop without a bound on its rounds: it relates
the queue and the state that it starts with to the state behind the last round. A task
may fail, and a loop that comes to one relates to nothing. A measure that falls in every
round shows that the loop ends.
-/

namespace Hermas

variable {τ σ : Type} {work : τ → σ → Option (List τ × σ)} {rest : List τ} {s t u : σ}

/-- The queue is worked off in so many rounds. -/
inductive Drains (work : τ → σ → Option (List τ × σ)) : Nat → List τ → σ → σ → Prop
  | done (s : σ) : Drains work 0 [] s s
  | round {task : τ} {onward rest : List τ} {rounds : Nat} {s t u : σ}
      (head : work task s = some (onward, t)) (tail : Drains work rounds (rest ++ onward) t u) :
      Drains work (rounds + 1) (task :: rest) s u

namespace Drains

/-- There is only one way to work a queue off. -/
theorem unique {n m : Nat} {queue : List τ} (h : Drains work n queue s t)
    (h' : Drains work m queue s u) : n = m ∧ t = u := by
  induction h generalizing m with
  | done => cases h'; exact ⟨rfl, rfl⟩
  | round head _ ih =>
      cases h' with
      | round head' tail' =>
          rw [head] at head'
          obtain ⟨rfl, rfl⟩ := Prod.mk.inj (Option.some.inj head')
          obtain ⟨rfl, rfl⟩ := ih tail'
          exact ⟨rfl, rfl⟩

/-- What holds in front of the loop and is kept by its rounds holds behind it. -/
theorem invariant {I : List τ → σ → Prop}
    (hstep : ∀ {task onward rest} {s t : σ}, I (task :: rest) s → work task s = some (onward, t) →
      I (rest ++ onward) t)
    {n : Nat} {queue : List τ} (h : Drains work n queue s t) (hs : I queue s) : I [] t := by
  induction h with
  | done => exact hs
  | round head _ ih => exact ih (hstep hs head)

end Drains

/-- **A loop ends** if its invariant lets every task be done, and a measure falls with it. -/
theorem drains_of_measure {I : List τ → σ → Prop} (measure : List τ → σ → Nat)
    (hstep : ∀ task rest s, I (task :: rest) s → ∃ onward t, work task s = some (onward, t) ∧
      I (rest ++ onward) t ∧ measure (rest ++ onward) t < measure (task :: rest) s) :
    ∀ (bound : Nat) (queue : List τ) (s : σ), I queue s → measure queue s ≤ bound →
      ∃ rounds t, rounds ≤ bound ∧ Drains work rounds queue s t ∧ I [] t
  | _, [], s, hs, _ => ⟨0, s, Nat.zero_le _, .done s, hs⟩
  | 0, task :: rest, s, hs, hbound => by
      obtain ⟨onward, t, -, -, hlt⟩ := hstep task rest s hs
      omega
  | bound + 1, task :: rest, s, hs, hbound => by
      obtain ⟨onward, t, head, ht, hlt⟩ := hstep task rest s hs
      obtain ⟨rounds, u, hrounds, htail, hu⟩ :=
        drains_of_measure measure hstep bound (rest ++ onward) t ht (by omega)
      exact ⟨rounds + 1, u, Nat.succ_le_succ hrounds, .round head htail, hu⟩

end Hermas
