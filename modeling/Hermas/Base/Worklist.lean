import Hermas.Base.Status

/-!
# Work lists

A call that goes on into further calls can be read as a list of tasks: the first task is
done in one step, and what it leads to is put in front of the others. A task that cannot
be done stops the list and leaves something behind. `Follows` says that a call does what a list of tasks does, and it
is closed under sequencing and loops, so that a recursive interpreter is compared with
its steps one equation at a time.
-/

namespace Hermas

/-- What a task leads to; nothing if it cannot be done. -/
abbrev Worklist (τ σ : Type) := τ → σ → Option (List τ × σ)

namespace Worklist

variable {τ σ : Type}

/-- Some tasks from the front of the list have been done. -/
inductive Runs (advance : Worklist τ σ) : List τ → σ → List τ → σ → Prop
  | refl (tasks : List τ) (s : σ) : Runs advance tasks s tasks s
  | step {task : τ} {onward rest tasks : List τ} {s t u : σ}
      (head : advance task s = some (onward, t)) (tail : Runs advance (onward ++ rest) t tasks u) :
      Runs advance (task :: rest) s tasks u

/-- Every task that comes up is met by the condition. -/
def Meets (advance : Worklist τ σ) (P : τ → σ → Prop) (tasks : List τ) (s : σ) : Prop :=
  ∀ task rest t, Runs advance tasks s (task :: rest) t → P task t

variable {advance : Worklist τ σ} {tasks tasks' tasks'' : List τ} {s t u : σ}

theorem Runs.trans (h : Runs advance tasks s tasks' t) (h' : Runs advance tasks' t tasks'' u) :
    Runs advance tasks s tasks'' u := by
  induction h with
  | refl => exact h'
  | step head _ ih => exact .step head (ih h')

/-- What comes behind the tasks does not matter to them. -/
theorem Runs.append (h : Runs advance tasks s tasks' t) (behind : List τ) :
    Runs advance (tasks ++ behind) s (tasks' ++ behind) t := by
  induction h with
  | refl => exact .refl _ _
  | step head _ ih =>
      refine .step head ?_
      rw [List.append_eq, ← List.append_assoc]
      exact ih

/-- A task that is done at once. -/
theorem Runs.single {task : τ} {onward : List τ} (h : advance task s = some (onward, t)) :
    Runs advance [task] s onward t := by
  refine .step h ?_
  rw [List.append_nil]
  exact .refl _ _

/-- What holds in front of a list and is kept by doing its first task holds all along. -/
theorem Runs.invariant {I : List τ → σ → Prop}
    (hstep : ∀ {task : τ} {onward rest : List τ} {s t : σ}, I (task :: rest) s →
      advance task s = some (onward, t) → I (onward ++ rest) t)
    (h : Runs advance tasks s tasks' t) (hs : I tasks s) : I tasks' t := by
  induction h with
  | refl => exact hs
  | step head _ ih => exact ih (hstep hs head)

theorem Meets.head {P : τ → σ → Prop} {task : τ} {rest : List τ}
    (h : Meets advance P (task :: rest) s) : P task s := h task rest s (.refl _ _)

theorem Meets.mono {P Q : τ → σ → Prop} (h : Meets advance P tasks s)
    (hPQ : ∀ task t, P task t → Q task t) : Meets advance Q tasks s :=
  fun task rest t hruns => hPQ task t (h task rest t hruns)

theorem Meets.runs {P : τ → σ → Prop} (h : Meets advance P tasks s)
    (hruns : Runs advance tasks s tasks' t) : Meets advance P tasks' t :=
  fun task rest u h' => h task rest u (hruns.trans h')

/-- The same for tasks that all meet a condition. -/
theorem Meets.invariant {P : τ → σ → Prop} {I : List τ → σ → Prop}
    (hstep : ∀ {task : τ} {onward rest : List τ} {s t : σ}, I (task :: rest) s → P task s →
      advance task s = some (onward, t) → I (onward ++ rest) t)
    (hmeets : Meets advance P tasks s) (hs : I tasks s) (h : Runs advance tasks s tasks' t) :
    I tasks' t := by
  refine (h.invariant (I := fun tasks s => Meets advance P tasks s ∧ I tasks s) ?_ ⟨hmeets, hs⟩).2
  rintro task onward rest s t ⟨hmeets, hs⟩ head
  exact ⟨hmeets.runs (.step head (.refl _ _)), hstep hs hmeets.head head⟩

/-- Tasks that get done were never stopped. -/
theorem Runs.meets (h : Runs advance tasks s [] t) :
    Meets advance (fun task t => (advance task t).isSome) tasks s := by
  generalize hnil : ([] : List τ) = done at h
  induction h with
  | refl =>
      subst hnil
      intro task rest u hruns
      cases hruns
  | step head _ ih =>
      intro task rest u hruns
      cases hruns with
      | refl => simp [head]
      | step head' tail =>
          rw [head] at head'
          obtain ⟨rfl, rfl⟩ := Prod.mk.inj (Option.some.inj head')
          exact ih hnil task rest u tail

/-! ## Calls and their tasks -/

section Calls

variable {ρ : Type} [Status ρ]

/-- The tasks come to one that cannot be done, and `t` is what it leaves behind. -/
def Stops (advance : Worklist τ σ) (left : τ → σ → σ) (tasks : List τ) (s t : σ) : Prop :=
  ∃ task rest u, Runs advance tasks s (task :: rest) u ∧ advance task u = none ∧ t = left task u

/-- The call succeeds as the tasks get done, and fails when they stop. -/
def Follows (advance : Worklist τ σ) (left : τ → σ → σ) (c : Call ρ σ) (tasks : List τ) (s : σ) :
    Prop :=
  ∀ r t, c = some (r, t) →
    (r = Status.ok ∧ Runs advance tasks s [] t) ∨
      (r ≠ Status.ok ∧ Stops advance left tasks s t)

variable {left : τ → σ → σ}

omit [Status ρ] in
theorem Stops.append (h : Stops advance left tasks s t) (behind : List τ) :
    Stops advance left (tasks ++ behind) s t := by
  obtain ⟨task, rest, u, hruns, hnone, hleft⟩ := h
  exact ⟨task, rest ++ behind, u, hruns.append behind, hnone, hleft⟩

theorem Stops.of_runs (hruns : Runs advance tasks s tasks' t) (h : Stops advance left tasks' t u) :
    Stops advance left tasks s u := by
  obtain ⟨task, rest, v, hruns', hnone, hleft⟩ := h
  exact ⟨task, rest, v, hruns.trans hruns', hnone, hleft⟩

variable {c : Call ρ σ} {task : τ} {onward : List τ}

theorem follows_none : Follows advance left (none : Call ρ σ) tasks s := by
  intro r t h
  cases h

/-- A call that returns at once has done nothing. -/
theorem follows_done : Follows advance left (Call.done s : Call ρ σ) [] s := by
  intro r t h
  obtain ⟨rfl, rfl⟩ := Prod.mk.inj (Option.some.inj h)
  exact .inl ⟨rfl, .refl _ _⟩

/-- A bad status is reported where the first task cannot be done. -/
theorem follows_report {r : ρ} (hr : r ≠ Status.ok) (hnone : advance task s = none)
    (rest : List τ) (hleft : t = left task s) :
    Follows advance left (Call.report r t) (task :: rest) s := by
  intro r' u h
  obtain ⟨rfl, rfl⟩ := Prod.mk.inj (Option.some.inj h)
  exact .inr ⟨hr, task, rest, s, .refl _ _, hnone, hleft⟩

/-- The first task is done, and the call goes on with what it leads to. -/
theorem Follows.step (head : advance task s = some (onward, t))
    (h : Follows advance left c onward t) : Follows advance left c [task] s := by
  intro r u hc
  rcases h r u hc with ⟨hr, hruns⟩ | ⟨hr, hstops⟩
  · exact .inl ⟨hr, (Runs.single head).trans hruns⟩
  · exact .inr ⟨hr, hstops.of_runs (Runs.single head)⟩

variable [DecidableEq ρ]

/-- One call behind the other follows the tasks of both. -/
theorem Follows.andThen {k : σ → Call ρ σ} (h : Follows advance left c tasks s)
    (hk : ∀ t, Follows advance left (k t) tasks' t) :
    Follows advance left (c.andThen k) (tasks ++ tasks') s := by
  intro r u hc
  cases hcall : c with
  | none => rw [hcall] at hc; cases hc
  | some p =>
      obtain ⟨r₁, t⟩ := p
      rw [hcall] at hc
      simp only [Call.andThen] at hc
      rcases h r₁ t hcall with ⟨rfl, hruns⟩ | ⟨hr₁, hstops⟩
      · rw [if_pos rfl] at hc
        have hfirst : Runs advance (tasks ++ tasks') s tasks' t := by
          simpa using hruns.append tasks'
        rcases hk t r u hc with ⟨hr, hruns'⟩ | ⟨hr, hstops⟩
        · exact .inl ⟨hr, hfirst.trans hruns'⟩
        · exact .inr ⟨hr, hstops.of_runs hfirst⟩
      · rw [if_neg hr₁] at hc
        obtain ⟨rfl, rfl⟩ := Prod.mk.inj (Option.some.inj hc)
        exact .inr ⟨hr₁, hstops.append tasks'⟩

/-- A loop follows the tasks of its rounds. -/
theorem follows_each {ι : Type} {body : ι → σ → Call ρ σ} {tasksOf : ι → List τ} (is : List ι)
    (hbody : ∀ i ∈ is, ∀ s, Follows advance left (body i s) (tasksOf i) s) :
    ∀ s, Follows advance left (Call.each body is s) (is.flatMap tasksOf) s := by
  induction is with
  | nil => intro s; exact follows_done
  | cons i is ih =>
      intro s
      exact (hbody i (by simp) s).andThen fun t => ih (fun j hj => hbody j (by simp [hj])) t

omit [DecidableEq ρ] in
/-- A call whose tasks can all be done succeeds. -/
theorem Follows.ok (h : Follows advance left c tasks s)
    (hmeets : Meets advance (fun task t => (advance task t).isSome) tasks s) {r : ρ}
    (hc : c = some (r, t)) : r = Status.ok ∧ Runs advance tasks s [] t := by
  rcases h r t hc with hok | ⟨-, task, rest, u, hruns, hnone, -⟩
  · exact hok
  · have hsome : (advance task u).isSome := hmeets task rest u hruns
    rw [hnone] at hsome
    cases hsome

omit [DecidableEq ρ] in
/-- What the tasks keep, done or not, holds when the call returns. -/
theorem Follows.keeps {P : τ → σ → Prop} {I : List τ → σ → Prop} {J : σ → Prop}
    (h : Follows advance left c tasks s)
    (hstep : ∀ {task : τ} {onward rest : List τ} {s t : σ}, I (task :: rest) s → P task s →
      advance task s = some (onward, t) → I (onward ++ rest) t)
    (hdone : ∀ t, I [] t → J t)
    (hleft : ∀ task rest t, I (task :: rest) t → P task t → advance task t = none →
      J (left task t))
    (hmeets : Meets advance P tasks s) (hs : I tasks s) {r : ρ} (hc : c = some (r, t)) : J t := by
  rcases h r t hc with ⟨-, hruns⟩ | ⟨-, task, rest, u, hruns, hnone, rfl⟩
  · exact hdone t (hmeets.invariant hstep hs hruns)
  · exact hleft task rest u (hmeets.invariant hstep hs hruns) (hmeets task rest u hruns) hnone

omit [DecidableEq ρ] in
/-- A call that returns succeeds exactly if its tasks can all be done. -/
theorem Follows.ok_iff (h : Follows advance left c tasks s) {r : ρ} (hc : c = some (r, t)) :
    r = Status.ok ↔ Meets advance (fun task t => (advance task t).isSome) tasks s := by
  refine ⟨fun hr => ?_, fun hmeets => (h.ok hmeets hc).1⟩
  rcases h r t hc with ⟨-, hruns⟩ | ⟨hbad, -⟩
  · exact hruns.meets
  · exact absurd hr hbad

end Calls

end Worklist

end Hermas
