import Hermas.Base.Reach
import Mathlib.Logic.Function.Basic

/-!
# Programs that share a state

A program makes calls and goes on with their answers. Several programs work on one state:
between two calls of one of them any of the others may have made theirs, a program may
be killed at any call, all of them at one time when the machine stops, and the outcome of a
program, if it has one, is put on record.

Proofs about one program are by rely and guarantee. `Secure` says that a program keeps
the invariant and its guarantee whatever the others do between its calls, as long as
each step of theirs is one it relies on, and that it ends as it should. The rules follow
the program, `Secure.bind` along its sequence. `Commons.Sound.held` puts programs
together: where each one guarantees what the others rely on, every reachable state keeps the
invariant and every outcome on record is still right.
-/

namespace Hermas

/-- A program over calls, each with the type of its answers. -/
inductive Program {Call : Type} (Answer : Call → Type) (α : Type) : Type where
  | done (a : α)
  | call (c : Call) (next : Answer c → Program Answer α)

namespace Program

variable {Call : Type} {Answer : Call → Type} {α β γ σ : Type}

def bind : Program Answer α → (α → Program Answer β) → Program Answer β
  | .done a, f => f a
  | .call c next, f => .call c fun answer => (next answer).bind f

instance : Monad (Program Answer) where
  pure := done
  bind := bind

/-- One call, and its answer. -/
def request (c : Call) : Program Answer (Answer c) := .call c .done

@[simp] theorem pure_bind (a : α) (f : α → Program Answer β) : (pure a >>= f) = f a := rfl

@[simp] theorem done_bind (a : α) (f : α → Program Answer β) :
    ((.done a : Program Answer α) >>= f) = f a := rfl

@[simp] theorem call_bind (c : Call) (next : Answer c → Program Answer α)
    (f : α → Program Answer β) :
    (Program.call c next >>= f) = .call c fun answer => next answer >>= f := rfl

@[simp] theorem request_bind (c : Call) (f : Answer c → Program Answer β) :
    (request c >>= f) = .call c f := rfl

theorem bind_assoc (x : Program Answer α) (f : α → Program Answer β) (g : β → Program Answer γ) :
    x >>= f >>= g = x >>= fun a => f a >>= g := by
  induction x with
  | done a => rfl
  | call c next ih => exact congrArg (Program.call c) (funext ih)

theorem bind_done (x : Program Answer α) : x >>= done = x := by
  induction x with
  | done a => rfl
  | call c next ih => exact congrArg (Program.call c) (funext ih)

instance : LawfulMonad (@Program Call Answer) :=
  LawfulMonad.mk' _ bind_done (fun _ _ => rfl) bind_assoc

/-! ## Alone -/

/-- A program run alone, its calls answered by a handler. -/
def run (handle : (c : Call) → σ → Answer c × σ) : Program Answer α → σ → α × σ
  | .done a, s => (a, s)
  | .call c next, s => (next (handle c s).1).run handle (handle c s).2

section Run

variable {handle : (c : Call) → σ → Answer c × σ}

@[simp] theorem run_done (a : α) (s : σ) :
    (.done a : Program Answer α).run handle s = (a, s) := rfl

@[simp] theorem run_pure (a : α) (s : σ) :
    (pure a : Program Answer α).run handle s = (a, s) := rfl

@[simp] theorem run_call (c : Call) (next : Answer c → Program Answer α) (s : σ) :
    (Program.call c next).run handle s = (next (handle c s).1).run handle (handle c s).2 := rfl

theorem run_bind (x : Program Answer α) (f : α → Program Answer β) (s : σ) :
    (x >>= f).run handle s = (f (x.run handle s).1).run handle (x.run handle s).2 := by
  induction x generalizing s with
  | done a => rfl
  | call c next ih => exact ih _ _

theorem run_map (f : α → β) (x : Program Answer α) (s : σ) :
    (f <$> x).run handle s = (f (x.run handle s).1, (x.run handle s).2) := by
  rw [map_eq_pure_bind, run_bind]
  rfl

section Except

variable {ε : Type} {s s' : σ}

theorem run_try_ok {x : ExceptT ε (Program Answer) α} {f : α → ExceptT ε (Program Answer) β}
    {a : α} (h : Program.run handle x.run s = (.ok a, s')) :
    Program.run handle (x >>= f).run s = Program.run handle (f a).run s' := by
  rw [ExceptT.run_bind, run_bind, h]

theorem run_try_error {x : ExceptT ε (Program Answer) α} {f : α → ExceptT ε (Program Answer) β}
    {e : ε} (h : Program.run handle x.run s = (.error e, s')) :
    Program.run handle (x >>= f).run s = (.error e, s') := by
  rw [ExceptT.run_bind, run_bind, h]
  rfl

theorem run_check_ok {check : Except ε α} {f : α → ExceptT ε (Program Answer) β} {a : α}
    (h : check = .ok a) :
    Program.run handle ((check : ExceptT ε (Program Answer) α) >>= f).run s =
      Program.run handle (f a).run s := by
  rw [h]
  rfl

theorem run_check_error {check : Except ε α} {f : α → ExceptT ε (Program Answer) β} {e : ε}
    (h : check = .error e) :
    Program.run handle ((check : ExceptT ε (Program Answer) α) >>= f).run s = (.error e, s) := by
  rw [h]
  rfl

theorem run_lift_bind {x : Program Answer γ} {f : γ → ExceptT ε (Program Answer) β} {c : γ}
    (h : Program.run handle x s = (c, s')) :
    Program.run handle (ExceptT.lift x >>= f).run s = Program.run handle (f c).run s' := by
  rw [ExceptT.run_bind_lift, run_bind, h]

end Except

end Run

/-! ## Among others -/

/-- What a program holds to: the invariant of the state, what the others may do between its
calls and what it may do itself. -/
structure Terms (σ : Type) where
  inv : σ → Prop
  rely : σ → σ → Prop
  guar : σ → σ → Prop
  rely_refl : ∀ s, rely s s
  rely_trans : ∀ s s' s'', rely s s' → rely s' s'' → rely s s''

/-- What a call may do to the state, and the answers it may give there. -/
abbrev Acts (Answer : Call → Type) (σ : Type) := (c : Call) → σ → Answer c → σ → Prop

/-- From the state, and whatever the others do, each call keeps the terms and the program ends
with `post`. -/
def Secure (acts : Acts Answer σ) (T : Terms σ) (post : α → σ → Prop) :
    Program Answer α → σ → Prop
  | .done a, s => ∀ s', T.rely s s' → T.inv s' → post a s'
  | .call c next, s => ∀ s', T.rely s s' → T.inv s' → ∀ answer s'', acts c s' answer s'' →
      T.guar s' s'' ∧ T.inv s'' ∧ (next answer).Secure acts T post s''

section Secure

variable {acts : Acts Answer σ} {T : Terms σ} {post : α → σ → Prop} {s : σ}

/-- The others may go on. -/
theorem Secure.wait {x : Program Answer α} {s' : σ} (h : x.Secure acts T post s)
    (hrely : T.rely s s') : x.Secure acts T post s' := by
  cases x with
  | done a => exact fun s'' hr => h s'' (T.rely_trans _ _ _ hrely hr)
  | call c next => exact fun s'' hr => h s'' (T.rely_trans _ _ _ hrely hr)

/-- It is enough to look at the states the others may leave. -/
theorem Secure.of_wait {x : Program Answer α}
    (h : ∀ s', T.rely s s' → T.inv s' → x.Secure acts T post s') : x.Secure acts T post s := by
  cases x with
  | done a => exact fun s' hr hi => h s' hr hi s' (T.rely_refl s') hi
  | call c next => exact fun s' hr hi => h s' hr hi s' (T.rely_refl s') hi

theorem Secure.mono {post' : α → σ → Prop} {x : Program Answer α} (h : x.Secure acts T post s)
    (hpost : ∀ a s', T.inv s' → post a s' → post' a s') : x.Secure acts T post' s := by
  induction x generalizing s with
  | done a => exact fun s' hr hi => hpost a s' hi (h s' hr hi)
  | call c next ih =>
      intro s' hr hi answer s'' hacts
      obtain ⟨hg, hi', hnext⟩ := h s' hr hi answer s'' hacts
      exact ⟨hg, hi', ih answer hnext⟩

theorem Secure.bind {post' : β → σ → Prop} {x : Program Answer α} {f : α → Program Answer β}
    (hx : x.Secure acts T post s)
    (hf : ∀ a s', T.inv s' → post a s' → (f a).Secure acts T post' s') :
    (x >>= f).Secure acts T post' s := by
  induction x generalizing s with
  | done a =>
      -- the others may have gone on since `x` ended
      exact Secure.of_wait fun s' hr hi => hf a s' hi (hx s' hr hi)
  | call c next ih =>
      intro s' hr hi answer s'' hacts
      obtain ⟨hg, hi', hnext⟩ := hx s' hr hi answer s'' hacts
      exact ⟨hg, hi', ih answer hnext⟩

/-- An end with what no step of the others undoes. -/
theorem Secure.pure {a : α} (h : ∀ s', T.rely s s' → T.inv s' → post a s') :
    (Pure.pure a : Program Answer α).Secure acts T post s := h

theorem Secure.map {post' : β → σ → Prop} {f : α → β} {x : Program Answer α}
    (h : x.Secure acts T (fun a => post' (f a)) s) : (f <$> x).Secure acts T post' s := by
  induction x generalizing s with
  | done a => exact h
  | call c next ih =>
      intro s' hr hi answer s'' hacts
      obtain ⟨hg, hi', hnext⟩ := h s' hr hi answer s'' hacts
      exact ⟨hg, hi', ih answer hnext⟩

/-- What no step undoes still holds at the end. -/
theorem Secure.frame {P : σ → Prop} {x : Program Answer α} (h : x.Secure acts T post s)
    (hlasts : ∀ s s', P s → T.rely s s' ∨ T.guar s s' → P s') (hP : P s) :
    x.Secure acts T (fun a s => post a s ∧ P s) s := by
  induction x generalizing s with
  | done a => exact fun s' hr hi => ⟨h s' hr hi, hlasts s s' hP (.inl hr)⟩
  | call c next ih =>
      intro s' hr hi answer s'' hacts
      obtain ⟨hg, hi', hnext⟩ := h s' hr hi answer s'' hacts
      exact ⟨hg, hi', ih answer hnext (hlasts s' s'' (hlasts s s' hP (.inl hr)) (.inr hg))⟩

theorem Secure.request_bind {c : Call} {next : Answer c → Program Answer α}
    (h : ∀ s', T.rely s s' → T.inv s' → ∀ answer s'', acts c s' answer s'' →
      T.guar s' s'' ∧ T.inv s'' ∧ (next answer).Secure acts T post s'') :
    (request c >>= next).Secure acts T post s := h

/-- The same of a call that leaves the state as it is. -/
theorem Secure.look {c : Call} {next : Answer c → Program Answer α}
    (hlooks : ∀ s answer s', acts c s answer s' → s' = s) (hguar : ∀ s, T.guar s s)
    (h : ∀ s', T.rely s s' → T.inv s' → ∀ answer, acts c s' answer s' →
      (next answer).Secure acts T post s') :
    (request c >>= next).Secure acts T post s := by
  intro s' hr hi answer s'' hacts
  obtain rfl := hlooks s' answer s'' hacts
  exact ⟨hguar s'', hi, h s'' hr hi answer hacts⟩

/-- Such a call at the end. -/
theorem Secure.last {c : Call} {post : Answer c → σ → Prop}
    (hlooks : ∀ s answer s', acts c s answer s' → s' = s) (hguar : ∀ s, T.guar s s)
    (h : ∀ s', T.rely s s' → T.inv s' → ∀ answer, acts c s' answer s' →
      ∀ s'', T.rely s' s'' → T.inv s'' → post answer s'') :
    (request c).Secure acts T post s := by
  intro s' hr hi answer s'' hacts
  obtain rfl := hlooks s' answer s'' hacts
  exact ⟨hguar s'', hi, h s'' hr hi answer hacts⟩

end Secure

/-! ### Programs that may stop with an error -/

section Safe

variable {ε : Type}

/-- Ends well with `good`, or stops with an error that is `bad`. -/
def Ends (good : α → σ → Prop) (bad : ε → Prop) : Except ε α → σ → Prop
  | .ok a, s => good a s
  | .error e, _ => bad e

def Safe (acts : Acts Answer σ) (T : Terms σ) (good : α → σ → Prop) (bad : ε → Prop)
    (x : ExceptT ε (Program Answer) α) (s : σ) : Prop :=
  x.run.Secure acts T (Ends good bad) s

variable {acts : Acts Answer σ} {T : Terms σ} {good : α → σ → Prop} {bad : ε → Prop} {s : σ}

theorem Safe.bind {good' : β → σ → Prop} {x : ExceptT ε (Program Answer) α}
    {f : α → ExceptT ε (Program Answer) β} (hx : Safe acts T good bad x s)
    (hf : ∀ a s', T.inv s' → good a s' → Safe acts T good' bad (f a) s') :
    Safe acts T good' bad (x >>= f) s := by
  refine Secure.bind hx fun result s' hi hend => ?_
  cases result with
  | ok a => exact hf a s' hi hend
  | error e => exact fun _ _ _ => hend

theorem Safe.pure {a : α} (h : ∀ s', T.rely s s' → T.inv s' → good a s') :
    Safe acts T good bad (Pure.pure a) s := h

theorem Safe.throw {e : ε} (h : bad e) :
    Safe acts T good bad (MonadExcept.throw e : ExceptT ε (Program Answer) α) s :=
  fun _ _ _ => h

/-- A check that calls nothing. -/
theorem Safe.check_bind {good' : β → σ → Prop} {check : Except ε α}
    {f : α → ExceptT ε (Program Answer) β} (hbad : ∀ e, check = .error e → bad e)
    (hf : ∀ a, check = .ok a → Safe acts T good' bad (f a) s) :
    Safe acts T good' bad ((check : ExceptT ε (Program Answer) α) >>= f) s := by
  cases check with
  | ok a => exact hf a rfl
  | error e => exact fun _ _ _ => hbad e rfl

/-- The outcome of a program, whatever it is. -/
theorem Safe.lift_bind {post : γ → σ → Prop} {x : Program Answer γ}
    {f : γ → ExceptT ε (Program Answer) β} {good' : β → σ → Prop}
    (hx : x.Secure acts T post s)
    (hf : ∀ c s', T.inv s' → post c s' → Safe acts T good' bad (f c) s') :
    Safe acts T good' bad (ExceptT.lift x >>= f) s := by
  rw [Safe, ExceptT.run_bind_lift]
  exact Secure.bind hx hf

theorem Safe.mono {good' : α → σ → Prop} {bad' : ε → Prop} {x : ExceptT ε (Program Answer) α}
    (h : Safe acts T good bad x s) (hgood : ∀ a s', T.inv s' → good a s' → good' a s')
    (hbad : ∀ e, bad e → bad' e) : Safe acts T good' bad' x s := by
  refine Secure.mono h fun result s' hi hend => ?_
  cases result with
  | ok a => exact hgood a s' hi hend
  | error e => exact hbad e hend

theorem Safe.frame {P : σ → Prop} {x : ExceptT ε (Program Answer) α}
    (h : Safe acts T good bad x s)
    (hlasts : ∀ s s', P s → T.rely s s' ∨ T.guar s s' → P s') (hP : P s) :
    Safe acts T (fun a s => good a s ∧ P s) bad x s := by
  refine Secure.mono (Secure.frame h hlasts hP) fun result s' _ hend => ?_
  cases result with
  | ok a => exact hend
  | error e => exact hend.1

theorem Safe.map {good' : β → σ → Prop} {f : α → β} {x : ExceptT ε (Program Answer) α}
    (h : Safe acts T (fun a => good' (f a)) bad x s) : Safe acts T good' bad (f <$> x) s := by
  rw [Safe, ExceptT.run_map]
  refine Secure.map (Secure.mono h fun result s' _ hend => ?_)
  cases result with
  | ok a => exact hend
  | error e => exact hend

end Safe

/-! ### Until something has happened -/

section Barring

variable {P : σ → Prop}

/-- The terms as long as something has not happened that is never undone; nothing is promised
after it. -/
def Terms.barring (T : Terms σ) (P : σ → Prop) : Terms σ where
  inv s := P s ∨ T.inv s
  rely s s' := P s' ∨ ¬ P s ∧ T.rely s s'
  guar s s' := P s' ∨ ¬ P s ∧ T.guar s s'
  rely_refl s := by
    by_cases hP : P s
    · exact .inl hP
    · exact .inr ⟨hP, T.rely_refl s⟩
  rely_trans s s' s'' h h' := by
    rcases h' with hP'' | ⟨hP', h'⟩
    · exact .inl hP''
    · rcases h with hP | ⟨hP, h⟩
      · exact absurd hP hP'
      · exact .inr ⟨hP, T.rely_trans s s' s'' h h'⟩

variable {acts : Acts Answer σ} {T : Terms σ} {post : α → σ → Prop} {s : σ}

/-- Once it has happened, every program will do. -/
theorem Secure.barred (hacts : ∀ c s answer s', P s → acts c s answer s' → P s')
    (hpost : ∀ a s, P s → post a s) (x : Program Answer α) (hP : P s) :
    x.Secure acts (T.barring P) post s := by
  induction x generalizing s with
  | done a =>
      intro s' hr _
      rcases hr with hP' | ⟨hnot, -⟩
      · exact hpost a s' hP'
      · exact absurd hP hnot
  | call c next ih =>
      intro s' hr _ answer s'' hc
      have hP' : P s' := by
        rcases hr with hP' | ⟨hnot, -⟩
        · exact hP'
        · exact absurd hP hnot
      have hP'' := hacts c s' answer s'' hP' hc
      exact ⟨.inl hP'', .inl hP'', ih answer hP''⟩

/-- A program that is secure anyway. -/
theorem Secure.barring (hacts : ∀ c s answer s', P s → acts c s answer s' → P s')
    {x : Program Answer α} (h : x.Secure acts T post s) :
    x.Secure acts (T.barring P) (fun a s => P s ∨ post a s) s := by
  induction x generalizing s with
  | done a =>
      intro s' hr hi
      rcases hr with hP | ⟨-, hr⟩
      · exact .inl hP
      rcases hi with hP | hi
      · exact .inl hP
      · exact .inr (h s' hr hi)
  | call c next ih =>
      intro s' hr hi answer s'' hc
      have hbarred : P s'' → (next answer).Secure acts (T.barring P) (fun a s => P s ∨ post a s) s'' :=
        Secure.barred hacts (fun _ _ hP => .inl hP) (next answer)
      by_cases hP : P s'
      · have hP'' := hacts c s' answer s'' hP hc
        exact ⟨.inl hP'', .inl hP'', hbarred hP''⟩
      · obtain ⟨hg, hi', hnext⟩ :=
          h s' (hr.resolve_left hP).2 (hi.resolve_left hP) answer s'' hc
        by_cases hP'' : P s''
        · exact ⟨.inl hP'', .inl hP'', hbarred hP''⟩
        · exact ⟨.inr ⟨hP, hg⟩, .inr hi', ih answer hnext⟩

/-- A call before it has happened. -/
theorem Secure.barring_bind (hacts : ∀ c s answer s', P s → acts c s answer s' → P s')
    (hpost : ∀ a s, P s → post a s) {c : Call} {next : Answer c → Program Answer α}
    (h : ∀ s', ¬ P s' → T.rely s s' → T.inv s' → ∀ answer s'', acts c s' answer s'' →
      P s'' ∨ T.guar s' s'' ∧ T.inv s'' ∧ (next answer).Secure acts (T.barring P) post s'') :
    (request c >>= next).Secure acts (T.barring P) post s := by
  intro s' hr hi answer s'' hc
  have hbarred : P s'' → (next answer).Secure acts (T.barring P) post s'' :=
    Secure.barred hacts hpost (next answer)
  by_cases hP : P s'
  · have hP'' := hacts c s' answer s'' hP hc
    exact ⟨.inl hP'', .inl hP'', hbarred hP''⟩
  · rcases h s' hP (hr.resolve_left hP).2 (hi.resolve_left hP) answer s'' hc with
      hP'' | ⟨hg, hi', hnext⟩
    · exact ⟨.inl hP'', .inl hP'', hbarred hP''⟩
    · exact ⟨.inr ⟨hP, hg⟩, .inr hi', hnext⟩

end Barring

end Program

/-! ## Processes -/

open Program

/-- The state that processes share, the program each of them still has to run for its request
and the outcomes so far. -/
structure Commons (Pid Req : Type) {Call : Type} (Answer : Call → Type) (α σ : Type) where
  shared : σ
  live : Pid → Option (Req × Program Answer α)
  ended : List (Req × α)

namespace Commons

variable {Pid Req Call α σ : Type} {Answer : Call → Type} [DecidableEq Pid]

/-- A process starts a request, makes the next call, ends, or is killed; something else happens; the
machine stops. -/
inductive Move (Pid Req : Type)
  | start (p : Pid) (r : Req)
  | call (p : Pid)
  | finish (p : Pid)
  | kill (p : Pid)
  | outside
  | crash
  deriving DecidableEq

/-- The process goes on with this, or is no more. -/
def set (w : Commons Pid Req Answer α σ) (p : Pid) (x : Option (Req × Program Answer α)) :
    Commons Pid Req Answer α σ :=
  { w with live := Function.update w.live p x }

@[simp] theorem set_shared (w : Commons Pid Req Answer α σ) (p : Pid)
    (x : Option (Req × Program Answer α)) : (w.set p x).shared = w.shared := rfl

@[simp] theorem set_ended (w : Commons Pid Req Answer α σ) (p : Pid)
    (x : Option (Req × Program Answer α)) : (w.set p x).ended = w.ended := rfl

@[simp] theorem set_live_self (w : Commons Pid Req Answer α σ) (p : Pid)
    (x : Option (Req × Program Answer α)) : (w.set p x).live p = x :=
  Function.update_self ..

theorem set_live_ne (w : Commons Pid Req Answer α σ) {p q : Pid} (h : q ≠ p)
    (x : Option (Req × Program Answer α)) : (w.set p x).live q = w.live q :=
  Function.update_of_ne h ..

/-- The programs of the requests, what their calls do, and what else may happen to the state. -/
structure Rules (Pid Req : Type) {Call : Type} (Answer : Call → Type) (α σ : Type) where
  Init : σ → Prop
  code : Pid → Req → Program Answer α
  acts : Acts Answer σ
  /-- What a request presumes when it is made. -/
  admits : Req → σ → Prop := fun _ _ => True
  /-- What is taken from a process that is no more. -/
  reap : Pid → σ → σ := fun _ s => s
  outside : σ → σ → Prop := fun _ _ => False
  /-- What is left of the state when the machine stops. -/
  crash : σ → σ → Prop := fun _ _ => False

variable (R : Rules Pid Req Answer α σ)

inductive Step (w : Commons Pid Req Answer α σ) :
    Move Pid Req → Commons Pid Req Answer α σ → Prop
  | start {p : Pid} {r : Req} : w.live p = none → R.admits r w.shared →
      Step w (.start p r) (w.set p (some (r, R.code p r)))
  | call {p : Pid} {r : Req} {c : Call} {next : Answer c → Program Answer α} {answer : Answer c}
      {s : σ} : w.live p = some (r, .call c next) → R.acts c w.shared answer s →
      Step w (.call p) { w.set p (some (r, next answer)) with shared := s }
  | finish {p : Pid} {r : Req} {a : α} : w.live p = some (r, .done a) →
      Step w (.finish p) { w.set p none with
        shared := R.reap p w.shared
        ended := w.ended ++ [(r, a)] }
  | kill {p : Pid} : Step w (.kill p) { w.set p none with shared := R.reap p w.shared }
  | outside {s : σ} : R.outside w.shared s → Step w .outside { w with shared := s }
  | crash {s : σ} : R.crash w.shared s →
      Step w .crash { w with shared := s, live := fun _ => none }

/-- The processes as a system: at the start there is none. -/
def system : System (Commons Pid Req Answer α σ) (Move Pid Req) where
  Init w := R.Init w.shared ∧ (∀ p, w.live p = none) ∧ w.ended = []
  Step := Step R

/-- The terms of each process fit together, and each program is secure under its own. -/
structure Sound (T : Pid → Terms σ) (inv : σ → Prop) (post : Req → α → σ → Prop) : Prop where
  same : ∀ p, (T p).inv = inv
  init : ∀ s, R.Init s → inv s
  secure : ∀ p r s, inv s → R.admits r s → (R.code p r).Secure R.acts (T p) (post r) s
  reap : ∀ p s, inv s → inv (R.reap p s) ∧ (T p).guar s (R.reap p s)
  others : ∀ p q s s', p ≠ q → inv s → inv s' → (T q).guar s s' → (T p).rely s s'
  outside : ∀ s s', inv s → R.outside s s' → inv s' ∧ ∀ p, (T p).rely s s'
  crash : ∀ s s', inv s → R.crash s s' → inv s'
  /-- What an outcome says is not undone, not even by the process that comes next under its id. -/
  lasting : ∀ r a s s', inv s → post r a s →
    ((∃ p, (T p).guar s s') ∨ R.outside s s' ∨ R.crash s s') → post r a s'

variable {R} {T : Pid → Terms σ} {inv : σ → Prop} {post : Req → α → σ → Prop}

/-- What holds of the processes at every moment. -/
structure Held (R : Rules Pid Req Answer α σ) (T : Pid → Terms σ) (inv : σ → Prop)
    (post : Req → α → σ → Prop) (w : Commons Pid Req Answer α σ) : Prop where
  inv : inv w.shared
  live : ∀ p r x, w.live p = some (r, x) → x.Secure R.acts (T p) (post r) w.shared
  ended : ∀ r a, (r, a) ∈ w.ended → post r a w.shared

omit [DecidableEq Pid] in
/-- The state is changed and the other processes wait. -/
theorem Held.others_wait (hS : Sound R T inv post) {w : Commons Pid Req Answer α σ}
    (h : Held R T inv post w) {p : Pid} {s : σ} (hinv : inv s) (hguar : (T p).guar w.shared s) :
    (∀ q r x, q ≠ p → w.live q = some (r, x) → x.Secure R.acts (T q) (post r) s) ∧
      ∀ r a, (r, a) ∈ w.ended → post r a s := by
  constructor
  · intro q r x hq hx
    exact (h.live q r x hx).wait (hS.others q p _ _ hq h.inv hinv hguar)
  · intro r a ha
    exact hS.lasting r a _ _ h.inv (h.ended r a ha) (.inl ⟨p, hguar⟩)

/-- A process is gone, with its outcome or without. -/
theorem Held.gone (hS : Sound R T inv post) {w : Commons Pid Req Answer α σ}
    (h : Held R T inv post w) (p : Pid) {more : List (Req × α)}
    (hmore : ∀ r a, (r, a) ∈ more → post r a w.shared) :
    Held R T inv post { w.set p none with
      shared := R.reap p w.shared
      ended := w.ended ++ more } := by
  obtain ⟨hinv, hguar⟩ := hS.reap p _ h.inv
  have hwait := h.others_wait hS hinv hguar
  refine ⟨hinv, fun q r x hx => ?_, fun r a ha => ?_⟩
  · have hx : (w.set p none).live q = some (r, x) := hx
    by_cases hq : q = p
    · subst hq
      rw [set_live_self] at hx
      cases hx
    · exact hwait.1 q r x hq (set_live_ne w hq _ ▸ hx)
  · rcases List.mem_append.mp ha with ha | ha
    · exact hwait.2 r a ha
    · exact hS.lasting r a _ _ h.inv (hmore r a ha) (.inl ⟨p, hguar⟩)

theorem Held.step (hS : Sound R T inv post) {w w' : Commons Pid Req Answer α σ}
    {m : Move Pid Req} (h : Held R T inv post w) (hstep : Step R w m w') :
    Held R T inv post w' := by
  have hinvs : ∀ p, (T p).inv w.shared := by
    intro p
    rw [hS.same p]
    exact h.inv
  cases hstep with
  | @start p r hnone hadmits =>
      refine ⟨h.inv, fun q r' x hx => ?_, h.ended⟩
      by_cases hq : q = p
      · subst hq
        rw [set_live_self] at hx
        cases hx
        exact hS.secure q _ _ h.inv hadmits
      · exact h.live q r' x (set_live_ne w hq _ ▸ hx)
  | @call p r c next answer s hp hacts =>
      obtain ⟨hguar, hinv, hnext⟩ :=
        h.live p r _ hp _ ((T p).rely_refl _) (hinvs p) answer s hacts
      rw [hS.same p] at hinv
      have hwait := h.others_wait hS hinv hguar
      refine ⟨hinv, fun q r' x hx => ?_, hwait.2⟩
      have hx : (w.set p (some (r, next answer))).live q = some (r', x) := hx
      by_cases hq : q = p
      · subst hq
        rw [set_live_self] at hx
        cases hx
        exact hnext
      · exact hwait.1 q r' x hq (set_live_ne w hq _ ▸ hx)
  | @finish p r a hp =>
      refine h.gone hS p fun r' a' ha => ?_
      rw [List.mem_singleton] at ha
      cases ha
      exact h.live p r _ hp _ ((T p).rely_refl _) (hinvs p)
  | @kill p =>
      have hgone := h.gone hS p fun r a (ha : (r, a) ∈ ([] : List (Req × α))) => nomatch ha
      rw [List.append_nil] at hgone
      exact hgone
  | @outside s hs =>
      obtain ⟨hinv, hrely⟩ := hS.outside _ _ h.inv hs
      exact ⟨hinv, fun q r x hx => (h.live q r x hx).wait (hrely q),
        fun r a ha => hS.lasting r a _ _ h.inv (h.ended r a ha) (.inr (.inl hs))⟩
  | @crash s hs =>
      exact ⟨hS.crash _ _ h.inv hs, nofun,
        fun r a ha => hS.lasting r a _ _ h.inv (h.ended r a ha) (.inr (.inr hs))⟩

/-- **Every reachable state keeps the invariant, and every outcome on record is right.** -/
theorem Sound.held (hS : Sound R T inv post) {w : Commons Pid Req Answer α σ}
    (h : (system R).Reach w) : Held R T inv post w := by
  refine h.invariant ?_ ?_
  · rintro s ⟨hinit, hlive, hended⟩
    refine ⟨hS.init _ hinit, fun p r x hx => ?_, fun r a ha => ?_⟩
    · rw [hlive p] at hx
      cases hx
    · rw [hended] at ha
      cases ha
  · intro s m s' hheld _ hstep
    exact hheld.step hS hstep

/-! ## A process alone -/

/-- What is left of a program is run to its end, if the handler does what calls may do. -/
theorem reach_run {handle : (c : Call) → σ → Answer c × σ}
    (hacts : ∀ c s, R.acts c s (handle c s).1 (handle c s).2)
    {p : Pid} {r : Req} (x : Program Answer α) {w : Commons Pid Req Answer α σ}
    (h : (system R).Reach w) (hp : w.live p = some (r, x)) :
    (system R).Reach { w.set p none with
      shared := R.reap p (x.run handle w.shared).2
      ended := w.ended ++ [(r, (x.run handle w.shared).1)] } := by
  induction x generalizing w with
  | done a => exact h.step trivial (.finish hp)
  | call c next ih =>
      have hstep := h.step trivial (Step.call (R := R) hp (hacts c w.shared))
      have hnext := ih _ hstep (set_live_self w p _)
      simpa only [set, Function.update_idem, run_call] using hnext

/-- **A request run alone is a run of the system.** -/
theorem reach_alone {handle : (c : Call) → σ → Answer c × σ}
    (hacts : ∀ c s, R.acts c s (handle c s).1 (handle c s).2)
    {w : Commons Pid Req Answer α σ} (h : (system R).Reach w) {p : Pid} (hp : w.live p = none)
    {r : Req} (hadmits : R.admits r w.shared) :
    (system R).Reach { w with
      shared := R.reap p ((R.code p r).run handle w.shared).2
      ended := w.ended ++ [(r, ((R.code p r).run handle w.shared).1)] } := by
  have hstart := h.step trivial (Step.start (R := R) hp hadmits)
  have hrun := reach_run hacts (R.code p r) hstart (set_live_self w p _)
  have hlive : Function.update w.live p none = w.live := by
    rw [← hp, Function.update_eq_self]
  simpa only [set, Function.update_idem, hlive] using hrun

end Commons

end Hermas
