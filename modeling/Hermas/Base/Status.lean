import Mathlib.Init

/-!
# Calls that report a status

The imperative functions of the daemon change a state in place and report a
status; a caller stops at the first status that is not the good one and hands it
on. A call is modelled by the pair of both, and by nothing at all when the bound
on the model's own recursion ran out, so that what is proved of a call is proved
of every bound at which it returns.
-/

namespace Hermas

/-- A type of statuses with the one that means success. -/
class Status (ρ : Type) where
  ok : ρ

/-- What a call leaves behind. -/
abbrev Call (ρ σ : Type) := Option (ρ × σ)

namespace Call

variable {ρ σ ι : Type} [Status ρ]

/-- Return the good status. -/
def done (s : σ) : Call ρ σ := some (Status.ok, s)

/-- Return a status. -/
def report (r : ρ) (s : σ) : Call ρ σ := some (r, s)

variable [DecidableEq ρ]

/-- Continue after the good status, hand on every other one. -/
def andThen (c : Call ρ σ) (k : σ → Call ρ σ) : Call ρ σ :=
  match c with
  | none => none
  | some (r, s) => if r = Status.ok then k s else some (r, s)

/-- A loop that stops at the first bad status. -/
def each (body : ι → σ → Call ρ σ) : List ι → σ → Call ρ σ
  | [], s => done s
  | i :: is, s => (body i s).andThen (each body is)

@[simp] theorem andThen_done (s : σ) (k : σ → Call ρ σ) : (done s).andThen k = k s := by
  simp [done, andThen]

/-- The good status of a sequence is the good status of both parts. -/
theorem andThen_ok {c : Call ρ σ} {k : σ → Call ρ σ} {s : σ}
    (h : c.andThen k = some (Status.ok, s)) :
    ∃ t, c = some (Status.ok, t) ∧ k t = some (Status.ok, s) := by
  cases c with
  | none => cases h
  | some p =>
      obtain ⟨r, t⟩ := p
      simp only [andThen] at h
      split at h
      · rename_i hr
        exact ⟨t, by rw [hr], h⟩
      · rename_i hr
        cases h
        exact absurd rfl hr

/-- A loop that succeeds does what its rounds do. -/
theorem each_rel {body : ι → σ → Call ρ σ} {R : σ → σ → Prop} (hrefl : ∀ s, R s s)
    (htrans : ∀ {s t u}, R s t → R t u → R s u)
    (hbody : ∀ i {s s'}, body i s = some (Status.ok, s') → R s s') :
    ∀ (is : List ι) {s s' : σ}, each body is s = some (Status.ok, s') → R s s'
  | [], s, s', h => by
      obtain ⟨-, rfl⟩ := Prod.mk.inj (Option.some.inj h)
      exact hrefl s
  | i :: is, s, s', h => by
      obtain ⟨t, hfirst, hrest⟩ := andThen_ok h
      exact htrans (hbody i hfirst) (each_rel hrefl htrans hbody is hrest)

/-- A loop that succeeds comes by each of its rounds: what holds up to a round, and what the round
makes of it, if that then stays. -/
theorem each_meets {body : ι → σ → Call ρ σ} {P Q : σ → Prop} {k : ι}
    (hbefore : ∀ i {s s'}, i ≠ k → P s → body i s = some (Status.ok, s') → P s')
    (hround : ∀ {s s'}, P s → body k s = some (Status.ok, s') → Q s')
    (hafter : ∀ i {s s'}, Q s → body i s = some (Status.ok, s') → Q s') :
    ∀ {is : List ι} {s s' : σ}, k ∈ is → P s → each body is s = some (Status.ok, s') → Q s' := by
  have hrest : ∀ (is : List ι) {s s' : σ}, Q s → each body is s = some (Status.ok, s') → Q s' :=
    fun is s s' hs h =>
      each_rel (R := fun s s' => Q s → Q s') (fun _ => id) (fun h h' hs => h' (h hs))
        (fun i _ _ hi hs => hafter i hs hi) is h hs
  intro is
  induction is with
  | nil => intro s s' hk; cases hk
  | cons i is ih =>
      intro s s' hk hs h
      obtain ⟨t, hfirst, hlast⟩ := andThen_ok h
      by_cases hi : i = k
      · subst hi
        exact hrest is (hround hs hfirst) hlast
      · rcases List.mem_cons.mp hk with rfl | hk
        · exact absurd rfl hi
        · exact ih hk (hbefore i hi hs hfirst) hlast

/-- A call that does nothing more is the call. -/
theorem andThen_done_right (c : Call ρ σ) : c.andThen done = c := by
  rcases c with _ | ⟨r, s⟩
  · rfl
  · simp only [andThen]
    split
    · rename_i hr
      rw [hr]
      rfl
    · rfl

theorem andThen_assoc (c : Call ρ σ) (k l : σ → Call ρ σ) :
    (c.andThen k).andThen l = c.andThen fun s => (k s).andThen l := by
  cases c with
  | none => rfl
  | some p =>
      simp only [andThen]
      by_cases hr : p.1 = Status.ok
      · rw [if_pos hr, if_pos hr]
      · rw [if_neg hr, if_neg hr]
        simp only [if_neg hr]

/-- A loop over two lists is one loop behind the other. -/
theorem each_append {body : ι → σ → Call ρ σ} (is js : List ι) (s : σ) :
    each body (is ++ js) s = (each body is s).andThen (each body js) := by
  induction is generalizing s with
  | nil => exact (andThen_done s _).symm
  | cons i is ih =>
      rw [List.cons_append, each, each, andThen_assoc]
      exact congrArg _ (funext ih)

/-- Every way the call can return meets the postcondition. -/
def Ensures (c : Call ρ σ) (Q : ρ → σ → Prop) : Prop := ∀ r s, c = some (r, s) → Q r s

omit [Status ρ] [DecidableEq ρ] in
theorem Ensures.mono {c : Call ρ σ} {Q R : ρ → σ → Prop} (h : c.Ensures Q)
    (hQR : ∀ r s, Q r s → R r s) : c.Ensures R := fun r s hc => hQR r s (h r s hc)

omit [DecidableEq ρ] in
theorem ensures_done {Q : ρ → σ → Prop} {s : σ} (h : Q Status.ok s) : (done s).Ensures Q := by
  intro r s' hc
  obtain ⟨rfl, rfl⟩ := Prod.mk.inj (Option.some.inj hc)
  exact h

omit [Status ρ] [DecidableEq ρ] in
theorem ensures_report {Q : ρ → σ → Prop} {r : ρ} {s : σ} (h : Q r s) :
    (report r s).Ensures Q := by
  intro r' s' hc
  obtain ⟨rfl, rfl⟩ := Prod.mk.inj (Option.some.inj hc)
  exact h

omit [Status ρ] [DecidableEq ρ] in
theorem ensures_none {Q : ρ → σ → Prop} : Ensures (none : Call ρ σ) Q := by
  intro r s hc; exact absurd hc (by simp)

/-- Sequencing: the good status carries `Q` on, a bad one must already meet `R`. -/
theorem ensures_andThen {c : Call ρ σ} {k : σ → Call ρ σ} {Q R : ρ → σ → Prop}
    (hc : c.Ensures Q) (hok : ∀ s, Q Status.ok s → (k s).Ensures R)
    (hbad : ∀ r s, r ≠ Status.ok → Q r s → R r s) : (c.andThen k).Ensures R := by
  intro r s h
  cases hcall : c with
  | none => rw [hcall] at h; exact absurd h (by simp [andThen])
  | some p =>
      obtain ⟨r₁, s₁⟩ := p
      rw [hcall] at h
      simp only [andThen] at h
      have hq : Q r₁ s₁ := hc r₁ s₁ hcall
      split at h
      · rename_i hr
        exact hok s₁ (hr ▸ hq) r s h
      · rename_i hr
        obtain ⟨rfl, rfl⟩ := Prod.mk.inj (Option.some.inj h)
        exact hbad _ _ hr hq

/-- A loop with an invariant about the rounds that are left. -/
theorem ensures_each {body : ι → σ → Call ρ σ} {I : List ι → σ → Prop} {Q : ρ → σ → Prop}
    (hbody : ∀ i is s, I (i :: is) s →
      (body i s).Ensures fun r s' => (r = Status.ok ∧ I is s') ∨ (r ≠ Status.ok ∧ Q r s'))
    (hlast : ∀ s, I [] s → Q Status.ok s) :
    ∀ (is : List ι) (s : σ), I is s → (each body is s).Ensures Q := by
  intro is
  induction is with
  | nil => exact fun s hs => ensures_done (hlast s hs)
  | cons i is ih =>
      intro s hs
      refine ensures_andThen (hbody i is s hs) (fun t ht => ?_) fun r t hr ht => ?_
      · rcases ht with ⟨-, ht⟩ | ⟨hbad, -⟩
        · exact ih t ht
        · exact absurd rfl hbad
      · rcases ht with ⟨hok, -⟩ | ⟨-, ht⟩
        · exact absurd hok hr
        · exact ht

/-! ## Invariants of calls -/

/-- Whatever the call reports, it leaves the invariant behind. -/
def Keeps (I : σ → Prop) (c : Call ρ σ) : Prop := c.Ensures fun _ s => I s

variable {I : σ → Prop}

omit [DecidableEq ρ] in
theorem keeps_done {s : σ} (h : I s) : (done s : Call ρ σ).Keeps I := ensures_done h

omit [Status ρ] [DecidableEq ρ] in
theorem keeps_report {r : ρ} {s : σ} (h : I s) : (report r s).Keeps I := ensures_report h

theorem keeps_andThen {c : Call ρ σ} {k : σ → Call ρ σ} (hc : c.Keeps I)
    (hk : ∀ s, I s → (k s).Keeps I) : (c.andThen k).Keeps I :=
  ensures_andThen hc hk fun _ _ _ h => h

/-- A loop keeps what each round keeps. -/
theorem keeps_each {body : ι → σ → Call ρ σ} (is : List ι)
    (hbody : ∀ i ∈ is, ∀ s, I s → (body i s).Keeps I) :
    ∀ s, I s → (each body is s).Keeps I := by
  induction is with
  | nil => intro s hs; exact keeps_done hs
  | cons i is ih =>
      intro s hs
      exact keeps_andThen (hbody i (by simp) s hs) (ih fun j hj => hbody j (by simp [hj]))

/-- A loop whose rounds all succeed, from wherever they start, succeeds. -/
theorem each_ok {body : ι → σ → Call ρ σ} (is : List ι)
    (hbody : ∀ i ∈ is, ∀ s, (body i s).Ensures fun r _ => r = Status.ok) :
    ∀ s, (each body is s).Ensures fun r _ => r = Status.ok := by
  induction is with
  | nil => intro s; exact ensures_done rfl
  | cons i is ih =>
      intro s
      exact ensures_andThen (hbody i (by simp) s) (fun t _ => ih (fun j hj => hbody j (by simp [hj])) t)
        fun _ _ hr h => absurd h hr

end Call

end Hermas
