import Mathlib.Data.List.Forall2

/-!
# Checks in order

A loader refuses its input at the first check that fails and names the reason.
Checks are sequenced in `Except`; what a loader that accepted has established is
the conjunction of its checks, and `require_ok`, `bind_ok` and `checkEach_ok`
take it apart again.
-/

namespace Hermas

variable {ε α β γ : Type}

/-- One check with its reason. -/
def require (ok : Prop) [Decidable ok] (reason : ε) : Except ε Unit :=
  if ok then .ok () else .error reason

/-- A check of every element against the elements before it. -/
def checkEach (check : List α → α → Except ε Unit) : List α → List α → Except ε Unit
  | _, [] => .ok ()
  | prior, x :: xs => check prior x >>= fun _ => checkEach check (prior ++ [x]) xs

@[simp] theorem require_ok {ok : Prop} [Decidable ok] {reason : ε} {u : Unit} :
    require ok reason = .ok u ↔ ok := by
  unfold require
  split <;> simp_all

@[simp] theorem bind_ok {x : Except ε α} {f : α → Except ε β} {b : β} :
    x >>= f = .ok b ↔ ∃ a, x = .ok a ∧ f a = .ok b := by
  cases x with
  | error e => simp [bind, Except.bind]
  | ok a => simp [bind, Except.bind]

theorem ok_of_toOption {x : Except ε α} {a : α} (h : x.toOption = some a) : x = .ok a := by
  cases x with
  | error e => cases h
  | ok b => exact congrArg _ (Option.some.inj h)

theorem ok_of_isSome {x : Except ε α} (h : x.toOption.isSome = true) (default : α) :
    x = .ok (x.toOption.getD default) := by
  cases x with
  | error e => cases h
  | ok a => rfl

@[simp] theorem pure_ok {a b : α} : (pure a : Except ε α) = .ok b ↔ a = b := by
  simp [pure, Except.pure]

/-- Every element was checked, each against those before it. -/
theorem checkEach_ok {check : List α → α → Except ε Unit} {xs : List α} :
    ∀ {prior : List α}, checkEach check prior xs = .ok () →
      ∀ before x after, xs = before ++ x :: after → check (prior ++ before) x = .ok () := by
  induction xs with
  | nil => intro _ _ before x after h; simp at h
  | cons y ys ih =>
      intro prior h before x after hxs
      rw [checkEach, bind_ok] at h
      obtain ⟨⟨⟩, hy, hys⟩ := h
      cases before with
      | nil =>
          obtain ⟨rfl, -⟩ := List.cons.inj hxs
          simpa using hy
      | cons b before =>
          obtain ⟨rfl, htail⟩ := List.cons.inj hxs
          simpa using ih hys before x after htail

/-- Elements that each pass their check are accepted. -/
theorem checkEach_of {check : List α → α → Except ε Unit} {xs : List α} :
    ∀ {prior : List α}, (∀ before x after, xs = before ++ x :: after →
      check (prior ++ before) x = .ok ()) → checkEach check prior xs = .ok () := by
  induction xs with
  | nil => intro prior _; rfl
  | cons y ys ih =>
      intro prior h
      rw [checkEach, bind_ok]
      refine ⟨(), by simpa using h [] y ys rfl, ih fun before x after hys => ?_⟩
      have hx := h (y :: before) x after (by rw [hys]; rfl)
      rwa [List.append_assoc]

/-- Every element passed its check. -/
theorem checkEach_mem {check : List α → α → Except ε Unit} {prior xs : List α}
    (h : checkEach check prior xs = .ok ()) {x : α} (hx : x ∈ xs) :
    ∃ before, check (prior ++ before) x = .ok () := by
  obtain ⟨before, after, rfl⟩ := List.append_of_mem hx
  exact ⟨before, checkEach_ok h before x after rfl⟩

/-- What a loop that maps has produced was produced from an element. -/
theorem mapM_ok {f : α → Except ε β} : ∀ {xs : List α} {ys : List β},
    xs.mapM f = .ok ys → ∀ y ∈ ys, ∃ x ∈ xs, f x = .ok y
  | [], ys, h, y, hy => by
      rw [List.mapM_nil, pure_ok] at h
      rw [← h] at hy
      cases hy
  | x :: xs, ys, h, y, hy => by
      simp only [List.mapM_cons, bind_ok, pure_ok] at h
      obtain ⟨z, hz, zs, hzs, rfl⟩ := h
      rcases List.mem_cons.mp hy with rfl | hy
      · exact ⟨x, List.mem_cons_self, hz⟩
      · obtain ⟨w, hw, hwy⟩ := mapM_ok hzs y hy
        exact ⟨w, List.mem_cons_of_mem _ hw, hwy⟩

/-- A loop that maps, where each result names what it was made from. -/
theorem mapM_map {f : α → Except ε β} {name : β → α} (hname : ∀ x y, f x = .ok y → name y = x) :
    ∀ {xs : List α} {ys : List β}, xs.mapM f = .ok ys → ys.map name = xs
  | [], ys, h => by
      rw [List.mapM_nil, pure_ok] at h
      rw [← h]
      rfl
  | x :: xs, ys, h => by
      simp only [List.mapM_cons, bind_ok, pure_ok] at h
      obtain ⟨y, hy, rest, hrest, rfl⟩ := h
      rw [List.map_cons, hname x y hy, mapM_map hname hrest]

/-- A loop that maps has a result for every element. -/
theorem mapM_mem {f : α → Except ε β} : ∀ {xs : List α} {ys : List β},
    xs.mapM f = .ok ys → ∀ x ∈ xs, ∃ y ∈ ys, f x = .ok y
  | [], _, _ => List.forall_mem_nil _
  | x :: xs, ys, h => by
      simp only [List.mapM_cons, bind_ok, pure_ok] at h
      obtain ⟨y, hy, zs, hzs, rfl⟩ := h
      refine List.forall_mem_cons.mpr ⟨⟨y, List.mem_cons_self, hy⟩, fun w hw => ?_⟩
      obtain ⟨z, hz, hwz⟩ := mapM_mem hzs w hw
      exact ⟨z, List.mem_cons_of_mem _ hz, hwz⟩

/-- A loop of checks has checked every element. -/
theorem forM_mem {check : α → Except ε Unit} {xs : List α} (h : xs.forM check = .ok ()) :
    ∀ x ∈ xs, check x = .ok () := by
  induction xs with
  | nil => exact List.forall_mem_nil _
  | cons y ys ih =>
      change (check y >>= fun _ => ys.forM check) = _ at h
      rw [bind_ok] at h
      obtain ⟨⟨⟩, hy, hys⟩ := h
      exact List.forall_mem_cons.mpr ⟨hy, ih hys⟩

/-! ## Loops that accumulate -/

/-- Every round of an accepted loop was accepted. -/
theorem foldlM_mem {f : β → α → Except ε β} {xs : List α} :
    ∀ {b b' : β}, xs.foldlM f b = .ok b' → ∀ x ∈ xs, ∃ c c', f c x = .ok c' := by
  induction xs with
  | nil => intro _ _ _ x hx; simp at hx
  | cons y ys ih =>
      intro b b' h x hx
      rw [List.foldlM_cons, bind_ok] at h
      obtain ⟨c, hy, hys⟩ := h
      rcases List.mem_cons.mp hx with rfl | hx
      · exact ⟨b, c, hy⟩
      · exact ih hys x hx

/-- What every accepted round keeps, an accepted loop keeps. -/
theorem foldlM_invariant {f : β → α → Except ε β} {P : β → Prop}
    (hf : ∀ b x b', P b → f b x = .ok b' → P b') {xs : List α} :
    ∀ {b b' : β}, P b → xs.foldlM f b = .ok b' → P b' := by
  induction xs with
  | nil =>
      intro b b' hb h
      rw [List.foldlM_nil, pure_ok] at h
      exact h ▸ hb
  | cons y ys ih =>
      intro b b' hb h
      rw [List.foldlM_cons, bind_ok] at h
      obtain ⟨c, hy, hys⟩ := h
      exact ih (hf b y c hb hy) hys

/-- Every round of an accepted loop was accepted where what the rounds keep held. -/
theorem foldlM_rounds {f : β → α → Except ε β} {P : β → Prop}
    (hf : ∀ b x b', P b → f b x = .ok b' → P b') {xs : List α} :
    ∀ {b b' : β}, P b → xs.foldlM f b = .ok b' → ∀ x ∈ xs, ∃ c c', P c ∧ f c x = .ok c' := by
  induction xs with
  | nil => exact fun _ _ => List.forall_mem_nil _
  | cons y ys ih =>
      intro b b' hb h
      rw [List.foldlM_cons, bind_ok] at h
      obtain ⟨c, hy, hys⟩ := h
      exact List.forall_mem_cons.mpr ⟨⟨b, c, hb, hy⟩, ih (hf b y c hb hy) hys⟩

/-- A loop that appends one result a round has one result for each element. -/
theorem foldlM_append {f : List β → α → Except ε β} {xs : List α} :
    ∀ {acc out : List β},
      xs.foldlM (fun acc x => do let y ← f acc x; pure (acc ++ [y])) acc = .ok out →
      ∃ ys, out = acc ++ ys ∧ List.Forall₂ (fun x y => ∃ acc, f acc x = .ok y) xs ys := by
  induction xs with
  | nil =>
      intro acc out h
      rw [List.foldlM_nil, pure_ok] at h
      exact ⟨[], by simp [h], .nil⟩
  | cons x xs ih =>
      intro acc out h
      rw [List.foldlM_cons] at h
      simp only [bind_ok, pure_ok] at h
      obtain ⟨acc', ⟨y, hy, rfl⟩, hxs⟩ := h
      obtain ⟨ys, rfl, hall⟩ := ih hxs
      exact ⟨y :: ys, by simp, .cons ⟨acc, hy⟩ hall⟩

/-- A loop that decodes every element is a loop over what it decodes. -/
theorem foldlM_decoded {decode : α → Except ε γ} {step : β → γ → Except ε β} {xs : List α} :
    ∀ {b b' : β}, xs.foldlM (fun b x => decode x >>= step b) b = .ok b' →
      (xs.filterMap fun x => (decode x).toOption).foldlM step b = .ok b' ∧
      xs.map decode = (xs.filterMap fun x => (decode x).toOption).map .ok := by
  induction xs with
  | nil => intro b b' h; exact ⟨h, rfl⟩
  | cons x xs ih =>
      intro b b' h
      rw [List.foldlM_cons] at h
      simp only [bind_ok] at h
      obtain ⟨c, ⟨y, hy, hstep⟩, hrest⟩ := h
      obtain ⟨hfold, hmap⟩ := ih hrest
      have hcons : (x :: xs).filterMap (fun x => (decode x).toOption) =
          y :: xs.filterMap fun x => (decode x).toOption := by
        rw [List.filterMap_cons, hy]
        rfl
      rw [hcons, List.foldlM_cons, List.map_cons, List.map_cons, hy, hmap, bind_ok]
      exact ⟨⟨c, hstep, hfold⟩, rfl⟩

/-- What such a loop decoded was decoded from an element. -/
theorem mem_of_decoded {decode : α → Except ε γ} {xs : List α} {y : γ}
    (h : y ∈ xs.filterMap fun x => (decode x).toOption) : ∃ x ∈ xs, decode x = .ok y := by
  obtain ⟨x, hx, hy⟩ := List.mem_filterMap.mp h
  refine ⟨x, hx, ?_⟩
  cases hdecode : decode x with
  | error e => rw [hdecode] at hy; cases hy
  | ok z =>
      rw [hdecode] at hy
      exact congrArg _ (Option.some.inj hy)

end Hermas
