import Hermas.Base.Check

/-!
# Two loaders, one verdict

Two loaders of one format agree when each accepts what the other accepts and the
results correspond. The relation is built along the loaders: a check corresponds
to an equivalent check, a sequence to a sequence, a loop to a loop over the same
records.
-/

namespace Hermas

variable {ε ε' α α' β β' ι : Type}

/-- Both accept with corresponding results, or both refuse. -/
structure Alike (R : α → β → Prop) (x : Except ε α) (y : Except ε' β) : Prop where
  left : ∀ a, x = .ok a → ∃ b, y = .ok b ∧ R a b
  right : ∀ b, y = .ok b → ∃ a, x = .ok a ∧ R a b

/-- Two checks without a result. -/
abbrev SameVerdict (x : Except ε Unit) (y : Except ε' Unit) : Prop := Alike (fun _ _ => True) x y

namespace Alike

variable {R : α → β → Prop} {S : α' → β' → Prop}

theorem mono {R' : α → β → Prop} {x : Except ε α} {y : Except ε' β} (h : Alike R x y)
    (hR : ∀ a b, x = .ok a → y = .ok b → R a b → R' a b) : Alike R' x y where
  left a ha := by
    obtain ⟨b, hb, hab⟩ := h.left a ha
    exact ⟨b, hb, hR a b ha hb hab⟩
  right b hb := by
    obtain ⟨a, ha, hab⟩ := h.right b hb
    exact ⟨a, ha, hR a b ha hb hab⟩

theorem ok {a : α} {b : β} (h : R a b) : Alike R (.ok a : Except ε α) (.ok b : Except ε' β) where
  left _ ha := ⟨b, rfl, Except.ok.inj ha ▸ h⟩
  right _ hb := ⟨a, rfl, Except.ok.inj hb ▸ h⟩

theorem error {e : ε} {e' : ε'} : Alike R (.error e) (.error e') where
  left _ ha := by cases ha
  right _ hb := by cases hb

theorem require {p q : Prop} [Decidable p] [Decidable q] {reason : ε} {reason' : ε'}
    (h : p ↔ q) : SameVerdict (require p reason) (require q reason') where
  left a ha := by
    rw [require_ok] at ha
    exact ⟨(), require_ok.mpr (h.mp ha), trivial⟩
  right b hb := by
    rw [require_ok] at hb
    exact ⟨(), require_ok.mpr (h.mpr hb), trivial⟩

/-- One after the other; what the first steps established is known in the second. -/
theorem bind {x : Except ε α} {y : Except ε' β} {f : α → Except ε α'} {g : β → Except ε' β'}
    (h : Alike R x y) (hfg : ∀ a b, x = .ok a → y = .ok b → R a b → Alike S (f a) (g b)) :
    Alike S (x >>= f) (y >>= g) where
  left a' ha' := by
    obtain ⟨a, ha, hf⟩ := bind_ok.mp ha'
    obtain ⟨b, hb, hab⟩ := h.left a ha
    obtain ⟨b', hg, hab'⟩ := (hfg a b ha hb hab).left a' hf
    exact ⟨b', bind_ok.mpr ⟨b, hb, hg⟩, hab'⟩
  right b' hb' := by
    obtain ⟨b, hb, hg⟩ := bind_ok.mp hb'
    obtain ⟨a, ha, hab⟩ := h.right b hb
    obtain ⟨a', hf, hab'⟩ := (hfg a b ha hb hab).right b' hg
    exact ⟨a', bind_ok.mpr ⟨a, ha, hf⟩, hab'⟩

/-- A refusal written as a branch corresponds to one written as a check. -/
theorem guard {bad q : Prop} [Decidable bad] [Decidable q] {e : ε} {reason : ε'} {a : α} {b : β}
    (h : bad ↔ ¬ q) (hR : R a b) :
    Alike R (if bad then .error e else .ok a) (Hermas.require q reason >>= fun _ => pure b) where
  left a' ha' := by
    split at ha'
    · cases ha'
    · rename_i hgood
      refine ⟨b, bind_ok.mpr ⟨(), require_ok.mpr ?_, rfl⟩, Except.ok.inj ha' ▸ hR⟩
      by_contra hq
      exact hgood (h.mpr hq)
  right b' hb' := by
    obtain ⟨⟨⟩, hq, hb⟩ := bind_ok.mp hb'
    rw [require_ok] at hq
    refine ⟨a, if_neg fun hbad => h.mp hbad hq, ?_⟩
    rw [← pure_ok.mp hb]
    exact hR

/-- Two loops over the same records whose rounds correspond. -/
theorem foldlM {f : α → ι → Except ε α} {g : β → ι → Except ε' β} :
    ∀ {xs : List ι} {a : α} {b : β}, R a b →
      (∀ x ∈ xs, ∀ a b, R a b → Alike R (f a x) (g b x)) →
      Alike R (xs.foldlM f a) (xs.foldlM g b) := by
  intro xs
  induction xs with
  | nil => intro a b hab _; exact ok hab
  | cons x xs ih =>
      intro a b hab hstep
      rw [List.foldlM_cons, List.foldlM_cons]
      exact (hstep x (by simp) a b hab).bind fun a' b' _ _ hab' =>
        ih hab' fun y hy => hstep y (by simp [hy])

/-- Two checks of every record against those before it. -/
theorem checkEach {f : List ι → ι → Except ε Unit} {g : List ι → ι → Except ε' Unit} :
    ∀ {xs prior : List ι}, (∀ prior, ∀ x ∈ xs, SameVerdict (f prior x) (g prior x)) →
      SameVerdict (checkEach f prior xs) (checkEach g prior xs) := by
  intro xs
  induction xs with
  | nil => intro prior _; exact ok trivial
  | cons x xs ih =>
      intro prior hstep
      exact (hstep prior x (by simp)).bind fun _ _ _ _ _ => ih fun p y hy => hstep p y (by simp [hy])

theorem isSome_iff {x : Except ε α} {y : Except ε' β} (h : Alike R x y) :
    x.toOption.isSome = true ↔ y.toOption.isSome = true := by
  constructor
  · intro hx
    cases hc : x with
    | error e => rw [hc] at hx; cases hx
    | ok a =>
        obtain ⟨b, hb, -⟩ := h.left a hc
        rw [hb]
        rfl
  · intro hy
    cases hc : y with
    | error e => rw [hc] at hy; cases hy
    | ok b =>
        obtain ⟨a, ha, -⟩ := h.right b hc
        rw [ha]
        rfl

end Alike

end Hermas
