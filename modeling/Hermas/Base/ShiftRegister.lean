import Mathlib.Data.BitVec
import Mathlib.Logic.Function.Iterate
import Mathlib.Tactic.Ring

/-!
# Linear shift registers

A register of `n` bits takes a string of bits, one at a time, into its lowest place and
moves down; a one that drops out is folded back in by the polynomial. What it ends up
with is linear in what it started from and in the bits (`feed_xor`), and as long as the
polynomial has its highest coefficient a register never becomes empty by moving
(`step_eq_zero`). Then no error within `n` successive bits goes unseen (`burst`).
-/

namespace Hermas.ShiftRegister

variable {n : Nat} (poly : BitVec n)

/-- One move. -/
def step (v : BitVec n) : BitVec n := (v >>> 1) ^^^ (if v.getLsbD 0 then poly else 0)

/-- The register behind a string of bits. -/
def feed (v : BitVec n) (bits : List Bool) : BitVec n :=
  bits.foldl (fun v bit => step poly (v ^^^ BitVec.ofNat n bit.toNat)) v

/-- The number that a string of bits spells, lowest place first. -/
def word : List Bool → Nat
  | [] => 0
  | bit :: bits => bit.toNat + 2 * word bits

/-! ## Words -/

theorem word_lt : ∀ bits : List Bool, word bits < 2 ^ bits.length
  | [] => by simp [word]
  | bit :: bits => by
      have := word_lt bits
      have := Bool.toNat_le bit
      rw [word, List.length_cons, pow_succ]
      omega

theorem word_append : ∀ xs ys : List Bool, word (xs ++ ys) = word xs + 2 ^ xs.length * word ys
  | [], ys => by simp [word]
  | x :: xs, ys => by
      rw [List.cons_append, word, word, word_append xs ys, List.length_cons, pow_succ']
      ring

theorem word_eq_zero : ∀ {bits : List Bool}, word bits = 0 → ∀ bit ∈ bits, bit = false
  | [], _ => by simp
  | bit :: bits, h => by
      rw [word] at h
      have hbit : bit.toNat = 0 := by omega
      have hrest : word bits = 0 := by omega
      have hbits := word_eq_zero hrest
      rw [List.forall_mem_cons]
      exact ⟨by simpa using hbit, hbits⟩

theorem word_replicate : ∀ k : Nat, word (List.replicate k false) = 0
  | 0 => rfl
  | k + 1 => by rw [List.replicate_succ, word, word_replicate k]; rfl

/-! ## Linearity -/

variable {poly}

theorem step_xor (u v : BitVec n) : step poly (u ^^^ v) = step poly u ^^^ step poly v := by
  have hmask : (if (u ^^^ v).getLsbD 0 then poly else 0) =
      (if u.getLsbD 0 then poly else 0) ^^^ (if v.getLsbD 0 then poly else 0) := by
    rw [BitVec.getLsbD_xor]
    cases u.getLsbD 0 <;> cases v.getLsbD 0 <;> simp
  rw [step, step, step, hmask, BitVec.ushiftRight_xor_distrib]
  ac_rfl

theorem step_zero : step poly 0 = 0 := by simp [step]

theorem iterate_xor (k : Nat) (u v : BitVec n) :
    (step poly)^[k] (u ^^^ v) = (step poly)^[k] u ^^^ (step poly)^[k] v := by
  induction k generalizing u v with
  | zero => rfl
  | succ k ih => rw [Function.iterate_succ_apply, step_xor, ih]; rfl

theorem iterate_zero (k : Nat) : (step poly)^[k] 0 = 0 :=
  Function.iterate_fixed step_zero k

theorem feed_append (v : BitVec n) (xs ys : List Bool) :
    feed poly v (xs ++ ys) = feed poly (feed poly v xs) ys := List.foldl_append

/-- A word that is shorter than the register moves down as it is. -/
theorem step_double {w : Nat} (h : 2 * w < 2 ^ n) :
    step poly (BitVec.ofNat n (2 * w)) = BitVec.ofNat n w := by
  have hlow : (BitVec.ofNat n (2 * w)).getLsbD 0 = false := by
    rw [BitVec.getLsbD_ofNat, Nat.testBit_zero]
    simp
  have hshift : BitVec.ofNat n (2 * w) >>> 1 = BitVec.ofNat n w := by
    apply BitVec.eq_of_toNat_eq
    rw [BitVec.toNat_ushiftRight, BitVec.toNat_ofNat, BitVec.toNat_ofNat, Nat.mod_eq_of_lt h,
      Nat.mod_eq_of_lt (by omega), Nat.shiftRight_one]
    omega
  rw [step, hlow, hshift]
  simp

/-- **Feeding bits one by one is feeding their word** and moving on, while the word fits. -/
theorem feed_word : ∀ (bits : List Bool) (v : BitVec n), bits.length ≤ n →
    feed poly v bits = (step poly)^[bits.length] (v ^^^ BitVec.ofNat n (word bits))
  | [], v, _ => by simp [feed, word]
  | bit :: bits, v, h => by
      rw [List.length_cons] at h
      have hword : 2 * word bits < 2 ^ n := by
        have hlt := word_lt bits
        have hpow : 2 ^ (bits.length + 1) ≤ 2 ^ n := Nat.pow_le_pow_right (by omega) h
        rw [pow_succ] at hpow
        omega
      have hsplit : BitVec.ofNat n (word (bit :: bits)) =
          BitVec.ofNat n bit.toNat ^^^ BitVec.ofNat n (2 * word bits) := by
        apply BitVec.eq_of_toNat_eq
        have hbit : bit.toNat < 2 ^ n := by
          have := Bool.toNat_lt bit
          have : 2 ^ 1 ≤ 2 ^ n := Nat.pow_le_pow_right (by omega) (by omega)
          omega
        have hsum : word (bit :: bits) < 2 ^ n := (word_lt (bit :: bits)).trans_le
          (Nat.pow_le_pow_right (by omega) (by simpa using h))
        rw [BitVec.toNat_xor, BitVec.toNat_ofNat, BitVec.toNat_ofNat, BitVec.toNat_ofNat,
          Nat.mod_eq_of_lt hbit, Nat.mod_eq_of_lt hword, Nat.mod_eq_of_lt hsum, word]
        cases bit
        · simp
        · apply Nat.eq_of_testBit_eq
          intro i
          cases i with
          | zero => simp
          | succ i =>
              have hodd : (true.toNat + 2 * word bits) / 2 = word bits := by
                rw [Bool.toNat_true]
                omega
              rw [Nat.testBit_succ, Nat.testBit_succ, Nat.xor_div_two, hodd]
              simp
      rw [List.length_cons, Function.iterate_succ_apply, hsplit, ← BitVec.xor_assoc, step_xor,
        step_double hword, ← feed_word bits _ (by omega)]
      rfl

/-- The register is linear in where it starts and what it takes. -/
theorem feed_xor : ∀ {xs ys : List Bool} (u v : BitVec n), xs.length = ys.length →
    feed poly (u ^^^ v) (List.zipWith xor xs ys) = feed poly u xs ^^^ feed poly v ys
  | [], [], u, v, _ => rfl
  | x :: xs, y :: ys, u, v, h => by
      have hbit : BitVec.ofNat n (xor x y).toNat =
          BitVec.ofNat n x.toNat ^^^ BitVec.ofNat n y.toNat := by
        cases x <;> cases y <;> simp
      have hstep : step poly (u ^^^ v ^^^ BitVec.ofNat n (xor x y).toNat) =
          step poly (u ^^^ BitVec.ofNat n x.toNat) ^^^
            step poly (v ^^^ BitVec.ofNat n y.toNat) := by
        rw [← step_xor, hbit]
        congr 1
        ac_rfl
      have hrest := feed_xor (step poly (u ^^^ BitVec.ofNat n x.toNat))
        (step poly (v ^^^ BitVec.ofNat n y.toNat)) (Nat.succ.inj h)
      rw [← hstep] at hrest
      exact hrest

/-! ## Bursts -/

/-- An error lies within `width` successive places. -/
def Burst (width : Nat) (bits : List Bool) : Prop :=
  ∃ start, ∀ i, bits[i]? = some true → start ≤ i ∧ i < start + width

/-- **A register is not emptied by moving**: what drops out is folded back in at the top. -/
theorem step_eq_zero (hpoly : poly.msb = true) {v : BitVec n} (h : step poly v = 0) : v = 0 := by
  have hpos : 0 < n := by
    rcases Nat.eq_zero_or_pos n with rfl | hpos
    · simp [BitVec.msb, BitVec.getMsbD] at hpoly
    · exact hpos
  have hlow : v.getLsbD 0 = false := by
    -- The top place is empty behind the shift, so a polynomial folded in would stay there.
    by_contra hone
    rw [Bool.not_eq_false] at hone
    have htop := congrArg BitVec.msb h
    rw [step, hone, if_pos rfl, BitVec.msb_xor, hpoly] at htop
    simp [BitVec.msb_ushiftRight] at htop
  rw [step, hlow] at h
  simp only [Bool.false_eq_true, if_false] at h
  apply BitVec.eq_of_getLsbD_eq
  intro i hi
  rcases i with _ | i
  · simpa using hlow
  · have hplace := congrArg (fun w => w.getLsbD i) h
    simpa [BitVec.getLsbD_ushiftRight, Nat.add_comm 1 i] using hplace

theorem iterate_eq_zero (hpoly : poly.msb = true) : ∀ {k : Nat} {v : BitVec n},
    (step poly)^[k] v = 0 → v = 0
  | 0, _, h => h
  | k + 1, v, h => by
      rw [Function.iterate_succ_apply] at h
      exact step_eq_zero hpoly (iterate_eq_zero hpoly h)

theorem feed_replicate (v : BitVec n) : ∀ k : Nat,
    feed poly v (List.replicate k false) = (step poly)^[k] v
  | 0 => rfl
  | k + 1 => by
      rw [List.replicate_succ, Function.iterate_succ_apply, ← feed_replicate _ k]
      simp [feed]

theorem replicate_of_forall {bits : List Bool} (h : ∀ bit ∈ bits, bit = false) :
    bits = List.replicate bits.length false := List.eq_replicate_iff.mpr ⟨rfl, h⟩

/-- **A burst that is no longer than the register is seen.** -/
theorem burst (hpoly : poly.msb = true) {bits : List Bool} (hburst : Burst n bits)
    (h : feed poly 0 bits = 0) : ∀ bit ∈ bits, bit = false := by
  obtain ⟨start, hwithin⟩ := hburst
  have hoff : ∀ i, i < start ∨ start + n ≤ i → ∀ bit, bits[i]? = some bit → bit = false := by
    intro i hi bit hbit
    by_contra hone
    rw [Bool.not_eq_false] at hone
    obtain ⟨hlow, hhigh⟩ := hwithin i (hone ▸ hbit)
    omega
  have hfront : ∀ bit ∈ bits.take start, bit = false := by
    intro bit hmem
    obtain ⟨i, hget⟩ := List.mem_iff_getElem?.mp hmem
    have hi : i < start := by
      by_contra hi
      rw [List.getElem?_take, if_neg hi] at hget
      cases hget
    rw [List.getElem?_take, if_pos hi] at hget
    exact hoff i (.inl hi) bit hget
  have hback : ∀ bit ∈ bits.drop (start + n), bit = false := by
    intro bit hmem
    obtain ⟨i, hget⟩ := List.mem_iff_getElem?.mp hmem
    rw [List.getElem?_drop] at hget
    exact hoff _ (.inr (by omega)) bit hget
  have hsplit : bits = bits.take start ++ ((bits.drop start).take n ++ bits.drop (start + n)) := by
    rw [← List.drop_drop, List.take_append_drop, List.take_append_drop]
  have hlength : ((bits.drop start).take n).length ≤ n := by simp
  rw [hsplit, feed_append, replicate_of_forall hfront, feed_replicate, iterate_zero, feed_append,
    replicate_of_forall hback, feed_replicate] at h
  have hmiddle := iterate_eq_zero hpoly h
  rw [feed_word _ _ hlength] at hmiddle
  have hword := iterate_eq_zero hpoly hmiddle
  rw [show (0 : BitVec n) = 0#n from rfl, BitVec.zero_xor] at hword
  have hzero : word ((bits.drop start).take n) = 0 := by
    have hnat := congrArg BitVec.toNat hword
    have hfits : word ((bits.drop start).take n) < 2 ^ n := (word_lt _).trans_le
      (Nat.pow_le_pow_right (by omega) hlength)
    simpa [Nat.mod_eq_of_lt hfits] using hnat
  rw [hsplit]
  intro bit hmem
  rcases List.mem_append.mp hmem with hmem | hmem
  · exact hfront bit hmem
  rcases List.mem_append.mp hmem with hmem | hmem
  · exact word_eq_zero hzero bit hmem
  · exact hback bit hmem

end Hermas.ShiftRegister
