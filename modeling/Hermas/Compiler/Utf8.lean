import Hermas.Image.Value

/-!
# UTF-8 in the two languages

The compiler's decoder asks the standard library whether bytes are UTF-8, which
goes by the ranges of the leading bytes. The daemon decodes each code point and
looks at its value. Both accept the same bytes: a code point is too short, a
surrogate or too large exactly when its second byte is outside the range that its
first byte allows. What passes are the encodings of sequences of Unicode scalar values,
which are what a `Char` is.
-/

namespace Hermas.Compiler

open Image (continuation appendBits scalar validUtf8)

/-- A continuation byte. -/
def tail (b : UInt8) : Bool := 0x80 ≤ b && b ≤ 0xbf

/-- The second byte of three. -/
def secondOfThree (first b : UInt8) : Bool :=
  (first == 0xe0 && 0xa0 ≤ b && b ≤ 0xbf) || (0xe1 ≤ first && first ≤ 0xec && tail b) ||
    (first == 0xed && 0x80 ≤ b && b ≤ 0x9f) || (0xee ≤ first && first ≤ 0xef && tail b)

/-- The second byte of four. -/
def secondOfFour (first b : UInt8) : Bool :=
  (first == 0xf0 && 0x90 ≤ b && b ≤ 0xbf) || (0xf1 ≤ first && first ≤ 0xf3 && tail b) ||
    (first == 0xf4 && 0x80 ≤ b && b ≤ 0x8f)

/-- `str::from_utf8` -/
def fromUtf8 : Bytes → Bool
  | [] => true
  | first :: rest =>
      if first ≤ 0x7f then fromUtf8 rest
      else if 0xc2 ≤ first ∧ first ≤ 0xdf then
        match rest with
        | b :: rest => tail b && fromUtf8 rest
        | _ => false
      else if 0xe0 ≤ first ∧ first ≤ 0xef then
        match rest with
        | b :: c :: rest => secondOfThree first b && tail c && fromUtf8 rest
        | _ => false
      else if 0xf0 ≤ first ∧ first ≤ 0xf4 then
        match rest with
        | b :: c :: d :: rest => secondOfFour first b && tail c && tail d && fromUtf8 rest
        | _ => false
      else false

/-! ## Code points as numbers -/

theorem and_mask (b : UInt8) : (b &&& 0x3f).toNat = b.toNat % 64 := by
  rw [UInt8.toNat_and]
  exact Nat.and_two_pow_sub_one_eq_mod b.toNat 6

theorem continuation_eq_tail (b : UInt8) : continuation b = tail b := by
  have hall : ∀ n < 256, (n &&& 0xc0 = 0x80 ↔ 0x80 ≤ n ∧ n ≤ 0xbf) := by decide +kernel
  have hb := hall b.toNat (UInt8.toNat_lt b)
  have hand : (b &&& 0xc0 = 0x80) ↔ b.toNat &&& 0xc0 = 0x80 := by
    rw [← UInt8.toNat_inj, UInt8.toNat_and]
    rfl
  rw [Bool.eq_iff_iff]
  simp only [continuation, tail, beq_iff_eq, Bool.and_eq_true, decide_eq_true_eq,
    UInt8.le_iff_toNat_le]
  exact hand.trans hb

/-- Appending six bits multiplies by 64, as long as the word does not overflow. -/
theorem toNat_appendBits (codepoint : UInt32) (b : UInt8) (h : codepoint.toNat < 2 ^ 26) :
    (appendBits codepoint b).toNat = codepoint.toNat * 64 + b.toNat % 64 := by
  have hlow : (b &&& 0x3f).toUInt32.toNat = b.toNat % 64 := by
    rw [UInt8.toNat_toUInt32, and_mask]
  have hhigh : (codepoint <<< 6).toNat = codepoint.toNat <<< 6 := by
    rw [UInt32.toNat_shiftLeft]
    refine Nat.mod_eq_of_lt ?_
    rw [show (6 : UInt32).toNat % 32 = 6 from rfl, Nat.shiftLeft_eq]
    omega
  have hor : codepoint.toNat <<< 6 ||| b.toNat % 64 = codepoint.toNat <<< 6 + b.toNat % 64 :=
    (Nat.shiftLeft_add_eq_or_of_lt (by omega : b.toNat % 64 < 2 ^ 6) codepoint.toNat).symm
  rw [appendBits, UInt32.toNat_or, hhigh, hlow, hor, Nat.shiftLeft_eq]

theorem toNat_lead (first mask : UInt8) (k : Nat) (hmask : mask.toNat = 2 ^ k - 1) :
    (first &&& mask).toUInt32.toNat = first.toNat % 2 ^ k := by
  rw [UInt8.toNat_toUInt32, UInt8.toNat_and, hmask]
  exact Nat.and_two_pow_sub_one_eq_mod first.toNat k

theorem scalar_iff (codepoint : UInt32) :
    scalar codepoint = true ↔
      ¬ (0xd800 ≤ codepoint.toNat ∧ codepoint.toNat ≤ 0xdfff) ∧ codepoint.toNat ≤ 0x10ffff := by
  simp only [scalar, Bool.and_eq_true, Bool.not_eq_true', decide_eq_true_eq,
    UInt32.le_iff_toNat_le, ← Bool.not_eq_true]
  rfl

theorem tail_iff (b : UInt8) : tail b = true ↔ 0x80 ≤ b.toNat ∧ b.toNat ≤ 0xbf := by
  simp only [tail, Bool.and_eq_true, decide_eq_true_eq, UInt8.le_iff_toNat_le]
  rfl

/-! ## One code point -/

theorem two_eq (first b : UInt8) :
    (continuation b && scalar (appendBits (first &&& 0x1f).toUInt32 b)) = tail b := by
  rw [continuation_eq_tail]
  have hlead := toNat_lead first 0x1f 5 rfl
  have hcode := toNat_appendBits (first &&& 0x1f).toUInt32 b (by rw [hlead]; omega)
  rw [hlead] at hcode
  rw [Bool.eq_iff_iff, Bool.and_eq_true, scalar_iff, tail_iff, hcode]
  omega

theorem secondOfThree_iff (first b : UInt8) : secondOfThree first b = true ↔
    (first.toNat = 0xe0 ∧ 0xa0 ≤ b.toNat ∧ b.toNat ≤ 0xbf) ∨
    (0xe1 ≤ first.toNat ∧ first.toNat ≤ 0xec ∧ 0x80 ≤ b.toNat ∧ b.toNat ≤ 0xbf) ∨
    (first.toNat = 0xed ∧ 0x80 ≤ b.toNat ∧ b.toNat ≤ 0x9f) ∨
    (0xee ≤ first.toNat ∧ first.toNat ≤ 0xef ∧ 0x80 ≤ b.toNat ∧ b.toNat ≤ 0xbf) := by
  simp only [secondOfThree, Bool.or_eq_true, Bool.and_eq_true, beq_iff_eq, decide_eq_true_eq,
    tail_iff, UInt8.le_iff_toNat_le, ← UInt8.toNat_inj, or_assoc, and_assoc]
  rfl

/-- Three bytes are a code point in the ranges exactly when they decode to one. -/
theorem three_eq {first : UInt8} (b c : UInt8) (hf : 0xe0 ≤ first ∧ first ≤ 0xef) :
    (continuation b && continuation c &&
      !(appendBits (appendBits (first &&& 0x0f).toUInt32 b) c < 0x800) &&
      scalar (appendBits (appendBits (first &&& 0x0f).toUInt32 b) c)) =
    (secondOfThree first b && tail c) := by
  rw [continuation_eq_tail, continuation_eq_tail]
  have hlead := toNat_lead first 0x0f 4 rfl
  have hsecond := toNat_appendBits (first &&& 0x0f).toUInt32 b (by rw [hlead]; omega)
  rw [hlead] at hsecond
  have hcode := toNat_appendBits (appendBits (first &&& 0x0f).toUInt32 b) c
    (by rw [hsecond]; omega)
  rw [hsecond] at hcode
  have hlo : 0xe0 ≤ first.toNat := UInt8.le_iff_toNat_le.mp hf.1
  have hhi : first.toNat ≤ 0xef := UInt8.le_iff_toNat_le.mp hf.2
  have hshort : (appendBits (appendBits (first &&& 0x0f).toUInt32 b) c < 0x800) ↔
      (appendBits (appendBits (first &&& 0x0f).toUInt32 b) c).toNat < 0x800 :=
    UInt32.lt_iff_toNat_lt
  rw [Bool.eq_iff_iff]
  simp only [Bool.and_eq_true, Bool.not_eq_true', decide_eq_false_iff_not, tail_iff, scalar_iff,
    secondOfThree_iff, hshort, hcode]
  omega

theorem secondOfFour_iff (first b : UInt8) : secondOfFour first b = true ↔
    (first.toNat = 0xf0 ∧ 0x90 ≤ b.toNat ∧ b.toNat ≤ 0xbf) ∨
    (0xf1 ≤ first.toNat ∧ first.toNat ≤ 0xf3 ∧ 0x80 ≤ b.toNat ∧ b.toNat ≤ 0xbf) ∨
    (first.toNat = 0xf4 ∧ 0x80 ≤ b.toNat ∧ b.toNat ≤ 0x8f) := by
  simp only [secondOfFour, Bool.or_eq_true, Bool.and_eq_true, beq_iff_eq, decide_eq_true_eq,
    tail_iff, UInt8.le_iff_toNat_le, ← UInt8.toNat_inj, or_assoc, and_assoc]
  rfl

/-- The same for four bytes. -/
theorem four_eq {first : UInt8} (b c d : UInt8) (hf : 0xf0 ≤ first ∧ first ≤ 0xf4) :
    (continuation b && continuation c && continuation d &&
      !(appendBits (appendBits (appendBits (first &&& 0x07).toUInt32 b) c) d < 0x10000) &&
      scalar (appendBits (appendBits (appendBits (first &&& 0x07).toUInt32 b) c) d)) =
    (secondOfFour first b && tail c && tail d) := by
  rw [continuation_eq_tail, continuation_eq_tail, continuation_eq_tail]
  have hlead := toNat_lead first 0x07 3 rfl
  have hsecond := toNat_appendBits (first &&& 0x07).toUInt32 b (by rw [hlead]; omega)
  rw [hlead] at hsecond
  have hthird := toNat_appendBits (appendBits (first &&& 0x07).toUInt32 b) c
    (by rw [hsecond]; omega)
  rw [hsecond] at hthird
  have hcode := toNat_appendBits (appendBits (appendBits (first &&& 0x07).toUInt32 b) c) d
    (by rw [hthird]; omega)
  rw [hthird] at hcode
  have hlo : 0xf0 ≤ first.toNat := UInt8.le_iff_toNat_le.mp hf.1
  have hhi : first.toNat ≤ 0xf4 := UInt8.le_iff_toNat_le.mp hf.2
  have hshort : (appendBits (appendBits (appendBits (first &&& 0x07).toUInt32 b) c) d < 0x10000) ↔
      (appendBits (appendBits (appendBits (first &&& 0x07).toUInt32 b) c) d).toNat < 0x10000 :=
    UInt32.lt_iff_toNat_lt
  rw [Bool.eq_iff_iff]
  simp only [Bool.and_eq_true, Bool.not_eq_true', decide_eq_false_iff_not, tail_iff, scalar_iff,
    secondOfFour_iff, hshort, hcode]
  omega

/-- **Both languages accept the same bytes as UTF-8.** -/
theorem validUtf8_eq (bytes : Bytes) : validUtf8 bytes = fromUtf8 bytes := by
  fun_induction validUtf8 bytes with
  | case1 => rfl
  | case2 first rest hone ih =>
      unfold fromUtf8
      rw [if_pos hone, ih]
  | case3 first hone htwo b rest ih =>
      unfold fromUtf8
      rw [if_neg hone, if_pos htwo, two_eq, ih]
  | case4 first rest hone htwo hshort =>
      unfold fromUtf8
      rw [if_neg hone, if_pos htwo]
      split
      · exact absurd rfl (hshort _ _)
      · rfl
  | case5 first hone htwo hthree b c rest codepoint ih =>
      unfold fromUtf8
      rw [if_neg hone, if_neg htwo, if_pos hthree, three_eq b c hthree, ih]
  | case6 first rest hone htwo hthree hshort =>
      unfold fromUtf8
      rw [if_neg hone, if_neg htwo, if_pos hthree]
      split
      · exact absurd rfl (hshort _ _ _)
      · rfl
  | case7 first hone htwo hthree hfour b c d rest codepoint ih =>
      unfold fromUtf8
      rw [if_neg hone, if_neg htwo, if_neg hthree, if_pos hfour, four_eq b c d hfour, ih]
  | case8 first rest hone htwo hthree hfour hshort =>
      unfold fromUtf8
      rw [if_neg hone, if_neg htwo, if_neg hthree, if_pos hfour]
      split
      · exact absurd rfl (hshort _ _ _ _)
      · rfl
  | case9 first rest hone htwo hthree hfour =>
      unfold fromUtf8
      rw [if_neg hone, if_neg htwo, if_neg hthree, if_neg hfour]

/-! ## Encodings of scalar values -/

/-- A sequence of Unicode scalar values, encoded one after the other. -/
def Encodes (bytes : Bytes) : Prop := ∃ chars : List Char, bytes = chars.flatMap String.utf8EncodeChar

theorem exists_char {n : Nat} (h : n < 0xd800 ∨ 0xdfff < n ∧ n < 0x110000) :
    ∃ c : Char, c.val.toNat = n := by
  have hvalid : n.isValidChar := h
  exact ⟨Char.ofNat n, by rw [Char.ofNat, dif_pos hvalid]; rfl⟩

theorem byte_eq {b : UInt8} {n : Nat} (h : b.toNat = n) : UInt8.ofNat n = b := by
  rw [← h, UInt8.ofNat_toNat]

theorem encode_one {a : UInt8} (ha : a ≤ 0x7f) : ∃ c : Char, String.utf8EncodeChar c = [a] := by
  have ha' : a.toNat ≤ 0x7f := UInt8.le_iff_toNat_le.mp ha
  obtain ⟨c, hc⟩ := exists_char (n := a.toNat) (by omega)
  refine ⟨c, ?_⟩
  rw [String.utf8EncodeChar]
  simp only [hc, if_pos ha', byte_eq rfl]

theorem encode_two {a b : UInt8} (ha : 0xc2 ≤ a ∧ a ≤ 0xdf) (hb : tail b = true) :
    ∃ c : Char, String.utf8EncodeChar c = [a, b] := by
  have hlo : 0xc2 ≤ a.toNat := UInt8.le_iff_toNat_le.mp ha.1
  have hhi : a.toNat ≤ 0xdf := UInt8.le_iff_toNat_le.mp ha.2
  rw [tail_iff] at hb
  obtain ⟨c, hc⟩ := exists_char (n := a.toNat % 32 * 64 + b.toNat % 64) (by omega)
  refine ⟨c, ?_⟩
  rw [String.utf8EncodeChar]
  simp only [hc]
  rw [if_neg (by omega), if_pos (by omega), byte_eq (b := a) (by omega), byte_eq (b := b) (by omega)]

theorem encode_three {a b c : UInt8} (hb : secondOfThree a b = true) (hc : tail c = true) :
    ∃ char : Char, String.utf8EncodeChar char = [a, b, c] := by
  rw [secondOfThree_iff] at hb
  rw [tail_iff] at hc
  obtain ⟨char, hchar⟩ := exists_char
    (n := a.toNat % 16 * 4096 + b.toNat % 64 * 64 + c.toNat % 64) (by omega)
  refine ⟨char, ?_⟩
  rw [String.utf8EncodeChar]
  simp only [hchar]
  rw [if_neg (by omega), if_neg (by omega), if_pos (by omega), byte_eq (b := a) (by omega),
    byte_eq (b := b) (by omega), byte_eq (b := c) (by omega)]

theorem encode_four {a b c d : UInt8} (hb : secondOfFour a b = true) (hc : tail c = true)
    (hd : tail d = true) : ∃ char : Char, String.utf8EncodeChar char = [a, b, c, d] := by
  rw [secondOfFour_iff] at hb
  rw [tail_iff] at hc hd
  obtain ⟨char, hchar⟩ := exists_char
    (n := a.toNat % 8 * 262144 + b.toNat % 64 * 4096 + c.toNat % 64 * 64 + d.toNat % 64) (by omega)
  refine ⟨char, ?_⟩
  rw [String.utf8EncodeChar]
  simp only [hchar]
  rw [if_neg (by omega), if_neg (by omega), if_neg (by omega), byte_eq (b := a) (by omega),
    byte_eq (b := b) (by omega), byte_eq (b := c) (by omega), byte_eq (b := d) (by omega)]

theorem toNat_byte {n : Nat} (h : n < 256) : (UInt8.ofNat n).toNat = n := by
  rw [UInt8.toNat_ofNat']
  exact Nat.mod_eq_of_lt h

/-- An encoded scalar value is read as one code point. -/
theorem fromUtf8_encode (c : Char) (rest : Bytes) :
    fromUtf8 (String.utf8EncodeChar c ++ rest) = fromUtf8 rest := by
  have hvalid : c.val.toNat < 0xd800 ∨ 0xdfff < c.val.toNat ∧ c.val.toNat < 0x110000 := c.valid
  rw [String.utf8EncodeChar]
  generalize c.val.toNat = v at hvalid ⊢
  have htail : ∀ n, tail (UInt8.ofNat (n % 0x40 + 0x80)) = true := fun n => by
    rw [tail_iff, toNat_byte (by omega)]
    omega
  split_ifs with hone htwo hthree
  · have hbyte : UInt8.ofNat v ≤ 0x7f := by
      rw [UInt8.le_iff_toNat_le, toNat_byte (by omega)]
      exact hone
    rw [List.singleton_append]
    conv_lhs => unfold fromUtf8
    rw [if_pos hbyte]
  · have hlead := toNat_byte (n := v / 64 % 0x20 + 0xc0) (by omega)
    conv_lhs => rw [List.cons_append, List.singleton_append, fromUtf8]
    simp only [UInt8.le_iff_toNat_le, hlead]
    rw [if_neg, if_pos, htail, Bool.true_and]
    · change 0xc2 ≤ _ ∧ _ ≤ 0xdf
      omega
    · change ¬ _ ≤ 0x7f
      omega
  · have hlead := toNat_byte (n := v / 4096 % 0x10 + 0xe0) (by omega)
    have hsecond : secondOfThree (UInt8.ofNat (v / 4096 % 0x10 + 0xe0))
        (UInt8.ofNat (v / 64 % 0x40 + 0x80)) = true := by
      rw [secondOfThree_iff, hlead, toNat_byte (by omega)]
      omega
    conv_lhs => rw [List.cons_append, List.cons_append, List.singleton_append, fromUtf8]
    simp only [UInt8.le_iff_toNat_le, hlead]
    rw [if_neg, if_neg, if_pos, hsecond, htail, Bool.true_and, Bool.true_and]
    · change 0xe0 ≤ _ ∧ _ ≤ 0xef
      omega
    · change ¬ (0xc2 ≤ _ ∧ _ ≤ 0xdf)
      omega
    · change ¬ _ ≤ 0x7f
      omega
  · have hlead := toNat_byte (n := v / 262144 % 0x08 + 0xf0) (by omega)
    have hsecond : secondOfFour (UInt8.ofNat (v / 262144 % 0x08 + 0xf0))
        (UInt8.ofNat (v / 4096 % 0x40 + 0x80)) = true := by
      rw [secondOfFour_iff, hlead, toNat_byte (by omega)]
      omega
    conv_lhs =>
      rw [List.cons_append, List.cons_append, List.cons_append, List.singleton_append, fromUtf8]
    simp only [UInt8.le_iff_toNat_le, hlead]
    rw [if_neg, if_neg, if_neg, if_pos, hsecond, htail, htail, Bool.true_and, Bool.true_and,
      Bool.true_and]
    · change 0xf0 ≤ _ ∧ _ ≤ 0xf4
      omega
    · change ¬ (0xe0 ≤ _ ∧ _ ≤ 0xef)
      omega
    · change ¬ (0xc2 ≤ _ ∧ _ ≤ 0xdf)
      omega
    · change ¬ _ ≤ 0x7f
      omega

theorem Encodes.cons {char : Char} {bytes rest : Bytes}
    (hchar : String.utf8EncodeChar char = bytes) (h : Encodes rest) : Encodes (bytes ++ rest) := by
  obtain ⟨chars, rfl⟩ := h
  exact ⟨char :: chars, by rw [List.flatMap_cons, hchar]⟩

/-- **What is accepted as UTF-8 are the encodings of sequences of scalar values.** -/
theorem fromUtf8_iff (bytes : Bytes) : fromUtf8 bytes = true ↔ Encodes bytes := by
  constructor
  · intro h
    fun_induction fromUtf8 bytes with
    | case1 => exact ⟨[], rfl⟩
    | case2 first rest hone ih =>
        obtain ⟨char, hchar⟩ := encode_one hone
        exact Encodes.cons hchar (ih h)
    | case3 first hone htwo b rest ih =>
        rw [Bool.and_eq_true] at h
        obtain ⟨char, hchar⟩ := encode_two htwo h.1
        exact Encodes.cons hchar (ih h.2)
    | case5 first hone htwo hthree b c rest ih =>
        rw [Bool.and_eq_true, Bool.and_eq_true] at h
        obtain ⟨char, hchar⟩ := encode_three h.1.1 h.1.2
        exact Encodes.cons hchar (ih h.2)
    | case7 first hone htwo hthree hfour b c d rest ih =>
        rw [Bool.and_eq_true, Bool.and_eq_true, Bool.and_eq_true] at h
        obtain ⟨char, hchar⟩ := encode_four h.1.1.1 h.1.1.2 h.1.2
        exact Encodes.cons hchar (ih h.2)
    | case4 => cases h
    | case6 => cases h
    | case8 => cases h
    | case9 => cases h
  · rintro ⟨chars, rfl⟩
    induction chars with
    | nil => rfl
    | cons char chars ih => rw [List.flatMap_cons, fromUtf8_encode, ih]

end Hermas.Compiler
