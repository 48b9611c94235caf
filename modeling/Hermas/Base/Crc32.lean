import Hermas.Base.Bytes
import Hermas.Base.ShiftRegister

/-!
# The reflected CRC-32

One table-free implementation serves every log format: the register starts with
all ones, takes one byte at a time least significant bit first, and is inverted
at the end. It is a shift register that takes the bits of the bytes, and a string
with its own checksum behind it always leaves the same register; so an error in
such a string is seen whenever the register sees the error alone.
-/

namespace Hermas

/-- One bit of the division by the reflected polynomial. -/
def crcBit (value : UInt32) : UInt32 :=
  (value >>> 1) ^^^ (if value &&& 1 = 0 then 0 else 0xedb88320)

/-- One byte fed into the register. -/
def crcByte (value : UInt32) (byte : UInt8) : UInt32 :=
  Nat.iterate crcBit 8 (value ^^^ byte.toUInt32)

/-- The CRC-32 of a byte string. -/
def crc32 (bytes : Bytes) : UInt32 := ~~~ (bytes.foldl crcByte 0xffffffff)

example : crc32 [0x31, 0x32, 0x33, 0x34, 0x35, 0x36, 0x37, 0x38, 0x39] = 0xcbf43926 := by
  decide +kernel

/-! ## Bits -/

/-- The bits of a byte, least significant first. -/
def byteBits (byte : UInt8) : List Bool := List.ofFn fun place : Fin 8 => byte.toBitVec[place]

namespace Bytes

/-- The bits of a byte string, least significant of each byte first. -/
def bits (bytes : Bytes) : List Bool := bytes.flatMap byteBits

/-- A byte string with some of its bits changed. -/
def flip (bytes pattern : Bytes) : Bytes := List.zipWith (· ^^^ ·) bytes pattern

end Bytes

open ShiftRegister (step feed word)

theorem length_byteBits (byte : UInt8) : (byteBits byte).length = 8 := List.length_ofFn

theorem length_bits : ∀ bytes : Bytes, bytes.bits.length = 8 * bytes.length
  | [] => rfl
  | byte :: bytes => by
      rw [Bytes.bits, List.flatMap_cons, List.length_append, length_byteBits, ← Bytes.bits,
        length_bits bytes, List.length_cons]
      omega

theorem bits_append (xs ys : Bytes) : (xs ++ ys).bits = xs.bits ++ ys.bits :=
  List.flatMap_append

theorem word_byteBits (byte : UInt8) : word (byteBits byte) = byte.toNat := by
  obtain ⟨byte⟩ := byte
  revert byte
  decide

theorem byteBits_xor (a b : UInt8) :
    byteBits (a ^^^ b) = List.zipWith xor (byteBits a) (byteBits b) := by
  simp [byteBits, List.ofFn_succ]

theorem bits_flip : ∀ {bytes pattern : Bytes}, bytes.length = pattern.length →
    (bytes.flip pattern).bits = List.zipWith xor bytes.bits pattern.bits
  | [], [], _ => rfl
  | a :: bytes, b :: pattern, h => by
      have hrest := bits_flip (Nat.succ.inj h)
      have hsame : (byteBits a).length = (byteBits b).length := by
        rw [length_byteBits, length_byteBits]
      simp only [Bytes.bits, Bytes.flip, List.zipWith_cons_cons, List.flatMap_cons] at hrest ⊢
      rw [List.zipWith_append hsame, byteBits_xor, hrest]

/-! ## The register -/

/-- The reflected polynomial. -/
def polynomial : BitVec 32 := 0xedb88320

theorem crcBit_eq (value : UInt32) : (crcBit value).toBitVec = step polynomial value.toBitVec := by
  have hlow : value &&& 1 = 0 ↔ value.toBitVec.getLsbD 0 = false := by
    rw [← UInt32.toBitVec_inj, UInt32.toBitVec_and]
    have h : value.toBitVec &&& (1 : UInt32).toBitVec =
        BitVec.setWidth 32 (BitVec.ofBool (value.toBitVec.getLsbD 0)) :=
      BitVec.and_one_eq_setWidth_ofBool_getLsbD
    rw [h]
    cases value.toBitVec.getLsbD 0 <;> decide
  rw [crcBit, step, UInt32.toBitVec_xor]
  by_cases hzero : value &&& 1 = 0
  · rw [if_pos hzero, hlow.mp hzero]
    rfl
  · rw [if_neg hzero, Bool.not_eq_false _ |>.mp (mt hlow.mpr hzero)]
    rfl

theorem iterate_crcBit (k : Nat) (value : UInt32) :
    (crcBit^[k] value).toBitVec = (step polynomial)^[k] value.toBitVec := by
  induction k generalizing value with
  | zero => rfl
  | succ k ih =>
      rw [Function.iterate_succ_apply, ih, crcBit_eq, Function.iterate_succ_apply]

/-- A byte goes into the register bit by bit. -/
theorem crcByte_eq (value : UInt32) (byte : UInt8) :
    (crcByte value byte).toBitVec = feed polynomial value.toBitVec (byteBits byte) := by
  have hbyte : byte.toUInt32.toBitVec = BitVec.ofNat 32 byte.toNat := by
    apply BitVec.eq_of_toNat_eq
    simp
  rw [ShiftRegister.feed_word _ _ (by rw [length_byteBits]; decide), length_byteBits,
    word_byteBits, crcByte, iterate_crcBit, UInt32.toBitVec_xor, hbyte]

theorem foldl_crcByte : ∀ (bytes : Bytes) (value : UInt32),
    (bytes.foldl crcByte value).toBitVec = feed polynomial value.toBitVec bytes.bits
  | [], _ => rfl
  | byte :: bytes, value => by
      rw [List.foldl_cons, foldl_crcByte bytes, crcByte_eq, ← ShiftRegister.feed_append]
      rfl

theorem crc32_eq (bytes : Bytes) :
    (crc32 bytes).toBitVec = ~~~ feed polynomial (BitVec.allOnes 32) bytes.bits := by
  rw [crc32, UInt32.toBitVec_not, foldl_crcByte]
  rfl

theorem word_bits : ∀ bytes : Bytes, word bytes.bits = Bytes.ofLE bytes
  | [] => rfl
  | byte :: bytes => by
      have hbits : Bytes.bits (byte :: bytes) = byteBits byte ++ Bytes.bits bytes := rfl
      rw [hbits, ShiftRegister.word_append, word_byteBits, length_byteBits, word_bits bytes]
      rfl

/-! ## Checked strings -/

/-- The last four bytes are the checksum of the others. -/
def Checksummed (size : Nat) (bytes : Bytes) : Prop :=
  bytes.length = size + 4 ∧ bytes.readU32 size = crc32 (bytes.take size)

/-- **A string with its checksum leaves the same register** as any other. -/
theorem Checksummed.residue {size : Nat} {bytes : Bytes} (h : Checksummed size bytes) :
    feed polynomial (BitVec.allOnes 32) bytes.bits =
      (step polynomial)^[32] (BitVec.allOnes 32) := by
  obtain ⟨hlength, hsum⟩ := h
  have htail : bytes.slice size 4 = bytes.drop size := by
    rw [Bytes.slice, List.take_of_length_le]
    rw [List.length_drop]
    omega
  have hfour : (Bytes.bits (bytes.drop size)).length = 32 := by
    rw [length_bits, List.length_drop]
    omega
  have hword : BitVec.ofNat 32 (word (Bytes.bits (bytes.drop size))) =
      ~~~ feed polynomial (BitVec.allOnes 32) (Bytes.bits (bytes.take size)) := by
    rw [← crc32_eq, ← hsum, Bytes.readU32, htail, word_bits]
    rfl
  have hsplit : bytes.bits = (Bytes.bits (bytes.take size)) ++ (Bytes.bits (bytes.drop size)) := by
    rw [← bits_append, List.take_append_drop]
  rw [hsplit, ShiftRegister.feed_append, ShiftRegister.feed_word _ _ (by rw [hfour]), hfour, hword]
  congr 1
  apply BitVec.eq_of_getLsbD_eq
  intro i hi
  rw [BitVec.getLsbD_xor, BitVec.getLsbD_not, BitVec.getLsbD_allOnes, decide_eq_true hi]
  cases (feed polynomial (BitVec.allOnes 32) (Bytes.bits (bytes.take size))).getLsbD i <;> rfl

/-- **No burst within 32 bits leaves a checked string checked.** -/
theorem Checksummed.burst {size : Nat} {bytes pattern : Bytes} (h : Checksummed size bytes)
    (hlength : pattern.length = bytes.length) (hburst : ShiftRegister.Burst 32 pattern.bits)
    (hflip : Checksummed size (bytes.flip pattern)) : ∀ bit ∈ pattern.bits, bit = false := by
  have hsame : bytes.bits.length = pattern.bits.length := by
    rw [length_bits, length_bits, hlength]
  have hxor : feed polynomial (BitVec.allOnes 32 ^^^ 0) _ = _ ^^^ feed polynomial 0 _ :=
    ShiftRegister.feed_xor (BitVec.allOnes 32) 0 hsame
  rw [← bits_flip hlength.symm, show (0 : BitVec 32) = 0#32 from rfl, BitVec.xor_zero,
    hflip.residue, h.residue] at hxor
  have hpoly : polynomial.msb = true := by decide
  refine ShiftRegister.burst hpoly hburst ?_
  have hcancel := congrArg ((step polynomial)^[32] (BitVec.allOnes 32) ^^^ ·) hxor
  simp only [BitVec.xor_self, ← BitVec.xor_assoc, BitVec.zero_xor] at hcancel
  exact hcancel.symm

end Hermas
