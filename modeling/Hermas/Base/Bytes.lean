import Mathlib.Data.Nat.Log
import Mathlib.Tactic.Ring

/-!
# Little-endian fields in byte strings

Every durable record and every packet is a flat byte string whose fields sit at
fixed offsets, least significant byte first. A field is read as a natural number
out of a slice and written as a fixed number of digits; the two laws that matter
are that a slice finds the piece that was put there, and that reading undoes
writing for a number that fits.
-/

namespace Hermas

/-- A byte string. -/
abbrev Bytes := List UInt8

/-- `UINT64_MAX` -/
def uint64Max : UInt64 := 0xffffffffffffffff

namespace Bytes

/-- The `count` bytes from `offset` on. -/
def slice (bytes : Bytes) (offset count : Nat) : Bytes := (bytes.drop offset).take count

/-- The number with the given little-endian digits. -/
def ofLE : Bytes → Nat
  | [] => 0
  | b :: bs => b.toNat + 256 * ofLE bs

/-- The `width` little-endian digits of a number. -/
def toLE : Nat → Nat → Bytes
  | 0, _ => []
  | width + 1, n => UInt8.ofNat n :: toLE width (n / 256)

/-- One byte; a read past the end gives zero. -/
def readU8 (bytes : Bytes) (offset : Nat) : UInt8 := bytes.getD offset 0

def readU16 (bytes : Bytes) (offset : Nat) : UInt16 := UInt16.ofNat (ofLE (slice bytes offset 2))

def readU32 (bytes : Bytes) (offset : Nat) : UInt32 := UInt32.ofNat (ofLE (slice bytes offset 4))

def readU64 (bytes : Bytes) (offset : Nat) : UInt64 := UInt64.ofNat (ofLE (slice bytes offset 8))

def writeU16 (value : UInt16) : Bytes := toLE 2 value.toNat

def writeU32 (value : UInt32) : Bytes := toLE 4 value.toNat

def writeU64 (value : UInt64) : Bytes := toLE 8 value.toNat

@[simp] theorem length_toLE (width n : Nat) : (toLE width n).length = width := by
  induction width generalizing n with
  | zero => rfl
  | succ width ih => simp [toLE, ih]

@[simp] theorem length_writeU16 (v : UInt16) : (writeU16 v).length = 2 := length_toLE _ _

@[simp] theorem length_writeU32 (v : UInt32) : (writeU32 v).length = 4 := length_toLE _ _

@[simp] theorem length_writeU64 (v : UInt64) : (writeU64 v).length = 8 := length_toLE _ _

/-- Reading back the digits of a number loses what does not fit. -/
theorem ofLE_toLE (width n : Nat) : ofLE (toLE width n) = n % 256 ^ width := by
  induction width generalizing n with
  | zero => simp [toLE, ofLE, Nat.mod_one]
  | succ width ih =>
      have hb : (UInt8.ofNat n).toNat = n % 256 := by simp
      rw [toLE, ofLE, ih, hb, pow_succ', Nat.mod_mul]

/-! ## Slices of concatenations -/

theorem slice_self (bytes : Bytes) (count : Nat) (h : bytes.length = count) :
    slice bytes 0 count = bytes := by
  subst h; simp [slice]

/-- A slice that starts behind the first piece does not see it. -/
theorem slice_append_right (a b : Bytes) (offset count : Nat) (h : a.length ≤ offset) :
    slice (a ++ b) offset count = slice b (offset - a.length) count := by
  simp [slice, List.drop_append, List.drop_eq_nil_of_le h]

/-- A slice that ends within the first piece sees only that. -/
theorem slice_append_left (a b : Bytes) (offset count : Nat) (h : offset + count ≤ a.length) :
    slice (a ++ b) offset count = slice a offset count := by
  have hd : offset ≤ a.length := by omega
  rw [slice, slice, List.drop_append_of_le_length hd, List.take_append_of_le_length]
  rw [List.length_drop]; omega

/-! ## Reading what was written -/

theorem ofNat_ofLE_writeU16 (v : UInt16) : UInt16.ofNat (ofLE (writeU16 v)) = v := by
  have hv : v.toNat < 256 ^ 2 := v.toNat_lt
  rw [writeU16, ofLE_toLE, Nat.mod_eq_of_lt hv, UInt16.ofNat_toNat]

theorem ofNat_ofLE_writeU32 (v : UInt32) : UInt32.ofNat (ofLE (writeU32 v)) = v := by
  have hv : v.toNat < 256 ^ 4 := v.toNat_lt
  rw [writeU32, ofLE_toLE, Nat.mod_eq_of_lt hv, UInt32.ofNat_toNat]

theorem ofNat_ofLE_writeU64 (v : UInt64) : UInt64.ofNat (ofLE (writeU64 v)) = v := by
  have hv : v.toNat < 256 ^ 8 := v.toNat_lt
  rw [writeU64, ofLE_toLE, Nat.mod_eq_of_lt hv, UInt64.ofNat_toNat]

theorem readU16_here (v : UInt16) (rest : Bytes) : readU16 (writeU16 v ++ rest) 0 = v := by
  rw [readU16, slice_append_left _ _ _ _ (by simp), slice_self _ _ (by simp), ofNat_ofLE_writeU16]

theorem readU32_here (v : UInt32) (rest : Bytes) : readU32 (writeU32 v ++ rest) 0 = v := by
  rw [readU32, slice_append_left _ _ _ _ (by simp), slice_self _ _ (by simp), ofNat_ofLE_writeU32]

theorem readU64_here (v : UInt64) (rest : Bytes) : readU64 (writeU64 v ++ rest) 0 = v := by
  rw [readU64, slice_append_left _ _ _ _ (by simp), slice_self _ _ (by simp), ofNat_ofLE_writeU64]

theorem readU32_self (v : UInt32) : readU32 (writeU32 v) 0 = v := by
  rw [readU32, slice_self _ _ (by simp), ofNat_ofLE_writeU32]

theorem readU16_skip (a b : Bytes) (offset : Nat) (h : a.length ≤ offset) :
    readU16 (a ++ b) offset = readU16 b (offset - a.length) := by
  rw [readU16, slice_append_right _ _ _ _ h, readU16]

theorem readU32_skip (a b : Bytes) (offset : Nat) (h : a.length ≤ offset) :
    readU32 (a ++ b) offset = readU32 b (offset - a.length) := by
  rw [readU32, slice_append_right _ _ _ _ h, readU32]

theorem readU64_skip (a b : Bytes) (offset : Nat) (h : a.length ≤ offset) :
    readU64 (a ++ b) offset = readU64 b (offset - a.length) := by
  rw [readU64, slice_append_right _ _ _ _ h, readU64]

/-- A field in front of a cut is read as before. -/
theorem readU32_take (bytes : Bytes) {offset count : Nat} (h : offset + 4 ≤ count) :
    readU32 (bytes.take count) offset = readU32 bytes offset := by
  have hle : 4 ≤ count - offset := by omega
  rw [readU32, readU32, slice, slice, List.drop_take, List.take_take, Nat.min_eq_left hle]

/-! ## Writing what was read -/

theorem length_slice (bytes : Bytes) (offset count : Nat) (h : offset + count ≤ bytes.length) :
    (slice bytes offset count).length = count := by
  rw [slice, List.length_take, List.length_drop]
  omega

theorem ofLE_lt (bytes : Bytes) : ofLE bytes < 256 ^ bytes.length := by
  induction bytes with
  | nil => decide
  | cons b bs ih =>
      have hb : b.toNat < 256 := b.toNat_lt
      rw [ofLE, List.length_cons, pow_succ']
      omega

/-- The digits of a number that was read are the bytes it was read from. -/
theorem toLE_ofLE (bytes : Bytes) : toLE bytes.length (ofLE bytes) = bytes := by
  induction bytes with
  | nil => rfl
  | cons b bs ih =>
      have hb : b.toNat < 256 := b.toNat_lt
      have hlow : UInt8.ofNat (b.toNat + 256 * ofLE bs) = b := by
        apply UInt8.toNat_inj.mp
        rw [UInt8.toNat_ofNat']
        omega
      have hhigh : (b.toNat + 256 * ofLE bs) / 256 = ofLE bs := by omega
      rw [List.length_cons, ofLE, toLE, hlow, hhigh, ih]

/-- A field of a width that its type holds. -/
theorem toLE_slice (bytes : Bytes) (offset width : Nat) (h : offset + width ≤ bytes.length) :
    ofLE (slice bytes offset width) < 256 ^ width ∧
      toLE width (ofLE (slice bytes offset width)) = slice bytes offset width := by
  have hlen := length_slice bytes offset width h
  have hlt := ofLE_lt (slice bytes offset width)
  have hle := toLE_ofLE (slice bytes offset width)
  rw [hlen] at hlt hle
  exact ⟨hlt, hle⟩

theorem writeU16_readU16 (bytes : Bytes) (offset : Nat) (h : offset + 2 ≤ bytes.length) :
    writeU16 (readU16 bytes offset) = slice bytes offset 2 := by
  obtain ⟨hlt, hle⟩ := toLE_slice bytes offset 2 h
  rw [writeU16, readU16, UInt16.toNat_ofNat_of_lt' hlt, hle]

theorem writeU32_readU32 (bytes : Bytes) (offset : Nat) (h : offset + 4 ≤ bytes.length) :
    writeU32 (readU32 bytes offset) = slice bytes offset 4 := by
  obtain ⟨hlt, hle⟩ := toLE_slice bytes offset 4 h
  rw [writeU32, readU32, UInt32.toNat_ofNat_of_lt' hlt, hle]

theorem writeU64_readU64 (bytes : Bytes) (offset : Nat) (h : offset + 8 ≤ bytes.length) :
    writeU64 (readU64 bytes offset) = slice bytes offset 8 := by
  obtain ⟨hlt, hle⟩ := toLE_slice bytes offset 8 h
  rw [writeU64, readU64, UInt64.toNat_ofNat_of_lt' hlt, hle]

/-- Two slices that meet are one. -/
theorem slice_append_slice (bytes : Bytes) (offset a next b : Nat) (h : offset + a = next) :
    slice bytes offset a ++ slice bytes next b = slice bytes offset (a + b) := by
  subst h
  rw [slice, slice, slice, ← List.drop_drop, ← List.take_add]

theorem take_eq_slice (bytes : Bytes) (count : Nat) : bytes.take count = slice bytes 0 count := rfl

/-- A slice up to the end is what is left there. -/
theorem slice_append_drop (bytes : Bytes) (count : Nat) :
    slice bytes 0 count ++ bytes.drop count = bytes := List.take_append_drop count bytes

/-! ## Fixed-size records -/

/-- The first `count` records of `size` bytes each. -/
def records (size : Nat) : Nat → Bytes → List Bytes
  | 0, _ => []
  | count + 1, bytes => bytes.take size :: records size count (bytes.drop size)

@[simp] theorem records_zero (size : Nat) (bytes : Bytes) : records size 0 bytes = [] := rfl

@[simp] theorem length_records (size count : Nat) (bytes : Bytes) :
    (records size count bytes).length = count := by
  induction count generalizing bytes with
  | zero => rfl
  | succ count ih => rw [records, List.length_cons, ih]

theorem length_of_mem_records {size count : Nat} {bytes record : Bytes}
    (hlen : size * count ≤ bytes.length) (h : record ∈ records size count bytes) :
    record.length = size := by
  induction count generalizing bytes with
  | zero => simp at h
  | succ count ih =>
      rw [Nat.mul_succ] at hlen
      rcases List.mem_cons.mp h with rfl | h
      · rw [List.length_take]; omega
      · exact ih (by rw [List.length_drop]; omega) h

/-- Splitting a concatenation at a record boundary. -/
theorem records_append {size : Nat} (count more : Nat) (a b : Bytes)
    (h : a.length = size * count) :
    records size (count + more) (a ++ b) = records size count a ++ records size more b := by
  induction count generalizing a with
  | zero =>
      have ha : a = [] := List.length_eq_zero_iff.mp (by simpa using h)
      simp [ha]
  | succ count ih =>
      rw [Nat.mul_succ] at h
      have hs : size ≤ a.length := by omega
      rw [show count + 1 + more = (count + more) + 1 by omega, records, records,
        List.take_append_of_le_length hs, List.drop_append_of_le_length hs,
        ih (a.drop size) (by rw [List.length_drop]; omega), List.cons_append]

/-- Records laid end to end are found again. -/
theorem records_flatten {size : Nat} (rs : List Bytes) (h : ∀ r ∈ rs, r.length = size) :
    records size rs.length rs.flatten = rs := by
  induction rs with
  | nil => rfl
  | cons r rs ih =>
      have hr : r.length = size := h r (by simp)
      rw [List.length_cons, records, List.flatten_cons, ← hr, List.take_left', List.drop_left',
        hr, ih (fun x hx => h x (by simp [hx]))] <;> rfl

/-- A byte string is its records laid end to end. -/
theorem flatten_records {size : Nat} : ∀ {count : Nat} {bytes : Bytes},
    bytes.length = size * count → (records size count bytes).flatten = bytes := by
  intro count
  induction count with
  | zero =>
      intro bytes hlength
      exact (List.length_eq_zero_iff.mp hlength).symm
  | succ count ih =>
      intro bytes hlength
      rw [Nat.mul_succ] at hlength
      have hrest : (records size count (bytes.drop size)).flatten = bytes.drop size :=
        ih (by rw [List.length_drop]; omega)
      rw [records, List.flatten_cons, hrest, List.take_append_drop]

theorem length_flatten_records {size : Nat} (rs : List Bytes) (h : ∀ r ∈ rs, r.length = size) :
    rs.flatten.length = size * rs.length := by
  induction rs with
  | nil => simp
  | cons r rs ih =>
      rw [List.flatten_cons, List.length_append, ih (fun x hx => h x (by simp [hx])),
        h r (by simp), List.length_cons, Nat.mul_succ]
      omega

end Bytes

end Hermas
