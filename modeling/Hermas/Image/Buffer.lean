import Hermas.Compiler.Utf8

/-!
# UTF-8 as the daemon scans it

`valid_utf8` walks a buffer by index: it reads a leading byte, checks that the
buffer holds the bytes that the leading byte announces, and shifts them into a
code point. A read is modelled with the check that the code leaves out: behind the
size of the buffer there is no byte. The scan never asks for one, and what it
accepts are the encodings of sequences of Unicode scalar values.
-/

namespace Hermas.Image

/-! ## The scan -/

/-- A pointer into memory and the number of bytes that may be read there. -/
structure Buffer where
  bytes : Nat → UInt8
  size : Nat

namespace Buffer

/-- The bytes of the buffer. -/
def content (buffer : Buffer) : Bytes := (List.range buffer.size).map buffer.bytes

/-- `bytes[index]`: nothing at or past the size. -/
def read (buffer : Buffer) (index : Nat) : Option UInt8 :=
  if index < buffer.size then some (buffer.bytes index) else none

/-- What a leading byte above ASCII says: its bits of the code point and the number of
continuation bytes. -/
def lead (first : UInt8) : Option (UInt32 × Nat) :=
  if 0xc2 ≤ first ∧ first ≤ 0xdf then some ((first &&& 0x1f).toUInt32, 1)
  else if 0xe0 ≤ first ∧ first ≤ 0xef then some ((first &&& 0x0f).toUInt32, 2)
  else if 0xf0 ≤ first ∧ first ≤ 0xf4 then some ((first &&& 0x07).toUInt32, 3)
  else none

/-- The loop over the continuation bytes. The outer option is a read outside of the buffer, the
inner one a byte that does not continue. -/
def readTails (buffer : Buffer) : Nat → Nat → UInt32 → Option (Option (Nat × UInt32))
  | 0, index, codepoint => some (some (index, codepoint))
  | count + 1, index, codepoint => do
      let next ← buffer.read index
      if continuation next then
        buffer.readTails count (index + 1) (appendBits codepoint next)
      else return none

/-- A code point that its number of bytes, the surrogates or the last code point rule out. -/
def ruledOut (count : Nat) (codepoint : UInt32) : Bool :=
  (count == 2 && codepoint < 0x800) || (count == 3 && codepoint < 0x10000) ||
    (0xd800 ≤ codepoint && codepoint ≤ 0xdfff) || 0x10ffff < codepoint

/-- The loop over the code points, with a bound on its rounds: `none` when they run out and
when a read leaves the buffer. -/
def scan (buffer : Buffer) : Nat → Nat → Option Bool
  | 0, _ => none
  | rounds + 1, index =>
      if index < buffer.size then do
        let first ← buffer.read index
        if first ≤ 0x7f then buffer.scan rounds (index + 1)
        else
          match lead first with
          | none => return false
          | some (codepoint, count) =>
              if buffer.size - (index + 1) < count then return false
              else
                match ← buffer.readTails count (index + 1) codepoint with
                | none => return false
                | some (index, codepoint) =>
                    if ruledOut count codepoint then return false
                    else buffer.scan rounds index
      else return true

/-- `valid_utf8` -/
def validUtf8 (buffer : Buffer) : Option Bool := buffer.scan (buffer.size + 1) 0

variable {buffer : Buffer} {index : Nat}

@[simp] theorem length_content : buffer.content.length = buffer.size := by simp [content]

theorem read_inside (h : index < buffer.size) : buffer.read index = some (buffer.bytes index) :=
  if_pos h

theorem content_drop (h : index < buffer.size) :
    buffer.content.drop index = buffer.bytes index :: buffer.content.drop (index + 1) := by
  rw [List.drop_eq_getElem_cons (by simpa using h)]
  simp [content]

theorem content_drop_of_le (h : buffer.size ≤ index) : buffer.content.drop index = [] :=
  List.drop_eq_nil_of_le (by simpa using h)

/-- One continuation byte that the buffer holds. -/
theorem readTails_succ (count : Nat) (codepoint : UInt32) (h : index < buffer.size) :
    buffer.readTails (count + 1) index codepoint =
      if continuation (buffer.bytes index) then
        buffer.readTails count (index + 1) (appendBits codepoint (buffer.bytes index))
      else some none := by
  rw [readTails, read_inside h]
  rfl

theorem readTails_one (codepoint : UInt32) (h : index < buffer.size) :
    buffer.readTails 1 index codepoint =
      some (if continuation (buffer.bytes index) then
        some (index + 1, appendBits codepoint (buffer.bytes index)) else none) := by
  rw [readTails_succ 0 codepoint h, readTails]
  split <;> rfl

theorem readTails_two (codepoint : UInt32) (h : index + 1 < buffer.size) :
    buffer.readTails 2 index codepoint =
      some (if continuation (buffer.bytes index) && continuation (buffer.bytes (index + 1)) then
        some (index + 1 + 1, appendBits (appendBits codepoint (buffer.bytes index))
          (buffer.bytes (index + 1))) else none) := by
  rw [readTails_succ 1 codepoint (by omega), readTails_one _ h]
  cases continuation (buffer.bytes index) <;> rfl

theorem readTails_three (codepoint : UInt32) (h : index + 1 + 1 < buffer.size) :
    buffer.readTails 3 index codepoint =
      some (if continuation (buffer.bytes index) && continuation (buffer.bytes (index + 1)) &&
          continuation (buffer.bytes (index + 1 + 1)) then
        some (index + 1 + 1 + 1, appendBits (appendBits (appendBits codepoint (buffer.bytes index))
          (buffer.bytes (index + 1))) (buffer.bytes (index + 1 + 1))) else none) := by
  rw [readTails_succ 2 codepoint (by omega), readTails_two _ h]
  cases continuation (buffer.bytes index) <;> rfl

/-- What is done with the continuation bytes that were read. -/
def settle (buffer : Buffer) (rounds count : Nat) : Option (Nat × UInt32) → Option Bool
  | none => some false
  | some (index, codepoint) =>
      if ruledOut count codepoint then some false else buffer.scan rounds index

theorem settle_eq {rounds count more : Nat} {rest : Bool} (read : Bool) (codepoint : UInt32)
    (h : buffer.scan rounds more = some rest) :
    buffer.settle rounds count (if read then some (more, codepoint) else none) =
      some (read && !ruledOut count codepoint && rest) := by
  cases read with
  | false => rfl
  | true =>
      rw [if_pos rfl, settle, h]
      cases ruledOut count codepoint <;> rfl

/-- A code point of several bytes: they are read and settled if the buffer holds them. -/
theorem scan_long {rounds count : Nat} {codepoint : UInt32} (h : index < buffer.size)
    (hone : ¬ buffer.bytes index ≤ 0x7f) (hlead : lead (buffer.bytes index) = some (codepoint, count)) :
    buffer.scan (rounds + 1) index =
      if buffer.size - (index + 1) < count then some false
      else (buffer.readTails count (index + 1) codepoint).bind (buffer.settle rounds count) := by
  rw [scan, if_pos h, read_inside h]
  simp only [Option.bind_eq_bind, Option.bind_some, if_neg hone, hlead]
  rfl

theorem not_ruledOut (count : Nat) (codepoint : UInt32) :
    (!ruledOut count codepoint) = (!(count == 2 && codepoint < 0x800) &&
      !(count == 3 && codepoint < 0x10000) && scalar codepoint) := by
  have hlast : (decide (0x10ffff < codepoint)) = !decide (codepoint ≤ 0x10ffff) := by
    rw [← decide_not, decide_eq_decide, UInt32.not_le]
  simp only [ruledOut, scalar, Bool.not_or, hlast, Bool.not_not, Bool.and_assoc]

/-- **The scan stays inside of the buffer and accepts what `Image.validUtf8` accepts.** -/
theorem scan_eq : ∀ (rounds : Nat) {index : Nat}, index ≤ buffer.size →
    buffer.size - index < rounds →
      buffer.scan rounds index = some (Image.validUtf8 (buffer.content.drop index))
  | 0, _, _, h => absurd h (Nat.not_lt_zero _)
  | rounds + 1, index, hindex, hrounds => by
      by_cases hinside : index < buffer.size
      case neg =>
        rw [scan, if_neg hinside, content_drop_of_le (Nat.le_of_not_lt hinside)]
        rfl
      have hnext : ∀ {more}, more ≤ buffer.size → index < more →
          buffer.scan rounds more = some (Image.validUtf8 (buffer.content.drop more)) :=
        fun hmore hlt => scan_eq rounds hmore (by omega)
      rw [content_drop hinside]
      unfold Image.validUtf8
      by_cases hone : buffer.bytes index ≤ 0x7f
      · rw [scan, if_pos hinside, read_inside hinside, if_pos hone]
        simp only [Option.bind_eq_bind, Option.bind_some, if_pos hone]
        exact hnext hinside (Nat.lt_succ_self _)
      rw [if_neg hone]
      split_ifs with htwo hthree hfour
      · rw [scan_long hinside hone (if_pos htwo)]
        split_ifs with hshort
        · rw [content_drop_of_le (by omega)]
        · have hb : index + 1 < buffer.size := by omega
          rw [readTails_one _ hb, Option.bind_some, settle_eq _ _ (hnext hb (by omega)),
            content_drop hb, not_ruledOut]
          rfl
      · have hlead : lead (buffer.bytes index) = some ((buffer.bytes index &&& 0x0f).toUInt32, 2) := by
          rw [lead, if_neg htwo, if_pos hthree]
        rw [scan_long hinside hone hlead]
        split_ifs with hshort
        · by_cases hb : index + 1 < buffer.size
          · rw [content_drop hb, content_drop_of_le (by omega)]
          · rw [content_drop_of_le (Nat.le_of_not_lt hb)]
        · have hb : index + 1 < buffer.size := by omega
          have hc : index + 1 + 1 < buffer.size := by omega
          rw [readTails_two _ hc, Option.bind_some, settle_eq _ _ (hnext hc (by omega)),
            content_drop hb, content_drop hc, not_ruledOut]
          simp [Bool.and_assoc]
      · have hlead : lead (buffer.bytes index) = some ((buffer.bytes index &&& 0x07).toUInt32, 3) := by
          rw [lead, if_neg htwo, if_neg hthree, if_pos hfour]
        rw [scan_long hinside hone hlead]
        split_ifs with hshort
        · by_cases hb : index + 1 < buffer.size
          · by_cases hc : index + 1 + 1 < buffer.size
            · rw [content_drop hb, content_drop hc, content_drop_of_le (by omega)]
            · rw [content_drop hb, content_drop_of_le (Nat.le_of_not_lt hc)]
          · rw [content_drop_of_le (Nat.le_of_not_lt hb)]
        · have hb : index + 1 < buffer.size := by omega
          have hc : index + 1 + 1 < buffer.size := by omega
          have hd : index + 1 + 1 + 1 < buffer.size := by omega
          rw [readTails_three _ hd, Option.bind_some, settle_eq _ _ (hnext hd (by omega)),
            content_drop hb, content_drop hc, content_drop hd, not_ruledOut]
          simp [Bool.and_assoc]
      · rw [scan, if_pos hinside, read_inside hinside]
        simp only [Option.bind_eq_bind, Option.bind_some, if_neg hone, lead, if_neg htwo,
          if_neg hthree, if_neg hfour, Option.pure_def]

theorem validUtf8_eq (buffer : Buffer) :
    buffer.validUtf8 = some (Image.validUtf8 buffer.content) := by
  rw [validUtf8, scan_eq _ (Nat.zero_le _) (by omega), List.drop_zero]

/-- **The scan comes to an end without a read outside of the buffer, and says whether the buffer
holds the encoding of a sequence of Unicode scalar values.** -/
theorem validUtf8_scalars (buffer : Buffer) : ∃ accepted, buffer.validUtf8 = some accepted ∧
    (accepted = true ↔ ∃ chars : List Char, buffer.content = chars.flatMap String.utf8EncodeChar) := by
  refine ⟨_, buffer.validUtf8_eq, ?_⟩
  rw [Compiler.validUtf8_eq]
  exact Compiler.fromUtf8_iff buffer.content

/-- A sequence that the buffer cuts off: the byte behind the size is there, and is not read. -/
example : Buffer.validUtf8 ⟨fun index => [0x61, 0xc3, 0xa9].getD index 0, 2⟩ = some false := by
  decide

example : Buffer.validUtf8 ⟨fun index => [0x61, 0xc3, 0xa9].getD index 0, 3⟩ = some true := by
  decide

end Buffer

end Hermas.Image
