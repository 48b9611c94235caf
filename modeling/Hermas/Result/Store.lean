import Hermas.Base.Crc32
import Hermas.Protocol.Frame

/-!
# The store of results

The typed result of an execution is made durable before a client sees it. The
store is a file of variable-length records, one for each execution that ended
with a value.
-/

namespace Hermas.ResultStore

inductive Result where
  | ok | invalidArgument | bufferTooSmall | invalidRecord | checksumMismatch | invalidSequence
  | duplicateResult | writeError
  deriving DecidableEq, Repr

/-- `hermas_result_key` -/
structure Key where
  executionId : UInt64
  workflowId : UInt32
  imageFingerprint : UInt64
  deriving DecidableEq, Repr

/-- `hermas_result_record` -/
structure Record where
  sequence : UInt64 := 0
  key : Key
  outcome : Outcome
  sourceType : UInt16
  destinationType : UInt16
  value : Bytes
  deriving DecidableEq, Repr

def headerSize : Nat := 64

/-- `"HRS1"` -/
def magic : Bytes := [0x48, 0x52, 0x53, 0x31]

/-- `record_valid` -/
def Record.Valid (record : Record) : Prop :=
  record.sequence ≠ 0 ∧ record.key.executionId ≠ 0 ∧ record.key.workflowId ≠ 0 ∧
    record.key.imageFingerprint ≠ 0 ∧
    (record.outcome = .success ∨ record.outcome = .appError) ∧ record.sourceType ≠ 0 ∧
    record.destinationType ≠ 0 ∧ record.value.length ≤ Protocol.maxPayloadSize

instance (record : Record) : Decidable record.Valid := inferInstanceAs (Decidable (_ ∧ _))

/-- The 56 header bytes under the checksum. -/
def header (record : Record) : Bytes :=
  magic ++ (Bytes.writeU16 1 ++ (Bytes.writeU16 (UInt16.ofNat headerSize) ++
    (Bytes.writeU32 (UInt32.ofNat (headerSize + record.value.length)) ++
    (Bytes.writeU32 (UInt32.ofNat record.value.length) ++ (Bytes.writeU64 record.sequence ++
    (Bytes.writeU64 record.key.executionId ++ (Bytes.writeU32 record.key.workflowId ++
    (Bytes.writeU32 0 ++ (Bytes.writeU64 record.key.imageFingerprint ++
    (Bytes.writeU16 record.outcome.code ++ (Bytes.writeU16 record.sourceType ++
    (Bytes.writeU16 record.destinationType ++ Bytes.writeU16 0))))))))))))

/-- `hermas_result_encode` -/
def encode (record : Record) (capacity : Nat) : Except Result Bytes :=
  if ¬ record.Valid then .error .invalidRecord
  else if capacity < headerSize + record.value.length then .error .bufferTooSmall
  else .ok (header record ++ (Bytes.writeU32 (crc32 (header record ++ record.value)) ++
    (Bytes.writeU32 0 ++ record.value)))

/-- `hermas_result_decode`: the first record, and how many bytes it takes. -/
def decode (source : Bytes) : Except Result (Record × Nat) := do
  if source.length < headerSize then throw .bufferTooSmall
  let size := (source.readU32 8).toNat
  let valueLength := (source.readU32 12).toNat
  if source.take 4 ≠ magic ∨ source.readU16 4 ≠ 1 ∨
      source.readU16 6 ≠ UInt16.ofNat headerSize ∨ size ≠ headerSize + valueLength ∨
      source.length < size ∨ source.readU32 36 ≠ 0 ∨ source.readU16 54 ≠ 0 ∨
      source.readU32 60 ≠ 0 ∨ Protocol.maxPayloadSize < valueLength then
    throw .invalidRecord
  if source.readU32 56 ≠ crc32 (source.take 56 ++ source.slice headerSize valueLength) then
    throw .checksumMismatch
  let some outcome := Outcome.ofCode (source.readU16 48) | throw .invalidRecord
  let decoded : Record := {
    sequence := source.readU64 16
    key := {
      executionId := source.readU64 24
      workflowId := source.readU32 32
      imageFingerprint := source.readU64 40 }
    outcome
    sourceType := source.readU16 50
    destinationType := source.readU16 52
    value := source.slice headerSize valueLength }
  if decoded.Valid then pure (decoded, size) else throw .invalidRecord

/-- The loop of `hermas_result_find`; every record takes some bytes, so the length of the file
bounds its rounds. -/
def findFrom (key : Key) (capacity : Nat) :
    Nat → Option Record → Bytes → Except Result (Option Record)
  | 0, found, _ => .ok found
  | rounds + 1, found, bytes =>
      if bytes = [] then .ok found
      else
        match decode bytes with
        | .error e => .error e
        | .ok (candidate, size) =>
            if candidate.key ≠ key then findFrom key capacity rounds found (bytes.drop size)
            else if found.isSome then .error .duplicateResult
            else if capacity < candidate.value.length then .error .bufferTooSmall
            else findFrom key capacity rounds (some candidate) (bytes.drop size)

/-- `hermas_result_find`: the one record of a key, with its value. -/
def find (bytes : Bytes) (key : Key) (capacity : Nat) : Except Result (Option Record) :=
  findFrom key capacity bytes.length none bytes

/-- `hermas_result_writer` with the file it appends to. -/
structure Writer where
  file : Bytes := []
  nextSequence : UInt64
  deriving DecidableEq, Repr

/-- `hermas_result_writer_append` -/
def Writer.append (writer : Writer) (record : Record) (scratchCapacity : Nat) :
    Except Result Writer :=
  if writer.nextSequence = 0 ∨ writer.nextSequence = uint64Max then .error .invalidArgument
  else (encode { record with sequence := writer.nextSequence } scratchCapacity).map fun encoded =>
    { file := writer.file ++ encoded, nextSequence := writer.nextSequence + 1 }

/-! ## Nothing is lost -/

theorem length_header (record : Record) : (header record).length = 56 := by
  simp [header, magic]

/-- The fields of an encoded record stand where `decode` looks for them. -/
theorem read_header (record : Record) (rest : Bytes) :
    (header record ++ rest).take 4 = magic ∧
    (header record ++ rest).readU16 4 = 1 ∧
    (header record ++ rest).readU16 6 = UInt16.ofNat headerSize ∧
    (header record ++ rest).readU32 8 = UInt32.ofNat (headerSize + record.value.length) ∧
    (header record ++ rest).readU32 12 = UInt32.ofNat record.value.length ∧
    (header record ++ rest).readU64 16 = record.sequence ∧
    (header record ++ rest).readU64 24 = record.key.executionId ∧
    (header record ++ rest).readU32 32 = record.key.workflowId ∧
    (header record ++ rest).readU32 36 = 0 ∧
    (header record ++ rest).readU64 40 = record.key.imageFingerprint ∧
    (header record ++ rest).readU16 48 = record.outcome.code ∧
    (header record ++ rest).readU16 50 = record.sourceType ∧
    (header record ++ rest).readU16 52 = record.destinationType ∧
    (header record ++ rest).readU16 54 = 0 := by
  have hm : magic.length = 4 := rfl
  simp only [header, List.append_assoc]
  refine ⟨rfl, ?_⟩
  simp [Bytes.readU16_skip, Bytes.readU32_skip, Bytes.readU64_skip, Bytes.readU16_here,
    Bytes.readU32_here, Bytes.readU64_here, hm]

/-- **What was encoded is decoded**, whatever follows it in the file. -/
theorem decode_encode {record : Record} {capacity : Nat} {bytes : Bytes}
    (h : encode record capacity = .ok bytes) (rest : Bytes) :
    decode (bytes ++ rest) = .ok (record, headerSize + record.value.length) := by
  unfold encode at h
  split at h
  · cases h
  rename_i hvalid
  rw [not_not] at hvalid
  split at h
  · cases h
  have hbytes := (Except.ok.inj h).symm
  have hsize : record.value.length ≤ Protocol.maxPayloadSize := hvalid.2.2.2.2.2.2.2
  have hsmall : headerSize + record.value.length < 2 ^ 32 := by
    unfold Protocol.maxPayloadSize Protocol.maxPacketSize Protocol.headerSize at hsize
    unfold headerSize
    omega
  -- the value stands behind the checksum and four more bytes
  have hfull : bytes ++ rest = header record ++
      (Bytes.writeU32 (crc32 (header record ++ record.value)) ++
        (Bytes.writeU32 0 ++ (record.value ++ rest))) := by
    rw [hbytes]
    simp only [List.append_assoc]
  obtain ⟨h0, h4, h6, h8, h12, h16, h24, h32, h36, h40, h48, h50, h52, h54⟩ :=
    read_header record (Bytes.writeU32 (crc32 (header record ++ record.value)) ++
      (Bytes.writeU32 0 ++ (record.value ++ rest)))
  have h56 : (bytes ++ rest).readU32 56 = crc32 (header record ++ record.value) := by
    rw [hfull, Bytes.readU32_skip _ _ _ (by rw [length_header]), length_header]
    exact Bytes.readU32_here _ _
  have h60 : (bytes ++ rest).readU32 60 = 0 := by
    rw [hfull, Bytes.readU32_skip _ _ _ (by rw [length_header]; omega), length_header,
      Bytes.readU32_skip _ _ _ (by simp)]
    exact Bytes.readU32_here _ _
  have hheader : (bytes ++ rest).take 56 = header record := by
    rw [hfull, List.take_append_of_le_length (by rw [length_header])]
    exact List.take_of_length_le (by rw [length_header])
  have hvalue : (bytes ++ rest).slice headerSize record.value.length = record.value := by
    rw [hfull, Bytes.slice_append_right _ _ _ _ (by rw [length_header]; decide), length_header,
      Bytes.slice_append_right _ _ _ _ (by simp [headerSize]), Bytes.length_writeU32,
      Bytes.slice_append_right _ _ _ _ (by simp [headerSize]), Bytes.length_writeU32]
    simp [Bytes.slice, headerSize]
  have hlength : ((UInt32.ofNat record.value.length).toNat) = record.value.length := by
    rw [UInt32.toNat_ofNat']
    exact Nat.mod_eq_of_lt (by omega)
  have hwhole : ((UInt32.ofNat (headerSize + record.value.length)).toNat) =
      headerSize + record.value.length := by
    rw [UInt32.toNat_ofNat']
    exact Nat.mod_eq_of_lt hsmall
  have hlong : headerSize + record.value.length ≤ (bytes ++ rest).length := by
    rw [hfull]
    simp [length_header, headerSize]
    omega
  rw [← hfull] at h0 h4 h6 h8 h12 h16 h24 h32 h36 h40 h48 h50 h52 h54
  unfold decode
  simp only [h0, h4, h6, h8, h12, h16, h24, h32, h36, h40, h48, h50, h52, h54, h56, h60, hheader,
    hvalue, hlength, hwhole, Outcome.ofCode_code]
  have hshort : ¬ bytes.length + rest.length < headerSize := by
    rw [List.length_append] at hlong
    omega
  have hwhole' : ¬ bytes.length + rest.length < headerSize + record.value.length := by
    rw [List.length_append] at hlong
    omega
  simp [hvalid, hshort, hwhole', Nat.not_lt.mpr hsize, pure, Except.pure]


theorem length_encode {record : Record} {capacity : Nat} {bytes : Bytes}
    (h : encode record capacity = .ok bytes) :
    bytes.length = headerSize + record.value.length := by
  unfold encode at h
  split at h
  · cases h
  split at h
  · cases h
  rw [← Except.ok.inj h]
  simp [length_header, headerSize]
  omega

/-- The record stands somewhere in the file, and is read there. -/
def Contains (file : Bytes) (record : Record) : Prop :=
  ∃ before entry after, file = before ++ (entry ++ after) ∧
    ∀ rest, decode (entry ++ rest) = .ok (record, entry.length)

theorem Contains.append {file : Bytes} {record : Record} (h : Contains file record)
    (more : Bytes) : Contains (file ++ more) record := by
  obtain ⟨before, entry, after, hfile, hread⟩ := h
  exact ⟨before, entry, after ++ more, by rw [hfile]; simp only [List.append_assoc], hread⟩

/-- What is appended is in the file, under its number. -/
theorem append_contains {writer writer' : Writer} {record : Record} {capacity : Nat}
    (h : writer.append record capacity = .ok writer') :
    Contains writer'.file { record with sequence := writer.nextSequence } ∧
      ∃ entry, writer'.file = writer.file ++ entry := by
  unfold Writer.append at h
  split at h
  · cases h
  cases hencode : encode { record with sequence := writer.nextSequence } capacity with
  | error e => rw [hencode] at h; cases h
  | ok entry =>
      rw [hencode] at h
      obtain rfl := Except.ok.inj h
      refine ⟨⟨writer.file, entry, [], by simp, fun rest => ?_⟩, entry, rfl⟩
      rw [decode_encode hencode, length_encode hencode]

end Hermas.ResultStore
