import Hermas.Base.Check
import Hermas.Base.Crc32
import Hermas.Protocol.Frame

/-!
# Journal records

The execution journal is a file of 64-byte records. `encode` refuses a record
whose fields contradict its kind, `decode` refuses 64 bytes that no record
encodes to, and between them nothing is lost: `decode_encode` reads back every
record that was written.
-/

namespace Hermas.Journal

inductive Kind where
  | executionStarted | deliveryPrepared | deliverySent | actionSucceeded | actionFailed
  | actionUnknown | executionFinished
  deriving DecidableEq, Repr

namespace Kind

def code : Kind → UInt16
  | executionStarted => 1 | deliveryPrepared => 2 | deliverySent => 3 | actionSucceeded => 4
  | actionFailed => 5 | actionUnknown => 6 | executionFinished => 7

def ofCode (c : UInt16) : Option Kind :=
  if c = 1 then some executionStarted
  else if c = 2 then some deliveryPrepared
  else if c = 3 then some deliverySent
  else if c = 4 then some actionSucceeded
  else if c = 5 then some actionFailed
  else if c = 6 then some actionUnknown
  else if c = 7 then some executionFinished
  else none

@[simp] theorem ofCode_code (k : Kind) : ofCode k.code = some k := by cases k <;> rfl

theorem code_of_ofCode {c : UInt16} {k : Kind} (h : ofCode c = some k) : k.code = c := by
  unfold ofCode at h
  split_ifs at h <;> cases h <;> simp_all [code]

/-- `is_action_record`: the kinds that name a delivery. -/
def isAction : Kind → Bool
  | executionStarted => false
  | executionFinished => false
  | _ => true

/-- The kinds that close a delivery. -/
def IsOutcome (k : Kind) : Prop := k = actionSucceeded ∨ k = actionFailed ∨ k = actionUnknown

instance (k : Kind) : Decidable k.IsOutcome := inferInstanceAs (Decidable (_ ∨ _))

end Kind

inductive Result where
  | ok | invalidArgument | bufferTooSmall | invalidMagic | invalidVersion | invalidSize
  | invalidKind | invalidOutcome | invalidField | nonzeroReserved | checksumMismatch
  | invalidSequence | invalidTransition | capacityExhausted | writeError
  deriving DecidableEq, Repr

structure Record where
  kind : Kind
  outcome : Outcome
  sequence : UInt64 := 0
  executionId : UInt64
  workflowId : UInt32
  requestId : UInt64 := 0
  nodeId : UInt16 := 0
  appId : UInt16 := 0
  actionId : UInt16 := 0
  imageFingerprint : UInt64
  deriving DecidableEq, Repr

def recordSize : Nat := 64

/-- `"HJR1"` -/
def magic : Bytes := [0x48, 0x4a, 0x52, 0x31]

/-- The outcomes a record of a kind may carry. -/
def OutcomeValid : Kind → Outcome → Prop
  | .executionStarted, o => o = .none
  | .deliveryPrepared, o => o = .none
  | .deliverySent, o => o = .none
  | .actionSucceeded, o => o = .success
  | .actionFailed, o => o = .appError ∨ o = .notSent
  | .actionUnknown, o => o = .unknown
  | .executionFinished, o => o = .success ∨ o = .appError ∨ o = .notSent ∨ o = .unknown

instance (k : Kind) (o : Outcome) : Decidable (OutcomeValid k o) := by
  cases k <;> simp only [OutcomeValid] <;> infer_instance

def validateRecord (record : Record) : Result :=
  if ¬ OutcomeValid record.kind record.outcome then .invalidOutcome
  else if record.sequence = 0 ∨ record.executionId = 0 ∨ record.workflowId = 0 ∨
      record.imageFingerprint = 0 then .invalidField
  else if record.kind.isAction ∧ (record.requestId = 0 ∨ record.nodeId = 0 ∨
      record.appId = 0 ∨ record.actionId = 0) then .invalidField
  else if ¬ record.kind.isAction ∧ (record.requestId ≠ 0 ∨ record.nodeId ≠ 0 ∨
      record.appId ≠ 0 ∨ record.actionId ≠ 0) then .invalidField
  else .ok

def checksum (bytes : Bytes) (length : Nat) : UInt32 := crc32 (bytes.take length)

/-- The 60 bytes under the checksum. -/
def body (record : Record) : Bytes :=
  magic ++ (Bytes.writeU16 2 ++ (Bytes.writeU16 (UInt16.ofNat recordSize) ++
    (Bytes.writeU16 record.kind.code ++ (Bytes.writeU16 record.outcome.code ++
    (Bytes.writeU32 0 ++ (Bytes.writeU64 record.sequence ++ (Bytes.writeU64 record.executionId ++
    (Bytes.writeU32 record.workflowId ++ (Bytes.writeU64 record.requestId ++
    (Bytes.writeU16 record.nodeId ++ (Bytes.writeU16 record.appId ++
    (Bytes.writeU16 record.actionId ++ (Bytes.writeU16 0 ++
    Bytes.writeU64 record.imageFingerprint)))))))))))))

def encode (record : Record) : Except Result Bytes :=
  match validateRecord record with
  | .ok => .ok (body record ++ Bytes.writeU32 (checksum (body record) 60))
  | invalid => .error invalid

def decode (source : Bytes) : Except Result Record := do
  if source.length < recordSize then throw .bufferTooSmall
  if source.take 4 ≠ magic then throw .invalidMagic
  if source.readU16 4 ≠ 2 then throw .invalidVersion
  if source.readU16 6 ≠ UInt16.ofNat recordSize then throw .invalidSize
  if source.readU32 12 ≠ 0 ∨ source.readU16 50 ≠ 0 then throw .nonzeroReserved
  if source.readU32 60 ≠ checksum source 60 then throw .checksumMismatch
  let some kind := Kind.ofCode (source.readU16 8) | throw .invalidKind
  let some outcome := Outcome.ofCode (source.readU16 10) | throw .invalidOutcome
  let decoded : Record := {
    kind
    outcome
    sequence := source.readU64 16
    executionId := source.readU64 24
    workflowId := source.readU32 32
    requestId := source.readU64 36
    nodeId := source.readU16 44
    appId := source.readU16 46
    actionId := source.readU16 48
    imageFingerprint := source.readU64 52 }
  match validateRecord decoded with
  | .ok => pure decoded
  | invalid => throw invalid

/-! ## Nothing is lost -/

theorem length_body (record : Record) : (body record).length = 60 := by
  simp [body, magic]

theorem length_encode {record : Record} {bytes : Bytes} (h : encode record = .ok bytes) :
    bytes.length = recordSize := by
  unfold encode at h
  split at h
  · cases h; simp [length_body, recordSize]
  · cases h

theorem valid_of_encode {record : Record} {bytes : Bytes} (h : encode record = .ok bytes) :
    validateRecord record = .ok := by
  unfold encode at h
  split at h
  · assumption
  · cases h

theorem encode_of_valid {record : Record} (h : validateRecord record = .ok) :
    ∃ bytes, encode record = .ok bytes := by
  simp [encode, h]

/-- The fields of an encoded record stand where `decode` looks for them. -/
theorem read_body (record : Record) (rest : Bytes) :
    (body record ++ rest).take 4 = magic ∧
    (body record ++ rest).readU16 4 = 2 ∧
    (body record ++ rest).readU16 6 = UInt16.ofNat recordSize ∧
    (body record ++ rest).readU16 8 = record.kind.code ∧
    (body record ++ rest).readU16 10 = record.outcome.code ∧
    (body record ++ rest).readU32 12 = 0 ∧
    (body record ++ rest).readU64 16 = record.sequence ∧
    (body record ++ rest).readU64 24 = record.executionId ∧
    (body record ++ rest).readU32 32 = record.workflowId ∧
    (body record ++ rest).readU64 36 = record.requestId ∧
    (body record ++ rest).readU16 44 = record.nodeId ∧
    (body record ++ rest).readU16 46 = record.appId ∧
    (body record ++ rest).readU16 48 = record.actionId ∧
    (body record ++ rest).readU16 50 = 0 ∧
    (body record ++ rest).readU64 52 = record.imageFingerprint := by
  have hm : magic.length = 4 := rfl
  simp only [body, List.append_assoc]
  refine ⟨rfl, ?_⟩
  simp [Bytes.readU16_skip, Bytes.readU32_skip, Bytes.readU64_skip, Bytes.readU16_here,
    Bytes.readU32_here, Bytes.readU64_here, hm]

/-- **What was encoded is decoded.** -/
theorem decode_encode {record : Record} {bytes : Bytes} (h : encode record = .ok bytes) :
    decode bytes = .ok record := by
  have hv := valid_of_encode h
  have hlen := length_encode h
  simp only [encode, hv, Except.ok.injEq] at h
  have hsum : checksum bytes 60 = checksum (body record) 60 := by
    subst h
    rw [checksum, List.take_append_of_le_length (by rw [length_body]), ← checksum]
  have hcrc : bytes.readU32 60 = checksum bytes 60 := by
    rw [hsum, ← h, Bytes.readU32_skip _ _ _ (by rw [length_body]), length_body]
    exact Bytes.readU32_self _
  obtain ⟨h0, h4, h6, h8, h10, h12, h16, h24, h32, h36, h44, h46, h48, h50, h52⟩ :=
    read_body record (Bytes.writeU32 (checksum (body record) 60))
  rw [h] at h0 h4 h6 h8 h10 h12 h16 h24 h32 h36 h44 h46 h48 h50 h52
  simp [decode, hlen, h0, h4, h6, h8, h10, h12, h16, h24, h32, h36, h44, h46, h48, h50, h52,
    hcrc, hv]

/-- What `decode` has checked of the bytes, and where it reads the record. -/
structure Decoded (source : Bytes) (record : Record) : Prop where
  long : recordSize ≤ source.length
  magic : source.take 4 = magic
  version : source.readU16 4 = 2
  size : source.readU16 6 = UInt16.ofNat recordSize
  kind : source.readU16 8 = record.kind.code
  outcome : source.readU16 10 = record.outcome.code
  reserved : source.readU32 12 = 0
  sequence : source.readU64 16 = record.sequence
  executionId : source.readU64 24 = record.executionId
  workflowId : source.readU32 32 = record.workflowId
  requestId : source.readU64 36 = record.requestId
  nodeId : source.readU16 44 = record.nodeId
  appId : source.readU16 46 = record.appId
  actionId : source.readU16 48 = record.actionId
  reservedTail : source.readU16 50 = 0
  imageFingerprint : source.readU64 52 = record.imageFingerprint
  checksum : source.readU32 60 = checksum source 60
  valid : validateRecord record = .ok

theorem decode_ok {source : Bytes} {record : Record} (h : decode source = .ok record) :
    Decoded source record := by
  unfold decode at h
  simp only [bind, Except.bind, pure, Except.pure, throw, throwThe, MonadExceptOf.throw] at h
  repeat' split at h
  all_goals cases h
  rename_i hlong hmagic hversion hsize hreserved hsum _ kind hkind _ outcome houtcome _ hvalid
  rw [not_or, not_not, not_not] at hreserved
  exact {
    long := not_lt.mp hlong, magic := not_not.mp hmagic, version := not_not.mp hversion
    size := not_not.mp hsize, kind := (Kind.code_of_ofCode hkind).symm
    outcome := (Outcome.code_of_ofCode houtcome).symm, reserved := hreserved.1
    sequence := rfl, executionId := rfl, workflowId := rfl, requestId := rfl, nodeId := rfl
    appId := rfl, actionId := rfl, reservedTail := hreserved.2, imageFingerprint := rfl
    checksum := not_not.mp hsum, valid := hvalid }

/-- What was decoded passes the checks of `encode`. -/
theorem valid_of_decode {source : Bytes} {record : Record} (h : decode source = .ok record) :
    validateRecord record = .ok := (decode_ok h).valid

/-- The bytes under the checksum are those that were read. -/
theorem Decoded.body_eq {source : Bytes} {record : Record} (h : Decoded source record) :
    body record = source.slice 0 60 := by
  have hlong := h.long
  unfold recordSize at hlong
  rw [body, ← h.magic, ← h.version, ← h.size, ← h.kind, ← h.outcome, ← h.reserved, ← h.sequence,
    ← h.executionId, ← h.workflowId, ← h.requestId, ← h.nodeId, ← h.appId, ← h.actionId,
    ← h.reservedTail, ← h.imageFingerprint, Bytes.take_eq_slice]
  simp (disch := omega) only [Bytes.writeU16_readU16, Bytes.writeU32_readU32,
    Bytes.writeU64_readU64, Bytes.slice_append_slice]

/-- **What was decoded is encoded again**, byte for byte. -/
theorem encode_decode {source : Bytes} {record : Record} (hsize : source.length = recordSize)
    (h : decode source = .ok record) : encode record = .ok source := by
  have hdecoded := decode_ok h
  have hbody := hdecoded.body_eq
  have hsum : Bytes.writeU32 (checksum (body record) 60) = source.slice 60 4 := by
    rw [hbody, checksum, ← Bytes.take_eq_slice, List.take_take, Nat.min_self, ← checksum,
      ← hdecoded.checksum, Bytes.writeU32_readU32 _ _ (by rw [hsize]; decide)]
  have hwhole : source.slice 0 64 = source := Bytes.slice_self source 64 hsize
  rw [encode, hdecoded.valid, hsum, hbody, Bytes.slice_append_slice _ 0 60 60 4 rfl, hwhole]

/-- A decoded record can be encoded again. -/
theorem encode_of_decode {source : Bytes} {record : Record} (h : decode source = .ok record) :
    ∃ bytes, encode record = .ok bytes := encode_of_valid (valid_of_decode h)

end Hermas.Journal
