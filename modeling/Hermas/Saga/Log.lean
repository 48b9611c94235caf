import Hermas.Base.Crc32
import Hermas.Protocol.Frame

/-!
# Saga log records

The compensation of one execution is journaled in a log of its own, in 64-byte
records: that it started, each reverse delivery with its phases, and how it
finished. The writer numbers and encodes a record; what it wrote is kept as the
records themselves, of which the file is the concatenated encoding.
-/

namespace Hermas.Saga

def maxSteps : Nat := 16

namespace Log

inductive Kind where
  | started | deliveryPrepared | deliverySent | stepSucceeded | stepFailed | stepUnknown | finished
  deriving DecidableEq, Repr

namespace Kind

def code : Kind → UInt16
  | started => 1 | deliveryPrepared => 2 | deliverySent => 3 | stepSucceeded => 4
  | stepFailed => 5 | stepUnknown => 6 | finished => 7

def ofCode (c : UInt16) : Option Kind :=
  if c = 1 then some started
  else if c = 2 then some deliveryPrepared
  else if c = 3 then some deliverySent
  else if c = 4 then some stepSucceeded
  else if c = 5 then some stepFailed
  else if c = 6 then some stepUnknown
  else if c = 7 then some finished
  else none

@[simp] theorem ofCode_code (k : Kind) : ofCode k.code = some k := by cases k <;> rfl

theorem code_of_ofCode {c : UInt16} {k : Kind} (h : ofCode c = some k) : k.code = c := by
  unfold ofCode at h
  split_ifs at h <;> cases h <;> simp_all [code]

/-- `action_kind`: the kinds that name a reverse delivery. -/
def isAction : Kind → Bool
  | started => false
  | finished => false
  | _ => true

end Kind

inductive Result where
  | ok | invalidArgument | bufferTooSmall | invalidRecord | checksumMismatch | invalidSequence
  | invalidTransition | capacityExhausted | writeError
  deriving DecidableEq, Repr

structure Record where
  kind : Kind
  outcome : Outcome
  sequence : UInt64 := 0
  executionId : UInt64
  workflowId : UInt32
  requestId : UInt64 := 0
  forwardNode : UInt16 := 0
  appId : UInt16 := 0
  actionId : UInt16 := 0
  ordinal : UInt16 := 0
  imageFingerprint : UInt64
  deriving DecidableEq, Repr

def recordSize : Nat := 64

/-- `"HSG1"` -/
def magic : Bytes := [0x48, 0x53, 0x47, 0x31]

/-- The outcomes a record of a kind may carry. -/
def OutcomeValid : Kind → Outcome → Prop
  | .started, o => o = .appError ∨ o = .notSent
  | .deliveryPrepared, o => o = .none
  | .deliverySent, o => o = .none
  | .stepSucceeded, o => o = .success
  | .stepFailed, o => o = .appError ∨ o = .notSent
  | .stepUnknown, o => o = .unknown
  | .finished, o => o = .success ∨ o = .appError ∨ o = .notSent ∨ o = .unknown

instance (k : Kind) (o : Outcome) : Decidable (OutcomeValid k o) := by
  cases k <;> simp only [OutcomeValid] <;> infer_instance

/-- `validate` -/
def validateRecord (record : Record) : Result :=
  let routePresent := record.requestId ≠ 0 ∧ record.forwardNode ≠ 0 ∧ record.appId ≠ 0 ∧
    record.actionId ≠ 0 ∧ record.ordinal ≠ 0 ∧ record.ordinal.toNat ≤ maxSteps
  let routeAbsent := record.requestId = 0 ∧ record.forwardNode = 0 ∧ record.appId = 0 ∧
    record.actionId = 0
  if record.sequence = 0 ∨ record.executionId = 0 ∨ record.workflowId = 0 ∨
      record.imageFingerprint = 0 then .invalidRecord
  else if ¬ OutcomeValid record.kind record.outcome then .invalidRecord
  else if (record.kind.isAction ∧ ¬ routePresent) ∨
      (record.kind = .finished ∧ ¬ (routeAbsent ∧ record.ordinal = 0)) ∨
      (record.kind = .started ∧ ¬ (routeAbsent ∧ record.ordinal ≠ 0 ∧
        record.ordinal.toNat ≤ maxSteps)) then .invalidRecord
  else .ok

/-- The 60 bytes under the checksum. -/
def body (record : Record) : Bytes :=
  magic ++ (Bytes.writeU16 1 ++ (Bytes.writeU16 (UInt16.ofNat recordSize) ++
    (Bytes.writeU16 record.kind.code ++ (Bytes.writeU16 record.outcome.code ++
    (Bytes.writeU32 0 ++ (Bytes.writeU64 record.sequence ++ (Bytes.writeU64 record.executionId ++
    (Bytes.writeU32 record.workflowId ++ (Bytes.writeU64 record.requestId ++
    (Bytes.writeU16 record.forwardNode ++ (Bytes.writeU16 record.appId ++
    (Bytes.writeU16 record.actionId ++ (Bytes.writeU16 record.ordinal ++
    Bytes.writeU64 record.imageFingerprint)))))))))))))

/-- `hermas_saga_log_encode` -/
def encode (record : Record) : Except Result Bytes :=
  match validateRecord record with
  | .ok => .ok (body record ++ Bytes.writeU32 (crc32 (body record)))
  | invalid => .error invalid

/-- `hermas_saga_log_decode` -/
def decode (source : Bytes) : Except Result Record := do
  if source.length < recordSize then throw .bufferTooSmall
  if source.take 4 ≠ magic ∨ source.readU16 4 ≠ 1 ∨ source.readU16 6 ≠ UInt16.ofNat recordSize ∨
      source.readU32 12 ≠ 0 then
    throw .invalidRecord
  if source.readU32 60 ≠ crc32 (source.take 60) then throw .checksumMismatch
  let some kind := Kind.ofCode (source.readU16 8) | throw .invalidRecord
  let some outcome := Outcome.ofCode (source.readU16 10) | throw .invalidRecord
  let decoded : Record := {
    kind
    outcome
    sequence := source.readU64 16
    executionId := source.readU64 24
    workflowId := source.readU32 32
    requestId := source.readU64 36
    forwardNode := source.readU16 44
    appId := source.readU16 46
    actionId := source.readU16 48
    ordinal := source.readU16 50
    imageFingerprint := source.readU64 52 }
  match validateRecord decoded with
  | .ok => pure decoded
  | invalid => throw invalid

/-- `hermas_saga_log_writer`, with the records that its callback has written. -/
structure Writer where
  written : List Record := []
  nextSequence : UInt64
  deriving DecidableEq, Repr

/-- `hermas_saga_log_writer_append` -/
def Writer.append (writer : Writer) (record : Record) : Except Result Writer :=
  if writer.nextSequence = 0 ∨ writer.nextSequence = uint64Max then .error .invalidArgument
  else
    let record := { record with sequence := writer.nextSequence }
    (encode record).map fun _ =>
      { written := writer.written ++ [record], nextSequence := writer.nextSequence + 1 }

theorem append_ok {w w' : Writer} {r : Record} (h : w.append r = .ok w') :
    w'.written = w.written ++ [{ r with sequence := w.nextSequence }] ∧
      validateRecord { r with sequence := w.nextSequence } = .ok ∧
      w'.nextSequence = w.nextSequence + 1 := by
  unfold Writer.append at h
  split at h
  · cases h
  · simp only [encode] at h
    split at h
    · rename_i hv
      cases h
      exact ⟨rfl, hv, rfl⟩
    · cases h

end Log

end Hermas.Saga
