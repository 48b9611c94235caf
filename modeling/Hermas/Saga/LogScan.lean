import Hermas.Base.Table
import Hermas.Saga.Log

/-!
# The saga log scanner

Startup reads the saga log as it reads the journal: record after record, one entry
for each compensation that has started and not finished. An entry knows the next
ordinal to undo and the phase of the one delivery that may be open.
-/

namespace Hermas.Saga.Log

def maxActive : Nat := 16

/-- `hermas_saga_log_active` -/
structure Active where
  executionId : UInt64 := 0
  workflowId : UInt32 := 0
  imageFingerprint : UInt64 := 0
  requestId : UInt64 := 0
  forwardNode : UInt16 := 0
  appId : UInt16 := 0
  actionId : UInt16 := 0
  nextOrdinal : UInt16 := 0
  terminalOutcome : Outcome := .none
  hasOpenDelivery : Bool := false
  deliveryWasSent : Bool := false
  deriving DecidableEq, Repr

/-- `delivery_state` -/
inductive DeliveryState where
  | none | prepared | sent
  deriving DecidableEq, Repr

/-- `scan_active` -/
structure ScanActive where
  value : Active := {}
  delivery : DeliveryState := .none
  terminal : Bool := false
  active : Bool := false
  deriving DecidableEq, Repr

abbrev Entries := Fin maxActive → ScanActive

/-- `find_active` -/
def findActive (entries : Entries) (executionId : UInt64) : Option (Fin maxActive) :=
  firstIndex fun i => (entries i).active && (entries i).value.executionId == executionId

/-- `route_matches` -/
def routeMatches (active : Active) (record : Record) : Bool :=
  active.requestId == record.requestId && active.forwardNode == record.forwardNode &&
    active.appId == record.appId && active.actionId == record.actionId &&
    active.nextOrdinal == record.ordinal

/-- What a `DeliveryPrepared` does to its entry. -/
def transitionPrepared (entry : ScanActive) (record : Record) : Except Result ScanActive :=
  if entry.delivery ≠ .none ∨ entry.terminal ∨ record.ordinal ≠ entry.value.nextOrdinal then
    .error .invalidTransition
  else
    .ok { entry with
      delivery := .prepared
      value := { entry.value with
        hasOpenDelivery := true
        deliveryWasSent := false
        requestId := record.requestId
        forwardNode := record.forwardNode
        appId := record.appId
        actionId := record.actionId } }

/-- What a `DeliverySent` does. -/
def transitionSent (entry : ScanActive) (record : Record) : Except Result ScanActive :=
  if entry.delivery ≠ .prepared ∨ ¬ routeMatches entry.value record then .error .invalidTransition
  else .ok { entry with delivery := .sent, value := { entry.value with deliveryWasSent := true } }

/-- The phase in which a delivery may be closed by a record. -/
def closes (delivery : DeliveryState) (record : Record) : Bool :=
  (record.kind == .stepSucceeded && delivery == .sent) ||
    (record.kind == .stepFailed && ((record.outcome == .appError && delivery == .sent) ||
      (record.outcome == .notSent && delivery == .prepared))) ||
    (record.kind == .stepUnknown && delivery != .none)

/-- What a record that closes the delivery does. -/
def transitionClosed (entry : ScanActive) (record : Record) : Except Result ScanActive :=
  if ¬ routeMatches entry.value record ∨ ¬ closes entry.delivery record then
    .error .invalidTransition
  else if record.kind = .stepSucceeded then
    .ok { entry with
      delivery := .none
      value := { entry.value with
        hasOpenDelivery := false
        deliveryWasSent := false
        nextOrdinal := entry.value.nextOrdinal - 1
        requestId := 0
        forwardNode := 0
        appId := 0
        actionId := 0 } }
  else
    .ok { entry with
      delivery := .none
      terminal := true
      value := { entry.value with
        hasOpenDelivery := false
        deliveryWasSent := false
        terminalOutcome := record.outcome } }

/-- What a `Finished` does: the entry is cleared. -/
def transitionFinished (entry : ScanActive) (record : Record) : Except Result ScanActive :=
  let success : Bool := !entry.terminal && entry.value.nextOrdinal == 0 && record.outcome == .success
  let failed : Bool := entry.terminal && entry.value.terminalOutcome == record.outcome
  if entry.delivery ≠ .none ∨ (¬ success ∧ ¬ failed) then .error .invalidTransition else .ok {}

/-- The transition of a compensation that is already known. -/
def transitionKnown (entry : ScanActive) (record : Record) : Except Result ScanActive :=
  match record.kind with
  | .started => .error .invalidTransition
  | .deliveryPrepared => transitionPrepared entry record
  | .deliverySent => transitionSent entry record
  | .stepSucceeded => transitionClosed entry record
  | .stepFailed => transitionClosed entry record
  | .stepUnknown => transitionClosed entry record
  | .finished => transitionFinished entry record

/-- `transition` -/
def transition (entries : Entries) (record : Record) : Except Result Entries :=
  if record.kind = .started then
    match findActive entries record.executionId with
    | some _ => .error .invalidTransition
    | none =>
        match firstIndex fun i => !(entries i).active with
        | some i => .ok (Function.update entries i { entries i with
            active := true
            value := { (entries i).value with
              executionId := record.executionId
              workflowId := record.workflowId
              imageFingerprint := record.imageFingerprint
              nextOrdinal := record.ordinal } })
        | none => .error .capacityExhausted
  else
    match findActive entries record.executionId with
    | none => .error .invalidTransition
    | some i =>
        if (entries i).value.workflowId ≠ record.workflowId ∨
            (entries i).value.imageFingerprint ≠ record.imageFingerprint then
          .error .invalidTransition
        else (transitionKnown (entries i) record).map (Function.update entries i)

/-- The scanner between two records. -/
structure ScanState where
  entries : Entries := fun _ => {}
  recordCount : Nat := 0
  nextSequence : UInt64 := 1

/-- The scanner's loop body behind `decode`. -/
def scanRecord (state : ScanState) (record : Record) : Except Result ScanState := do
  if record.sequence ≠ state.nextSequence then throw .invalidSequence
  let entries ← transition state.entries record
  pure { entries, recordCount := state.recordCount + 1, nextSequence := state.nextSequence + 1 }

/-- The scanner over records that are already decoded. -/
def scanRecords (state : ScanState) (records : List Record) : Except Result ScanState :=
  records.foldlM scanRecord state

def scanBytes (state : ScanState) (record : Bytes) : Except Result ScanState :=
  decode record >>= scanRecord state

/-- `hermas_saga_log_summary` -/
structure Summary where
  recordCount : Nat
  nextSequence : UInt64
  active : List Active
  deriving DecidableEq, Repr

def ScanState.summary (state : ScanState) : Summary where
  recordCount := state.recordCount
  nextSequence := state.nextSequence
  active := ((List.finRange maxActive).filter fun i => (state.entries i).active).map
    fun i => (state.entries i).value

/-- `hermas_saga_log_scan` -/
def scan (bytes : Bytes) : Except Result Summary :=
  if bytes.length % recordSize ≠ 0 then .error .invalidArgument
  else ((bytes.records recordSize (bytes.length / recordSize)).foldlM scanBytes {}).map
    ScanState.summary

/-! ## Files of records -/

/-- A record as it stands in the file. -/
def Record.bytes (record : Record) : Bytes := body record ++ Bytes.writeU32 (crc32 (body record))

/-- The file of a list of records. -/
def file (records : List Record) : Bytes := records.flatMap Record.bytes

theorem length_body (record : Record) : (body record).length = 60 := by
  simp [body, magic]

theorem Record.length_bytes (record : Record) : record.bytes.length = recordSize := by
  simp [Record.bytes, length_body, recordSize]

/-- The fields of a record stand where `decode` looks for them. -/
theorem read_body (record : Record) (rest : Bytes) :
    (body record ++ rest).take 4 = magic ∧
    (body record ++ rest).readU16 4 = 1 ∧
    (body record ++ rest).readU16 6 = UInt16.ofNat recordSize ∧
    (body record ++ rest).readU16 8 = record.kind.code ∧
    (body record ++ rest).readU16 10 = record.outcome.code ∧
    (body record ++ rest).readU32 12 = 0 ∧
    (body record ++ rest).readU64 16 = record.sequence ∧
    (body record ++ rest).readU64 24 = record.executionId ∧
    (body record ++ rest).readU32 32 = record.workflowId ∧
    (body record ++ rest).readU64 36 = record.requestId ∧
    (body record ++ rest).readU16 44 = record.forwardNode ∧
    (body record ++ rest).readU16 46 = record.appId ∧
    (body record ++ rest).readU16 48 = record.actionId ∧
    (body record ++ rest).readU16 50 = record.ordinal ∧
    (body record ++ rest).readU64 52 = record.imageFingerprint := by
  have hm : magic.length = 4 := rfl
  simp only [body, List.append_assoc]
  refine ⟨rfl, ?_⟩
  simp [Bytes.readU16_skip, Bytes.readU32_skip, Bytes.readU64_skip, Bytes.readU16_here,
    Bytes.readU32_here, Bytes.readU64_here, hm]

/-- **A valid record is read back.** -/
theorem decode_bytes {record : Record} (h : validateRecord record = .ok) :
    decode record.bytes = .ok record := by
  have hlen := record.length_bytes
  have htake : record.bytes.take 60 = body record := by
    rw [Record.bytes, List.take_append_of_le_length (by rw [length_body]),
      List.take_of_length_le (by rw [length_body])]
  have hsum : record.bytes.readU32 60 = crc32 (record.bytes.take 60) := by
    rw [htake, Record.bytes, Bytes.readU32_skip _ _ _ (by rw [length_body]), length_body]
    exact Bytes.readU32_self _
  obtain ⟨h0, h4, h6, h8, h10, h12, h16, h24, h32, h36, h44, h46, h48, h50, h52⟩ :=
    read_body record (Bytes.writeU32 (crc32 (body record)))
  rw [← Record.bytes] at h0 h4 h6 h8 h10 h12 h16 h24 h32 h36 h44 h46 h48 h50 h52
  simp [decode, hlen, h0, h4, h6, h8, h10, h12, h16, h24, h32, h36, h44, h46, h48, h50, h52,
    hsum, h, pure, Except.pure]

/-- What `decode` has checked of the bytes, and where it reads the record. -/
structure Decoded (source : Bytes) (record : Record) : Prop where
  long : recordSize ≤ source.length
  magic : source.take 4 = magic
  version : source.readU16 4 = 1
  size : source.readU16 6 = UInt16.ofNat recordSize
  kind : source.readU16 8 = record.kind.code
  outcome : source.readU16 10 = record.outcome.code
  reserved : source.readU32 12 = 0
  sequence : source.readU64 16 = record.sequence
  executionId : source.readU64 24 = record.executionId
  workflowId : source.readU32 32 = record.workflowId
  requestId : source.readU64 36 = record.requestId
  forwardNode : source.readU16 44 = record.forwardNode
  appId : source.readU16 46 = record.appId
  actionId : source.readU16 48 = record.actionId
  ordinal : source.readU16 50 = record.ordinal
  imageFingerprint : source.readU64 52 = record.imageFingerprint
  checksum : source.readU32 60 = crc32 (source.take 60)
  valid : validateRecord record = .ok

theorem decode_ok {source : Bytes} {record : Record} (h : decode source = .ok record) :
    Decoded source record := by
  unfold decode at h
  simp only [bind, Except.bind, pure, Except.pure, throw, throwThe, MonadExceptOf.throw] at h
  repeat' split at h
  all_goals cases h
  rename_i hlong hformat hsum _ kind hkind _ outcome houtcome _ hvalid
  simp only [not_or, not_not] at hformat
  obtain ⟨hmagic, hversion, hsize, hreserved⟩ := hformat
  exact {
    long := not_lt.mp hlong, magic := hmagic, version := hversion, size := hsize
    kind := (Kind.code_of_ofCode hkind).symm, outcome := (Outcome.code_of_ofCode houtcome).symm
    reserved := hreserved, sequence := rfl, executionId := rfl, workflowId := rfl
    requestId := rfl, forwardNode := rfl, appId := rfl, actionId := rfl, ordinal := rfl
    imageFingerprint := rfl, checksum := not_not.mp hsum, valid := hvalid }

/-- The bytes under the checksum are those that were read. -/
theorem Decoded.body_eq {source : Bytes} {record : Record} (h : Decoded source record) :
    body record = source.slice 0 60 := by
  have hlong := h.long
  unfold recordSize at hlong
  rw [body, ← h.magic, ← h.version, ← h.size, ← h.kind, ← h.outcome, ← h.reserved, ← h.sequence,
    ← h.executionId, ← h.workflowId, ← h.requestId, ← h.forwardNode, ← h.appId, ← h.actionId,
    ← h.ordinal, ← h.imageFingerprint, Bytes.take_eq_slice]
  simp (disch := omega) only [Bytes.writeU16_readU16, Bytes.writeU32_readU32,
    Bytes.writeU64_readU64, Bytes.slice_append_slice]

/-- **A record that is read is written as it stands.** -/
theorem bytes_decode {source : Bytes} {record : Record} (hsize : source.length = recordSize)
    (h : decode source = .ok record) : record.bytes = source := by
  have hdecoded := decode_ok h
  have hsum : Bytes.writeU32 (crc32 (body record)) = source.slice 60 4 := by
    rw [hdecoded.body_eq, ← Bytes.take_eq_slice, ← hdecoded.checksum,
      Bytes.writeU32_readU32 _ _ (by rw [hsize]; decide)]
  rw [Record.bytes, hsum, hdecoded.body_eq, Bytes.slice_append_slice _ 0 60 60 4 rfl]
  exact Bytes.slice_self source 64 hsize

theorem encode_ok {record : Record} {bytes : Bytes} :
    encode record = .ok bytes ↔ validateRecord record = .ok ∧ bytes = record.bytes := by
  unfold encode Record.bytes
  split
  · rename_i hvalid
    simp [hvalid, eq_comm]
  · rename_i hinvalid
    exact iff_of_false (fun h => by cases h) fun h => hinvalid h.1

theorem records_file (records : List Record) :
    (file records).length = recordSize * records.length ∧
      Bytes.records recordSize records.length (file records) = records.map Record.bytes := by
  have hsize : ∀ b ∈ records.map Record.bytes, b.length = recordSize := by
    intro b hb
    obtain ⟨r, -, rfl⟩ := List.mem_map.mp hb
    exact r.length_bytes
  have hflat := Bytes.length_flatten_records _ hsize
  have hrecords := Bytes.records_flatten _ hsize
  rw [List.length_map] at hflat hrecords
  rw [file, List.flatMap_def]
  exact ⟨hflat, hrecords⟩

theorem foldlM_scanBytes : ∀ {records : List Record} {state : ScanState},
    (∀ r ∈ records, validateRecord r = .ok) →
    (records.map Record.bytes).foldlM scanBytes state = scanRecords state records
  | [], _, _ => rfl
  | r :: records, state, h => by
      rw [List.map_cons, List.foldlM_cons, scanRecords, List.foldlM_cons]
      have hr : scanBytes state r.bytes = scanRecord state r := by
        rw [scanBytes, decode_bytes (h r (by simp))]
        rfl
      rw [hr]
      cases scanRecord state r with
      | error e => rfl
      | ok next => exact foldlM_scanBytes fun s hs => h s (by simp [hs])

/-- **Scanning a file is scanning its records.** -/
theorem scan_file {records : List Record} (h : ∀ r ∈ records, validateRecord r = .ok) :
    scan (file records) = (scanRecords {} records).map ScanState.summary := by
  obtain ⟨hlen, hrecords⟩ := records_file records
  have hmod : (file records).length % recordSize = 0 := by rw [hlen, Nat.mul_mod_right]
  have hdiv : (file records).length / recordSize = records.length := by
    rw [hlen, Nat.mul_div_cancel_left _ (by decide)]
  rw [scan, if_neg (by rw [hmod]; simp), hdiv, hrecords, foldlM_scanBytes h]

end Hermas.Saga.Log
