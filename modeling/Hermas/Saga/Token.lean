import Hermas.Base.Crc32
import Hermas.Protocol.Frame

/-!
# The store of compensation tokens

What a forward action returned is what undoing it will need, so the payload of
every successful saga step is kept until the end of its execution, under the key
of its delivery. The store is a file of variable-length records.
-/

namespace Hermas.Compensation

inductive Result where
  | ok | invalidArgument | bufferTooSmall | invalidRecord | checksumMismatch | invalidSequence
  | duplicateToken | writeError
  deriving DecidableEq, Repr

/-- `hermas_compensation_key` -/
structure Key where
  executionId : UInt64
  workflowId : UInt32
  requestId : UInt64
  nodeId : UInt16
  imageFingerprint : UInt64
  deriving DecidableEq, Repr

/-- `hermas_compensation_record` -/
structure Record where
  sequence : UInt64 := 0
  key : Key
  compensationAppId : UInt16
  compensationActionId : UInt16
  sourceType : UInt16
  destinationType : UInt16
  token : Bytes
  deriving DecidableEq, Repr

def headerSize : Nat := 72

/-- `"HCT1"` -/
def magic : Bytes := [0x48, 0x43, 0x54, 0x31]

/-- `record_valid` -/
def Record.Valid (record : Record) : Prop :=
  record.sequence ≠ 0 ∧ record.key.executionId ≠ 0 ∧ record.key.workflowId ≠ 0 ∧
    record.key.requestId ≠ 0 ∧ record.key.nodeId ≠ 0 ∧ record.key.imageFingerprint ≠ 0 ∧
    record.compensationAppId ≠ 0 ∧ record.compensationActionId ≠ 0 ∧ record.sourceType ≠ 0 ∧
    record.destinationType ≠ 0 ∧ record.token.length ≤ Protocol.maxPayloadSize

instance (record : Record) : Decidable record.Valid := inferInstanceAs (Decidable (_ ∧ _))

/-- The 68 header bytes under the checksum. -/
def header (record : Record) : Bytes :=
  magic ++ (Bytes.writeU16 1 ++ (Bytes.writeU16 (UInt16.ofNat headerSize) ++
    (Bytes.writeU32 (UInt32.ofNat (headerSize + record.token.length)) ++
    (Bytes.writeU32 (UInt32.ofNat record.token.length) ++ (Bytes.writeU64 record.sequence ++
    (Bytes.writeU64 record.key.executionId ++ (Bytes.writeU32 record.key.workflowId ++
    (Bytes.writeU64 record.key.requestId ++ (Bytes.writeU16 record.key.nodeId ++
    (Bytes.writeU16 record.compensationAppId ++ (Bytes.writeU16 record.compensationActionId ++
    (Bytes.writeU16 record.sourceType ++ (Bytes.writeU16 record.destinationType ++
    (Bytes.writeU16 0 ++ (Bytes.writeU64 record.key.imageFingerprint ++
    Bytes.writeU32 0)))))))))))))))

/-- `hermas_compensation_encode` -/
def encode (record : Record) (capacity : Nat) : Except Result Bytes :=
  if ¬ record.Valid then .error .invalidRecord
  else if capacity < headerSize + record.token.length then .error .bufferTooSmall
  else .ok (header record ++ (Bytes.writeU32 (crc32 (header record ++ record.token)) ++
    record.token))

/-- `hermas_compensation_decode`: the first record, and how many bytes it takes. -/
def decode (source : Bytes) : Except Result (Record × Nat) := do
  if source.length < headerSize then throw .bufferTooSmall
  let size := (source.readU32 8).toNat
  let tokenLength := (source.readU32 12).toNat
  if source.take 4 ≠ magic ∨ source.readU16 4 ≠ 1 ∨
      source.readU16 6 ≠ UInt16.ofNat headerSize ∨ size ≠ headerSize + tokenLength ∨
      source.length < size ∨ source.readU16 54 ≠ 0 ∨ source.readU32 64 ≠ 0 ∨
      Protocol.maxPayloadSize < tokenLength then
    throw .invalidRecord
  if source.readU32 68 ≠ crc32 (source.take 68 ++ source.slice headerSize tokenLength) then
    throw .checksumMismatch
  let decoded : Record := {
    sequence := source.readU64 16
    key := {
      executionId := source.readU64 24
      workflowId := source.readU32 32
      requestId := source.readU64 36
      nodeId := source.readU16 44
      imageFingerprint := source.readU64 56 }
    compensationAppId := source.readU16 46
    compensationActionId := source.readU16 48
    sourceType := source.readU16 50
    destinationType := source.readU16 52
    token := source.slice headerSize tokenLength }
  if decoded.Valid then pure (decoded, size) else throw .invalidRecord

/-- `hermas_compensation_summary` -/
structure Summary where
  recordCount : Nat := 0
  nextSequence : UInt64 := 1
  deriving DecidableEq, Repr

/-- The loop of `hermas_compensation_scan`; every record takes some bytes, so the length of the
file bounds its rounds. -/
def scanFrom : Nat → Summary → Bytes → Except Result Summary
  | 0, summary, _ => .ok summary
  | rounds + 1, summary, bytes =>
      if bytes = [] then .ok summary
      else
        match decode bytes with
        | .error e => .error e
        | .ok (record, size) =>
            if record.sequence ≠ summary.nextSequence then .error .invalidSequence
            else
              scanFrom rounds
                { recordCount := summary.recordCount + 1
                  nextSequence := summary.nextSequence + 1 }
                (bytes.drop size)

/-- `hermas_compensation_scan` -/
def scan (bytes : Bytes) : Except Result Summary := scanFrom bytes.length {} bytes

/-- The records of a file up to the first that does not decode. -/
def recordsFrom : Nat → Bytes → List Record
  | 0, _ => []
  | rounds + 1, bytes =>
      match decode bytes with
      | .error _ => []
      | .ok (record, size) => record :: recordsFrom rounds (bytes.drop size)

def records (bytes : Bytes) : List Record := recordsFrom bytes.length bytes

/-- The loop of `hermas_compensation_find` -/
def findFrom (key : Key) (capacity : Nat) :
    Nat → Option Record → Bytes → Except Result (Option Record)
  | 0, found, _ => .ok found
  | rounds + 1, found, bytes =>
      if bytes = [] then .ok found
      else
        match decode bytes with
        | .error e => .error e
        | .ok (candidate, size) =>
            if candidate.key ≠ key then findFrom key capacity rounds found (bytes.drop size)
            else if found.isSome then .error .duplicateToken
            else if capacity < candidate.token.length then .error .bufferTooSmall
            else findFrom key capacity rounds (some candidate) (bytes.drop size)

/-- `hermas_compensation_find`: the one record of a key, with its token. -/
def find (bytes : Bytes) (key : Key) (capacity : Nat) : Except Result (Option Record) :=
  findFrom key capacity bytes.length none bytes

/-- `hermas_compensation_writer` with the file it appends to. -/
structure Writer where
  file : Bytes := []
  nextSequence : UInt64
  deriving DecidableEq, Repr

/-- `hermas_compensation_writer_append` -/
def Writer.append (writer : Writer) (record : Record) (scratchCapacity : Nat) :
    Except Result Writer :=
  if writer.nextSequence = 0 ∨ writer.nextSequence = uint64Max then .error .invalidArgument
  else (encode { record with sequence := writer.nextSequence } scratchCapacity).map fun encoded =>
    { file := writer.file ++ encoded, nextSequence := writer.nextSequence + 1 }

/-! ## What is found -/

theorem findFrom_ok {key : Key} {capacity : Nat} : ∀ {rounds : Nat} {found : Option Record}
    {bytes : Bytes} {result : Option Record},
    findFrom key capacity rounds found bytes = .ok result →
      result.toList = found.toList ++ (recordsFrom rounds bytes).filter (·.key = key)
  | 0, found, bytes, result, h => by
      cases h
      simp [recordsFrom]
  | rounds + 1, found, bytes, result, h => by
      rw [findFrom] at h
      split at h
      · rename_i hnil
        cases h
        subst hnil
        have hdecode : decode [] = .error .bufferTooSmall := rfl
        simp [recordsFrom, hdecode]
      · rw [recordsFrom]
        split at h
        · cases h
        · rename_i candidate size _
          split at h
          · rename_i hkey
            rw [findFrom_ok h, List.filter_cons_of_neg (by simpa using hkey)]
          · rename_i hkey
            have hkey : candidate.key = key := not_not.mp hkey
            split at h
            · cases h
            · rename_i hfound
              split at h
              · cases h
              · -- the first record of the key; a second one would be an error
                have hnone : found = none := by simpa using hfound
                rw [findFrom_ok h, List.filter_cons_of_pos (by simpa using hkey), hnone]
                rfl

/-- **What `find` finds is the only record of its key.** -/
theorem find_ok {bytes : Bytes} {key : Key} {capacity : Nat} {record : Record}
    (h : find bytes key capacity = .ok (some record)) :
    (records bytes).filter (·.key = key) = [record] := (findFrom_ok h).symm

/-- A record that decodes has a token that fits into a payload. -/
theorem decode_token {source : Bytes} {record : Record} {size : Nat}
    (h : decode source = .ok (record, size)) : record.token.length ≤ Protocol.maxPayloadSize := by
  unfold decode at h
  split at h
  · cases h
  dsimp only at h
  split at h
  · cases h
  rename_i hfields
  split at h
  · cases h
  simp only [not_or, not_lt] at hfields
  split at h
  · obtain ⟨rfl, rfl⟩ := Prod.mk.inj (Except.ok.inj h)
    exact le_trans (List.length_take_le _ _) hfields.2.2.2.2.2.2.2
  · cases h

/-- In a store that scans, the one record of a key is found. -/
theorem findFrom_scanned {key : Key} : ∀ {rounds : Nat} {summary summary' : Summary}
    {found : Option Record} {bytes : Bytes}, scanFrom rounds summary bytes = .ok summary' →
      (found.toList ++ (recordsFrom rounds bytes).filter fun r => r.key = key).length ≤ 1 →
        findFrom key Protocol.maxPayloadSize rounds found bytes =
          .ok (found.toList ++ (recordsFrom rounds bytes).filter fun r => r.key = key).head?
  | 0, _, _, found, bytes, _, _ => by
      cases found <;> rfl
  | rounds + 1, summary, summary', found, bytes, hscan, hone => by
      rw [scanFrom] at hscan
      rw [findFrom]
      split at hscan
      · rename_i hnil
        subst hnil
        have hdecode : decode [] = .error .bufferTooSmall := rfl
        rw [if_pos rfl, recordsFrom, hdecode]
        cases found <;> rfl
      rename_i hnil
      rw [if_neg hnil]
      rw [recordsFrom] at hone ⊢
      cases hdecode : decode bytes with
      | error e =>
          rw [hdecode] at hscan
          cases hscan
      | ok decoded =>
          obtain ⟨candidate, size⟩ := decoded
          rw [hdecode] at hscan hone
          dsimp only at hscan hone ⊢
          split at hscan
          · cases hscan
          by_cases hkey : candidate.key = key
          · rw [List.filter_cons_of_pos (by simpa using hkey)] at hone ⊢
            -- a second record of the key would be one too many
            have hnone : found = none := by
              cases found with
              | none => rfl
              | some record => simp at hone
            subst hnone
            rw [if_neg (not_not.mpr hkey), if_neg (by decide),
              if_neg (Nat.not_lt.mpr (decode_token hdecode)), findFrom_scanned hscan hone]
            rfl
          · rw [List.filter_cons_of_neg (by simpa using hkey)] at hone ⊢
            rw [if_pos hkey, findFrom_scanned hscan hone]

/-- **In a store that scans, the only record of a key is found.** -/
theorem find_scanned {bytes : Bytes} {key : Key} {record : Record}
    (hscan : (scan bytes).toOption.isSome = true)
    (honly : (records bytes).filter (·.key = key) = [record]) :
    find bytes key Protocol.maxPayloadSize = .ok (some record) := by
  cases h : scan bytes with
  | error e =>
      rw [h] at hscan
      cases hscan
  | ok summary =>
      have hone : ((none : Option Record).toList ++
          (records bytes).filter fun r => r.key = key).length ≤ 1 := by
        rw [Option.toList_none, List.nil_append, honly]
        exact Nat.le_refl 1
      have hfind := findFrom_scanned h hone
      rw [find, hfind]
      change Except.ok ((records bytes).filter fun r => r.key = key).head? = _
      rw [honly]
      rfl

end Hermas.Compensation
