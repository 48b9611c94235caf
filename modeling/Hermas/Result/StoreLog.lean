import Hermas.Base.Framed
import Hermas.Result.Store
import Mathlib.Data.List.Nodup

/-!
# The result log reads back what was written

The same law as for the compensation log, of the store of results: what the writer
took is found under the key of its execution and nothing else is. The scanner here
also refuses a second record of a key, for which it reads the file up to the record
once more.
-/

namespace Hermas.ResultStore

/-- `hermas_result_summary` -/
structure Summary where
  recordCount : Nat := 0
  nextSequence : UInt64 := 1
  deriving DecidableEq, Repr

/-- The inner loop of `hermas_result_scan`: no earlier record has the key. -/
def checkPrior (key : Key) : Nat → Bytes → Except Result Unit
  | 0, _ => .ok ()
  | rounds + 1, bytes =>
      if bytes = [] then .ok ()
      else
        match decode bytes with
        | .error e => .error e
        | .ok (prior, priorSize) =>
            if prior.key = key then .error .duplicateResult
            else checkPrior key rounds (bytes.drop priorSize)

/-- The loop of `hermas_result_scan`; every record takes some bytes, so the length of the file
bounds its rounds. -/
def scanFrom (bytes : Bytes) : Nat → Nat → Summary → Except Result Summary
  | 0, _, summary => .ok summary
  | rounds + 1, offset, summary =>
      if bytes.length ≤ offset then .ok summary
      else
        match decode (bytes.drop offset) with
        | .error e => .error e
        | .ok (record, size) =>
            if record.sequence ≠ summary.nextSequence then .error .invalidSequence
            else
              match checkPrior record.key offset (bytes.take offset) with
              | .error e => .error e
              | .ok () =>
                  scanFrom bytes rounds (offset + size)
                    { recordCount := summary.recordCount + 1
                      nextSequence := summary.nextSequence + 1 }

/-- `hermas_result_scan` -/
def scan (bytes : Bytes) : Except Result Summary := scanFrom bytes bytes.length 0 {}

/-! ## The format -/

/-- A record as it stands in the file. -/
def Record.bytes (record : Record) : Bytes :=
  header record ++ (Bytes.writeU32 (crc32 (header record ++ record.value)) ++
    (Bytes.writeU32 0 ++ record.value))

variable {record : Record} {capacity : Nat}

theorem encode_ok {bytes : Bytes} :
    encode record capacity = .ok bytes ↔
      record.Valid ∧ headerSize + record.value.length ≤ capacity ∧ bytes = record.bytes := by
  unfold encode
  by_cases hvalid : record.Valid
  · by_cases hfits : capacity < headerSize + record.value.length
    · simp [hvalid, hfits]
    · simp [hvalid, hfits, Record.bytes, eq_comm, not_lt.mp hfits]
  · simp [hvalid]

theorem Record.length_bytes (record : Record) :
    record.bytes.length = headerSize + record.value.length := by
  simp [Record.bytes, length_header, headerSize]
  omega

/-- **A record is read back**, whatever follows it in the file. -/
theorem decode_bytes (h : record.Valid) (rest : Bytes) :
    decode (record.bytes ++ rest) = .ok (record, record.bytes.length) := by
  rw [record.length_bytes]
  exact decode_encode (encode_ok.mpr ⟨h, le_rfl, rfl⟩) rest

/-- **A part of a record is refused**: its header is cut, or it is shorter than it says. -/
theorem decode_cut (h : record.Valid) {n : Nat} (hn : n < record.bytes.length) :
    ∃ e, decode (record.bytes.take n) = .error e := by
  have hlen : (record.bytes.take n).length = n := by
    rw [List.length_take, Nat.min_eq_left (by omega)]
  have hsmall : record.value.length ≤ Protocol.maxPayloadSize := h.2.2.2.2.2.2.2
  unfold Protocol.maxPayloadSize Protocol.maxPacketSize Protocol.headerSize at hsmall
  unfold decode
  by_cases hheader : n < headerSize
  · exact ⟨.bufferTooSmall, by rw [hlen, if_pos hheader]; rfl⟩
  · have hsize : (Bytes.readU32 (record.bytes.take n) 8).toNat = record.bytes.length := by
      have hfront : 8 + 4 ≤ n := by unfold headerSize at hheader; omega
      rw [Bytes.readU32_take _ hfront, Record.bytes, (read_header record _).2.2.2.1,
        UInt32.toNat_ofNat', ← Record.bytes, record.length_bytes]
      exact Nat.mod_eq_of_lt (by unfold headerSize; omega)
    refine ⟨.invalidRecord, ?_⟩
    rw [hlen, if_neg hheader]
    simp only
    rw [if_pos (.inr (.inr (.inr (.inr (.inl (by rw [hsize]; exact hn))))))]
    rfl

/-- **What is read is a record**, wherever the bytes come from. -/
theorem decode_valid {source : Bytes} {size : Nat} (h : decode source = .ok (record, size)) :
    record.Valid := by
  unfold decode at h
  simp only [bind, Except.bind, pure, Except.pure, throw, throwThe, MonadExceptOf.throw] at h
  split at h
  · cases h
  split at h
  · cases h
  split at h
  · cases h
  split at h
  · split at h
    · rename_i hvalid
      cases h
      exact hvalid
    · cases h
  · cases h

theorem findFrom_valid {key : Key} {found : Record} : ∀ (rounds : Nat) {prior : Option Record}
    {bytes : Bytes}, (∀ r ∈ prior, r.Valid) →
      findFrom key capacity rounds prior bytes = .ok (some found) → found.Valid
  | 0, prior, _, hprior, h => by
      rw [findFrom] at h
      exact hprior found (Except.ok.inj h)
  | rounds + 1, prior, bytes, hprior, h => by
      rw [findFrom] at h
      split at h
      · exact hprior found (Except.ok.inj h)
      split at h
      · cases h
      rename_i candidate size hdecode
      split at h
      · exact findFrom_valid rounds hprior h
      split at h
      · cases h
      split at h
      · cases h
      · refine findFrom_valid rounds (fun r hr => ?_) h
        cases hr
        exact decode_valid hdecode

/-- A record that is found is one that could have been appended. -/
theorem find_valid {bytes : Bytes} {key : Key} {found : Record}
    (h : find bytes key capacity = .ok (some found)) : found.Valid :=
  findFrom_valid bytes.length (fun r hr => by cases hr) h

/-- The format of the result log. -/
def format : Framed Record Result where
  Valid := Record.Valid
  encode := Record.bytes
  decode := decode
  encode_pos record _ := by rw [record.length_bytes]; unfold headerSize; omega
  decode_encode _ h := decode_bytes h
  decode_cut _ h _ := decode_cut h

/-! ## The loops -/

/-- A round of the inner loop. -/
def priorStep (key : Key) (_ : Unit) (prior : Record) (_ : Bytes) : Except Result Unit :=
  if prior.key = key then .error .duplicateResult else .ok ()

theorem checkPrior_eq (key : Key) : ∀ (rounds : Nat) (bytes : Bytes),
    checkPrior key rounds bytes = format.fold (priorStep key) rounds () bytes
  | 0, _ => rfl
  | rounds + 1, bytes => by
      have hdecode : format.decode bytes = decode bytes := rfl
      rw [checkPrior, Framed.fold, hdecode]
      split
      · rfl
      · cases decode bytes with
        | error e => rfl
        | ok read =>
            simp only [priorStep]
            split
            · rfl
            · exact checkPrior_eq key rounds _

/-- A round of the scanner: the next number, and a key that no earlier record has. -/
def scanStep (state : Bytes × Summary) (record : Record) (entry : Bytes) :
    Except Result (Bytes × Summary) :=
  if record.sequence ≠ state.2.nextSequence then .error .invalidSequence
  else (checkPrior record.key state.1.length state.1).map fun _ =>
    (state.1 ++ entry,
      { recordCount := state.2.recordCount + 1, nextSequence := state.2.nextSequence + 1 })

theorem scanFrom_eq (bytes : Bytes) : ∀ (rounds offset : Nat) (summary : Summary),
    scanFrom bytes rounds offset summary =
      (format.fold scanStep rounds (bytes.take offset, summary) (bytes.drop offset)).map Prod.snd
  | 0, _, _ => rfl
  | rounds + 1, offset, summary => by
      have hdecode : format.decode (bytes.drop offset) = decode (bytes.drop offset) := rfl
      rw [scanFrom, Framed.fold, hdecode]
      by_cases hend : bytes.length ≤ offset
      · rw [if_pos hend, if_pos (List.drop_eq_nil_of_le hend)]
        rfl
      · have hlen : (bytes.take offset).length = offset := by
          rw [List.length_take, Nat.min_eq_left (by omega)]
        rw [if_neg hend, if_neg fun hnil => hend (List.drop_eq_nil_iff.mp hnil)]
        cases decode (bytes.drop offset) with
        | error e => rfl
        | ok read =>
            simp only [scanStep, hlen]
            split
            · rfl
            · cases checkPrior read.1.key offset (bytes.take offset) with
              | error e => rfl
              | ok _ =>
                  simp only [Except.map]
                  rw [scanFrom_eq bytes rounds (offset + read.2), List.take_add, List.drop_drop]
                  rfl

/-- A round of `find`. -/
def findStep : Key → Nat → Option Record → Record → Bytes → Except Result (Option Record) :=
  Framed.findStep Record.key (·.value.length) .duplicateResult .bufferTooSmall

theorem findFrom_eq (key : Key) (capacity : Nat) :
    ∀ (rounds : Nat) (found : Option Record) (bytes : Bytes),
      findFrom key capacity rounds found bytes =
        format.fold (findStep key capacity) rounds found bytes
  | 0, _, _ => rfl
  | rounds + 1, found, bytes => by
      have hdecode : format.decode bytes = decode bytes := rfl
      rw [findFrom, Framed.fold, hdecode]
      split
      · rfl
      · cases decode bytes with
        | error e => rfl
        | ok read =>
            simp only [findStep, Framed.findStep]
            split
            · exact findFrom_eq key capacity rounds _ _
            · split
              · rfl
              · split
                · rfl
                · exact findFrom_eq key capacity rounds _ _

/-! ## Appending -/

/-- Attempts to append, each with the caller's scratch buffer; a refused one changes nothing. Beside
the writer stand the records that it took, as it numbered them. -/
def Writer.appendAll : List (Record × Nat) → Writer × List Record → Writer × List Record
  | [], state => state
  | (record, scratchCapacity) :: attempts, (writer, taken) =>
      match writer.append record scratchCapacity with
      | .ok writer' =>
          appendAll attempts (writer', taken ++ [{ record with sequence := writer.nextSequence }])
      | .error _ => appendAll attempts (writer, taken)

/-- The file behind a writer is what it took. -/
def Written (writer : Writer) (taken : List Record) : Prop :=
  Framed.Written format Record.sequence writer.file writer.nextSequence taken

theorem written_init : Written { nextSequence := 1 } [] := Framed.written_nil

theorem written_append {writer writer' : Writer} {taken : List Record} {scratchCapacity : Nat}
    (hw : Written writer taken) (h : writer.append record scratchCapacity = .ok writer') :
    Written writer' (taken ++ [{ record with sequence := writer.nextSequence }]) := by
  unfold Writer.append at h
  split at h
  · cases h
  rename_i hlimit
  rw [not_or] at hlimit
  cases hencode : encode { record with sequence := writer.nextSequence } scratchCapacity with
  | error e => rw [hencode] at h; cases h
  | ok entry =>
      rw [hencode] at h
      obtain rfl := Except.ok.inj h
      obtain ⟨hvalid, -, rfl⟩ := encode_ok.mp hencode
      exact hw.append hvalid rfl hlimit.2

theorem written_appendAll : ∀ (attempts : List (Record × Nat)) {writer : Writer}
    {taken : List Record}, Written writer taken →
      Written (Writer.appendAll attempts (writer, taken)).1
        (Writer.appendAll attempts (writer, taken)).2
  | [], _, _, h => h
  | (record, scratchCapacity) :: attempts, writer, taken, h => by
      rw [Writer.appendAll]
      split
      · rename_i happend
        exact written_appendAll attempts (written_append h happend)
      · exact written_appendAll attempts h

/-! ## Reading back -/

/-- A file says what was written into it. -/
structure ReadsBack (file : Bytes) (taken : List Record) : Prop where
  /-- The records are numbered from 1 without gaps. -/
  numbered : ∀ k (hk : k < taken.length), taken[k].sequence.toNat = k + 1
  accepted : scan file =
    .ok { recordCount := taken.length, nextSequence := UInt64.ofNat (taken.length + 1) }
  /-- A value is found under the key it was written under, with its record. -/
  found : ∀ r ∈ taken, ∀ capacity, r.value.length ≤ capacity →
    find file r.key capacity = .ok (some r)
  absent : ∀ key, (∀ r ∈ taken, r.key ≠ key) → ∀ capacity, find file key capacity = .ok none
  /-- A prefix that ends inside a record is refused. -/
  cut : ∀ n < file.length, (∀ k, ((taken.take k).flatMap Record.bytes).length ≠ n) →
    ∃ e, scan (file.take n) = .error e

theorem scan_eq (bytes : Bytes) :
    scan bytes = (format.fold scanStep bytes.length ([], {}) bytes).map Prod.snd :=
  scanFrom_eq bytes bytes.length 0 {}

theorem find_eq (bytes : Bytes) (key : Key) (capacity : Nat) :
    find bytes key capacity = format.fold (findStep key capacity) bytes.length none bytes :=
  findFrom_eq _ _ _ _ _

/-- No earlier record has the key of a later one. -/
theorem checkPrior_file {rs : List Record} (hvalid : ∀ r ∈ rs, r.Valid) {key : Key}
    (hother : ∀ r ∈ rs, r.key ≠ key) :
    checkPrior key (format.file rs).length (format.file rs) = .ok () := by
  rw [checkPrior_eq, Framed.fold_file hvalid _ le_rfl]
  induction rs with
  | nil => rfl
  | cons r rs ih =>
      rw [List.foldlM_cons, priorStep, if_neg (hother r (by simp))]
      exact ih (fun t ht => hvalid t (by simp [ht])) fun t ht => hother t (by simp [ht])

theorem Written.scan {writer : Writer} {taken : List Record} (h : Written writer taken)
    (hkeys : (taken.map Record.key).Nodup) :
    scan writer.file =
      .ok { recordCount := taken.length, nextSequence := UInt64.ofNat (taken.length + 1) } := by
  have hfile : writer.file = format.file taken := h.file
  let state (n : Nat) : Bytes × Summary :=
    (format.file (taken.take n), { recordCount := n, nextSequence := UInt64.ofNat (n + 1) })
  have hloop : taken.foldlM (fun s r => scanStep s r (format.encode r)) (state 0) =
      .ok (state taken.length) := by
    refine Framed.foldlM_counted state fun k hk => ?_
    have hsequence : taken[k].sequence = UInt64.ofNat (k + 1) := h.sequence_eq hk
    have hother : ∀ r ∈ taken.take k, r.key ≠ taken[k].key := by
      intro r hr heq
      obtain ⟨j, hj, rfl⟩ := List.mem_take_iff_getElem.mp hr
      have hj' : j < (taken.map Record.key).length := by rw [List.length_map]; omega
      have hk' : k < (taken.map Record.key).length := by rw [List.length_map]; omega
      have hsame : (taken.map Record.key)[j] = (taken.map Record.key)[k] := by simpa using heq
      have hjk := (List.Nodup.getElem_inj_iff hkeys).mp hsame
      omega
    have hprior := checkPrior_file (fun r hr => h.valid r (List.mem_of_mem_take hr)) hother
    have hnext : format.file (taken.take (k + 1)) =
        format.file (taken.take k) ++ format.encode taken[k] := by
      rw [List.take_succ_eq_append_getElem hk, Framed.file_append, Framed.file_cons,
        Framed.file_nil, List.append_nil]
    simp [state, scanStep, hsequence, hprior, hnext, UInt64.ofNat_add, Except.map]
  have hfold : format.fold scanStep (format.file taken).length ([], {}) (format.file taken) =
      .ok (state taken.length) := by
    rw [Framed.fold_file h.valid _ le_rfl]
    exact hloop
  rw [scan_eq, hfile, hfold]
  rfl

/-- **The result log reads back what was written.** -/
theorem Written.readsBack {writer : Writer} {taken : List Record} (h : Written writer taken)
    (hkeys : (taken.map Record.key).Nodup) : ReadsBack writer.file taken where
  numbered := h.numbered
  accepted := h.scan hkeys
  found r hr capacity hsize := by
    have hfile : writer.file = format.file taken := h.file
    rw [find_eq, hfile, Framed.fold_file h.valid _ le_rfl]
    exact Framed.foldlM_findStep_found hkeys hr hsize
  absent key hother capacity := by
    have hfile : writer.file = format.file taken := h.file
    rw [find_eq, hfile, Framed.fold_file h.valid _ le_rfl]
    exact Framed.foldlM_findStep_absent hother
  cut n hn hinside := by
    have hfile : writer.file = format.file taken := h.file
    have hlen : (writer.file.take n).length = n := by
      rw [List.length_take, Nat.min_eq_left (by omega)]
    have hcut : ∃ e, format.fold scanStep n ([], {}) ((format.file taken).take n) = .error e :=
      Framed.fold_cut h.valid _ le_rfl (hfile ▸ hn) hinside
    obtain ⟨e, he⟩ := hcut
    exact ⟨e, by rw [scan_eq, hlen, hfile, he]; rfl⟩

end Hermas.ResultStore
