import Hermas.Base.Framed
import Hermas.Saga.Token

/-!
# The compensation log reads back what was written

The writer numbers and encodes one record after another. The file is then accepted
by the scanner, every token is found under the key of its delivery and under no
other, and a file that was cut inside a record is refused. The format is framed:
the length in the header is checked against the size field and against what is
left of the file, so neither a token nor a piece of one can pass for a record.
-/

namespace Hermas.Compensation

/-- A record as it stands in the file. -/
def Record.bytes (record : Record) : Bytes :=
  header record ++ (Bytes.writeU32 (crc32 (header record ++ record.token)) ++ record.token)

variable {record : Record} {capacity : Nat}

theorem encode_ok {bytes : Bytes} :
    encode record capacity = .ok bytes ↔
      record.Valid ∧ headerSize + record.token.length ≤ capacity ∧ bytes = record.bytes := by
  unfold encode
  by_cases hvalid : record.Valid
  · by_cases hfits : capacity < headerSize + record.token.length
    · simp [hvalid, hfits]
    · simp [hvalid, hfits, Record.bytes, eq_comm, not_lt.mp hfits]
  · simp [hvalid]

theorem length_header (record : Record) : (header record).length = 68 := by
  simp [header, magic]

theorem Record.length_bytes (record : Record) :
    record.bytes.length = headerSize + record.token.length := by
  simp [Record.bytes, length_header, headerSize]
  omega

/-- The fields of a record stand where `decode` looks for them. -/
theorem read_header (record : Record) (rest : Bytes) :
    (header record ++ rest).take 4 = magic ∧
    (header record ++ rest).readU16 4 = 1 ∧
    (header record ++ rest).readU16 6 = UInt16.ofNat headerSize ∧
    (header record ++ rest).readU32 8 = UInt32.ofNat (headerSize + record.token.length) ∧
    (header record ++ rest).readU32 12 = UInt32.ofNat record.token.length ∧
    (header record ++ rest).readU64 16 = record.sequence ∧
    (header record ++ rest).readU64 24 = record.key.executionId ∧
    (header record ++ rest).readU32 32 = record.key.workflowId ∧
    (header record ++ rest).readU64 36 = record.key.requestId ∧
    (header record ++ rest).readU16 44 = record.key.nodeId ∧
    (header record ++ rest).readU16 46 = record.compensationAppId ∧
    (header record ++ rest).readU16 48 = record.compensationActionId ∧
    (header record ++ rest).readU16 50 = record.sourceType ∧
    (header record ++ rest).readU16 52 = record.destinationType ∧
    (header record ++ rest).readU16 54 = 0 ∧
    (header record ++ rest).readU64 56 = record.key.imageFingerprint ∧
    (header record ++ rest).readU32 64 = 0 := by
  have hm : magic.length = 4 := rfl
  simp only [header, List.append_assoc]
  refine ⟨rfl, ?_⟩
  simp [Bytes.readU16_skip, Bytes.readU32_skip, Bytes.readU64_skip, Bytes.readU16_here,
    Bytes.readU32_here, Bytes.readU64_here, hm]

/-- The two lengths in a header are the true ones: they fit their fields. -/
theorem lengths_fit (h : record.Valid) :
    (UInt32.ofNat record.token.length).toNat = record.token.length ∧
      (UInt32.ofNat (headerSize + record.token.length)).toNat =
        headerSize + record.token.length := by
  have hsmall : record.token.length ≤ Protocol.maxPayloadSize := h.2.2.2.2.2.2.2.2.2.2
  unfold Protocol.maxPayloadSize Protocol.maxPacketSize Protocol.headerSize at hsmall
  unfold headerSize
  rw [UInt32.toNat_ofNat', UInt32.toNat_ofNat']
  exact ⟨Nat.mod_eq_of_lt (by omega), Nat.mod_eq_of_lt (by omega)⟩

/-- **A record is read back**, whatever follows it in the file. -/
theorem decode_bytes (h : record.Valid) (rest : Bytes) :
    decode (record.bytes ++ rest) = .ok (record, record.bytes.length) := by
  have hsmall : record.token.length ≤ Protocol.maxPayloadSize := h.2.2.2.2.2.2.2.2.2.2
  obtain ⟨hlength, hwhole⟩ := lengths_fit h
  -- the token stands behind the checksum
  have hfull : record.bytes ++ rest = header record ++
      (Bytes.writeU32 (crc32 (header record ++ record.token)) ++ (record.token ++ rest)) := by
    simp only [Record.bytes, List.append_assoc]
  obtain ⟨h0, h4, h6, h8, h12, h16, h24, h32, h36, h44, h46, h48, h50, h52, h54, h56, h64⟩ :=
    read_header record (Bytes.writeU32 (crc32 (header record ++ record.token)) ++
      (record.token ++ rest))
  rw [← hfull] at h0 h4 h6 h8 h12 h16 h24 h32 h36 h44 h46 h48 h50 h52 h54 h56 h64
  have h68 : (record.bytes ++ rest).readU32 68 = crc32 (header record ++ record.token) := by
    rw [hfull, Bytes.readU32_skip _ _ _ (by rw [length_header]), length_header]
    exact Bytes.readU32_here _ _
  have hheader : (record.bytes ++ rest).take 68 = header record := by
    rw [hfull, List.take_append_of_le_length (by rw [length_header])]
    exact List.take_of_length_le (by rw [length_header])
  have htoken : (record.bytes ++ rest).slice headerSize record.token.length = record.token := by
    rw [hfull, Bytes.slice_append_right _ _ _ _ (by rw [length_header]; decide), length_header,
      Bytes.slice_append_right _ _ _ _ (by simp [headerSize]), Bytes.length_writeU32]
    simp [Bytes.slice, headerSize]
  have hlen : (record.bytes ++ rest).length = headerSize + record.token.length + rest.length := by
    rw [List.length_append, record.length_bytes]
  have hlong : ¬ (record.bytes ++ rest).length < headerSize := by omega
  have hfits : ¬ (record.bytes ++ rest).length < headerSize + record.token.length := by omega
  unfold decode
  simp only [h0, h4, h6, h8, h12, h16, h24, h32, h36, h44, h46, h48, h50, h52, h54, h56, h64, h68,
    hheader, htoken, hlength, hwhole, hlong, hfits]
  simp [h, Nat.not_lt.mpr hsmall, record.length_bytes, pure, Except.pure]

/-- **A part of a record is refused**: its header is cut, or it is shorter than it says. -/
theorem decode_cut (h : record.Valid) {n : Nat} (hn : n < record.bytes.length) :
    ∃ e, decode (record.bytes.take n) = .error e := by
  have hlen : (record.bytes.take n).length = n := by
    rw [List.length_take, Nat.min_eq_left (by omega)]
  unfold decode
  by_cases hheader : n < headerSize
  · exact ⟨.bufferTooSmall, by rw [hlen, if_pos hheader]; rfl⟩
  · have hsize : (Bytes.readU32 (record.bytes.take n) 8).toNat = record.bytes.length := by
      have hfront : 8 + 4 ≤ n := by unfold headerSize at hheader; omega
      rw [Bytes.readU32_take _ hfront, Record.bytes, (read_header record _).2.2.2.1,
        (lengths_fit h).2, ← Record.bytes, record.length_bytes]
    refine ⟨.invalidRecord, ?_⟩
    rw [hlen, if_neg hheader]
    simp only
    rw [if_pos (.inr (.inr (.inr (.inr (.inl (by rw [hsize]; exact hn))))))]
    rfl

/-- The format of the compensation log. -/
def format : Framed Record Result where
  Valid := Record.Valid
  encode := Record.bytes
  decode := decode
  encode_pos record _ := by rw [record.length_bytes]; unfold headerSize; omega
  decode_encode _ h := decode_bytes h
  decode_cut _ h _ := decode_cut h

/-! ## The loops -/

/-- A round of the scanner: records are numbered from 1 on. -/
def scanStep (summary : Summary) (record : Record) (_ : Bytes) : Except Result Summary :=
  if record.sequence ≠ summary.nextSequence then .error .invalidSequence
  else .ok
    { recordCount := summary.recordCount + 1, nextSequence := summary.nextSequence + 1 }

theorem scanFrom_eq : ∀ (rounds : Nat) (summary : Summary) (bytes : Bytes),
    scanFrom rounds summary bytes = format.fold scanStep rounds summary bytes
  | 0, _, _ => rfl
  | rounds + 1, summary, bytes => by
      have hdecode : format.decode bytes = decode bytes := rfl
      rw [scanFrom, Framed.fold, hdecode]
      split
      · rfl
      · cases decode bytes with
        | error e => rfl
        | ok read =>
            simp only [scanStep]
            split
            · rfl
            · exact scanFrom_eq rounds _ _

/-- A round of `find`. -/
def findStep : Key → Nat → Option Record → Record → Bytes → Except Result (Option Record) :=
  Framed.findStep Record.key (·.token.length) .duplicateToken .bufferTooSmall

theorem findFrom_eq (key : Key) (capacity : Nat) :
    ∀ (rounds : Nat) (found : Option Record) (bytes : Bytes),
      findFrom key capacity rounds found bytes =
        format.fold (findStep key capacity) rounds found bytes
  | 0, _, _ => rfl
  | rounds + 1, found, bytes => by
      have hdecode : format.decode bytes = decode bytes := rfl
      rw [findFrom, Framed.fold, hdecode]
      split
      · rfl
      · cases decode bytes with
        | error e => rfl
        | ok read =>
            simp only [findStep, Framed.findStep]
            split
            · exact findFrom_eq key capacity rounds _ _
            · split
              · rfl
              · split
                · rfl
                · exact findFrom_eq key capacity rounds _ _

/-! ## Appending -/

/-- Attempts to append, each with the caller's scratch buffer; a refused one changes nothing. Beside
the writer stand the records that it took, as it numbered them. -/
def Writer.appendAll : List (Record × Nat) → Writer × List Record → Writer × List Record
  | [], state => state
  | (record, scratchCapacity) :: attempts, (writer, taken) =>
      match writer.append record scratchCapacity with
      | .ok writer' =>
          appendAll attempts (writer', taken ++ [{ record with sequence := writer.nextSequence }])
      | .error _ => appendAll attempts (writer, taken)

/-- The file behind a writer is what it took. -/
def Written (writer : Writer) (taken : List Record) : Prop :=
  Framed.Written format Record.sequence writer.file writer.nextSequence taken

theorem written_init : Written { nextSequence := 1 } [] := Framed.written_nil

theorem written_append {writer writer' : Writer} {taken : List Record} {scratchCapacity : Nat}
    (hw : Written writer taken) (h : writer.append record scratchCapacity = .ok writer') :
    Written writer' (taken ++ [{ record with sequence := writer.nextSequence }]) := by
  unfold Writer.append at h
  split at h
  · cases h
  rename_i hlimit
  rw [not_or] at hlimit
  cases hencode : encode { record with sequence := writer.nextSequence } scratchCapacity with
  | error e => rw [hencode] at h; cases h
  | ok entry =>
      rw [hencode] at h
      obtain rfl := Except.ok.inj h
      obtain ⟨hvalid, -, rfl⟩ := encode_ok.mp hencode
      exact hw.append hvalid rfl hlimit.2

theorem written_appendAll : ∀ (attempts : List (Record × Nat)) {writer : Writer}
    {taken : List Record}, Written writer taken →
      Written (Writer.appendAll attempts (writer, taken)).1
        (Writer.appendAll attempts (writer, taken)).2
  | [], _, _, h => h
  | (record, scratchCapacity) :: attempts, writer, taken, h => by
      rw [Writer.appendAll]
      split
      · rename_i happend
        exact written_appendAll attempts (written_append h happend)
      · exact written_appendAll attempts h

/-! ## Reading back -/

/-- A file says what was written into it. -/
structure ReadsBack (file : Bytes) (taken : List Record) : Prop where
  /-- The records are numbered from 1 without gaps. -/
  numbered : ∀ k (hk : k < taken.length), taken[k].sequence.toNat = k + 1
  accepted : scan file =
    .ok { recordCount := taken.length, nextSequence := UInt64.ofNat (taken.length + 1) }
  /-- A token is found under the key it was written under, with its record. -/
  found : ∀ r ∈ taken, ∀ capacity, r.token.length ≤ capacity →
    find file r.key capacity = .ok (some r)
  absent : ∀ key, (∀ r ∈ taken, r.key ≠ key) → ∀ capacity, find file key capacity = .ok none
  /-- A prefix that ends inside a record is refused. -/
  cut : ∀ n < file.length, (∀ k, ((taken.take k).flatMap Record.bytes).length ≠ n) →
    ∃ e, scan (file.take n) = .error e

theorem scan_eq (bytes : Bytes) : scan bytes = format.fold scanStep bytes.length {} bytes :=
  scanFrom_eq _ _ _

theorem find_eq (bytes : Bytes) (key : Key) (capacity : Nat) :
    find bytes key capacity = format.fold (findStep key capacity) bytes.length none bytes :=
  findFrom_eq _ _ _ _ _

theorem Written.scan {writer : Writer} {taken : List Record} (h : Written writer taken) :
    scan writer.file =
      .ok { recordCount := taken.length, nextSequence := UInt64.ofNat (taken.length + 1) } := by
  have hfile : writer.file = format.file taken := h.file
  let state (n : Nat) : Summary := { recordCount := n, nextSequence := UInt64.ofNat (n + 1) }
  have hloop : taken.foldlM (fun s r => scanStep s r (format.encode r)) (state 0) =
      .ok (state taken.length) := by
    refine Framed.foldlM_counted state fun k hk => ?_
    have hsequence : taken[k].sequence = UInt64.ofNat (k + 1) := h.sequence_eq hk
    simp [state, scanStep, hsequence, UInt64.ofNat_add]
  rw [scan_eq, hfile, Framed.fold_file h.valid _ le_rfl]
  exact hloop

/-- **The compensation log reads back what was written.** -/
theorem Written.readsBack {writer : Writer} {taken : List Record} (h : Written writer taken)
    (hkeys : (taken.map Record.key).Nodup) : ReadsBack writer.file taken where
  numbered := h.numbered
  accepted := h.scan
  found r hr capacity hsize := by
    have hfile : writer.file = format.file taken := h.file
    rw [find_eq, hfile, Framed.fold_file h.valid _ le_rfl]
    exact Framed.foldlM_findStep_found hkeys hr hsize
  absent key hother capacity := by
    have hfile : writer.file = format.file taken := h.file
    rw [find_eq, hfile, Framed.fold_file h.valid _ le_rfl]
    exact Framed.foldlM_findStep_absent hother
  cut n hn hinside := by
    have hfile : writer.file = format.file taken := h.file
    have hlen : (writer.file.take n).length = n := by
      rw [List.length_take, Nat.min_eq_left (by omega)]
    rw [scan_eq, hlen, hfile]
    exact Framed.fold_cut h.valid _ le_rfl (hfile ▸ hn) hinside

end Hermas.Compensation
