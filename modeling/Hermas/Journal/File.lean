import Hermas.Base.Pieces
import Hermas.Journal.Accepted

/-!
# The journal in its file

The daemon appends to the journal under the lock of its file, and anybody may inspect it meanwhile.
A file that the scan accepts is its records of 64 bytes, one behind the other, under ascending
numbers. So what was appended, and acted on then, stays through kills and crashes, and every later
start and inspection reads it.
-/

namespace Hermas.Journal

/-! ## The format -/

/-- The bytes of a record that `encode` accepts. -/
def Record.bytes (record : Record) : Bytes :=
  body record ++ Bytes.writeU32 (checksum (body record) 60)

theorem Record.length_bytes (record : Record) : record.bytes.length = recordSize := by
  simp [Record.bytes, length_body, recordSize]

theorem encode_eq {record : Record} (h : validateRecord record = .ok) :
    encode record = .ok record.bytes := by
  rw [encode, h]
  rfl

theorem bytes_of_decode {source : Bytes} {record : Record} (hsize : source.length = recordSize)
    (h : decode source = .ok record) : record.bytes = source := by
  have hencode := encode_decode hsize h
  rw [encode_eq (valid_of_decode h)] at hencode
  exact Except.ok.inj hencode

/-- Journals are made of records of 64 bytes. -/
def pieces : Pieces Record Result where
  Valid record := validateRecord record = .ok
  size := recordSize
  encode := Record.bytes
  decode := decode
  size_pos := by decide
  length_encode := Record.length_bytes
  decode_encode _ h := decode_encode (encode_eq h)
  encode_decode hsize h := ⟨valid_of_decode h, bytes_of_decode hsize h⟩
  decode_short hshort := ⟨.bufferTooSmall, by rw [decode, if_pos hshort]; rfl⟩

/-- The record as `hermas_journal_writer_append` numbers it. -/
def stamp : UInt64 → Record → Except Result Record :=
  LogFile.stampWith .invalidArgument encode fun sequence record => { record with sequence }

theorem stamp_ok {sequence : UInt64} {record stamped : Record}
    (h : stamp sequence record = .ok stamped) :
    validateRecord stamped = .ok ∧ stamped.sequence = sequence ∧ sequence ≠ uint64Max := by
  obtain ⟨hends, rfl, encoded, hencode⟩ := LogFile.stampWith_ok.mp h
  exact ⟨valid_of_encode hencode, rfl, fun hmax => hends (.inr hmax)⟩

/-- The sizes that `scan_descriptor` accepts. -/
def checkSize (size : Nat) : Except Result Unit :=
  if uint64Max.toNat < size ∨ size % recordSize ≠ 0 then .error .invalidSize else .ok ()

theorem checkSize_ok {size : Nat} :
    checkSize size = .ok () ↔ size < 2 ^ 64 ∧ size % recordSize = 0 := by
  have hmax : uint64Max.toNat = 2 ^ 64 - 1 := rfl
  unfold checkSize
  split_ifs with h
  · refine iff_of_false (fun hok => by cases hok) fun hsize => ?_
    rcases h with hlong | hrest
    · omega
    · exact hrest hsize.2
  · rw [not_or, not_lt, not_not] at h
    exact iff_of_true rfl ⟨by omega, h.2⟩

/-- **An accepted file is the records it decodes to.** -/
theorem written_scan {bytes : Bytes} {summary : Summary} (hsize : checkSize bytes.length = .ok ())
    (h : scan bytes = .ok summary) :
    pieces.framed.Written Record.sequence bytes summary.nextSequence (journalRecords bytes) := by
  obtain ⟨hlong, hwhole⟩ := checkSize_ok.mp hsize
  obtain ⟨-, st, hrun, rfl⟩ := scan_ok.mp h
  have hstep : ∀ st record st', scanRecord st record = .ok st' →
      record.sequence = st.nextSequence ∧ st'.nextSequence = st.nextSequence + 1 :=
    fun _ _ _ hrecord => ⟨(scanRecord_ok.mp hrecord).1, scanRecord_sequence hrecord⟩
  -- a file that can be mapped has fewer records than there are numbers
  have hfew : bytes.length / pieces.size + 1 < 2 ^ 64 := by
    show bytes.length / 64 + 1 < 2 ^ 64
    omega
  exact @Pieces.written_scan _ _ _ pieces scanRecord Record.sequence ScanState.nextSequence hstep
    {} st rfl bytes hfew hwhole hrun

/-- The file of the journal, with the results of `hermas_journal_file_open`. -/
def format : LogFile.Format Record Record Summary Result where
  toFramed := pieces.framed
  number := Record.sequence
  stamp := stamp
  checkSize := checkSize
  scan := scan
  next := Summary.nextSequence
  writeError := .writeError
  badFile := .invalidSize
  badNumber := .invalidArgument
  stamp_ok := stamp_ok
  scan_ok hsize hscan := ⟨_, written_scan hsize hscan⟩

/-! ## What a session writes -/

/-- **A writer appends its records as the log numbers them.** -/
theorem append_stamp (writer : Writer) (record : Record) (writer' : Writer)
    (h : writer.append record = .ok writer') :
    ∃ stamped, format.stamp writer.nextSequence record = .ok stamped ∧
      writer'.nextSequence = writer.nextSequence + 1 ∧
        writer'.written = writer.written ++ [stamped.bytes] := by
  unfold Writer.append at h
  split_ifs at h with hends
  cases hencode : encode { record with sequence := writer.nextSequence } with
  | error reason =>
      rw [hencode] at h
      cases h
  | ok encoded =>
      rw [hencode] at h
      cases h
      refine ⟨{ record with sequence := writer.nextSequence }, ?_, rfl, ?_⟩
      · show stamp writer.nextSequence record = _
        unfold stamp
        exact LogFile.stampWith_ok.mpr ⟨hends, rfl, encoded, hencode⟩
      · rw [encode_eq (valid_of_encode hencode)] at hencode
        rw [Except.ok.inj hencode]

theorem fileOpen_eq_ok {bytes : Bytes} {writer : Writer} {summary : Summary}
    (h : fileOpen bytes = .ok (writer, summary)) :
    bytes.length % recordSize = 0 ∧ scan bytes = .ok summary ∧ summary.nextSequence ≠ 0 ∧
      writer = { nextSequence := summary.nextSequence } := by
  unfold fileOpen at h
  split_ifs at h with hsize
  cases hscan : scan bytes with
  | error reason =>
      rw [hscan] at h
      cases h
  | ok found =>
      rw [hscan] at h
      by_cases hnext : found.nextSequence = 0
      · simp [Writer.init, hnext, Except.map] at h
      · simp only [Writer.init, hnext, if_false, Except.map, Except.ok.injEq, Prod.mk.injEq] at h
        obtain ⟨hwriter, rfl⟩ := h
        exact ⟨not_not.mp hsize, rfl, hnext, hwriter.symm⟩

/-- **A session that nobody disturbs is the writer's.** What the writer has written behind the file
it was opened on stands in the file afterwards. -/
theorem session_writes {disk : LogFile.Disk Record} {pid chunk : Nat} (hlock : disk.lock = none)
    (hlong : disk.bytes.length < 2 ^ 64) {writer writer' : Writer} {summary : Summary}
    (hopen : fileOpen disk.bytes = .ok (writer, summary)) {entries : List Record}
    (happend : entries.foldlM Writer.append writer = .ok writer') (goesOn : Bool) :
    ∃ reports disk', Program.run (LogFile.serve chunk)
        (format.session pid (entries.map (.append · goesOn))) disk =
          (.ok (.session summary reports), disk') ∧
      disk'.bytes = disk.bytes ++ writer'.written.flatten := by
  obtain ⟨hsize, hscan, hnext, rfl⟩ := fileOpen_eq_ok hopen
  obtain ⟨records, hrecords, hwritten⟩ := LogFile.stampAll_of_append append_stamp happend
  have hsession := @LogFile.run_session _ _ _ _ format disk pid chunk hlock
    (checkSize_ok.mpr ⟨hlong, hsize⟩) summary hscan hnext entries records hrecords goesOn
  refine ⟨_, _, hsession, ?_⟩
  obtain ⟨hbytes, -⟩ := @LogFile.Disk.foldl_append _ _ _ _ format records
    { disk with lock := some pid }
  rw [hwritten]
  exact hbytes

/-! ## Runs -/

/-- Processes on one journal. -/
abbrev Processes := LogFile.Processes Record Record Summary Result

/-- **What was acted on stays in the journal, and whoever reads it reads that.**

However many processes open, append and inspect, are killed and see their calls fail, and whenever
the machine stops: as long as no process goes on after a failed write, the records that were acted
on are durable, whole and in their order, and whatever is opened or inspected has those that were
acted on before. -/
theorem journal_kept {processes : Processes} (h : (Commons.system format.rules).Reach processes)
    (hwhole : processes.shared.spoiled = false) :
    LogFile.Kept format recordSize journalRecords processes :=
  LogFile.kept_of_reach (show format.toFramed = pieces.framed from rfl) h hwhole

/-- The first record of a journal. -/
def first : Record where
  sequence := 1
  kind := .executionStarted
  outcome := .none
  executionId := 1
  workflowId := 1
  imageFingerprint := 7

theorem journal_kept_first : ∃ processes : Processes, processes.shared.acted = [first] ∧
    LogFile.Kept format recordSize journalRecords processes := by
  obtain ⟨disk, hreach, -, hacted, -, hspoiled⟩ := @LogFile.reach_session _ _ _ _ format 0
    LogFile.fresh (LogFile.reach_fresh format) rfl rfl rfl _ rfl (by decide) [] (by simp)
    [first] [first] rfl false
  exact ⟨_, hacted, journal_kept hreach hspoiled⟩

end Hermas.Journal
