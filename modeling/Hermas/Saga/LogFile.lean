import Hermas.Base.Pieces
import Hermas.Saga.LogHistory

/-!
# The saga log in its file

The saga log is shared as the journal is: under the lock of its file compensations are appended to
it, and what a compensation has sent is acted on only when it is durable. So a restart finds all of
it, in the order in which it was sent.
-/

namespace Hermas.Saga.Log

/-! ## The format -/

/-- Saga logs are made of records of 64 bytes. -/
def pieces : Pieces Record Result where
  Valid record := validateRecord record = .ok
  size := recordSize
  encode := Record.bytes
  decode := decode
  size_pos := by decide
  length_encode := Record.length_bytes
  decode_encode _ h := decode_bytes h
  encode_decode hsize h := ⟨(decode_ok h).valid, bytes_decode hsize h⟩
  decode_short hshort := ⟨.bufferTooSmall, by rw [decode, if_pos hshort]; rfl⟩

/-- The record as `hermas_saga_log_writer_append` numbers it. -/
def stamp : UInt64 → Record → Except Result Record :=
  LogFile.stampWith .invalidArgument encode fun sequence record => { record with sequence }

theorem stamp_ok {sequence : UInt64} {record stamped : Record}
    (h : stamp sequence record = .ok stamped) :
    validateRecord stamped = .ok ∧ stamped.sequence = sequence ∧ sequence ≠ uint64Max := by
  obtain ⟨hends, rfl, encoded, hencode⟩ := LogFile.stampWith_ok.mp h
  exact ⟨(encode_ok.mp hencode).1, rfl, fun hmax => hends (.inr hmax)⟩

/-- The sizes that `scan_descriptor` accepts. -/
def checkSize (size : Nat) : Except Result Unit :=
  if uint64Max.toNat < size then .error .invalidRecord else .ok ()

theorem checkSize_ok {size : Nat} : checkSize size = .ok () ↔ size < 2 ^ 64 := by
  have hmax : uint64Max.toNat = 2 ^ 64 - 1 := rfl
  unfold checkSize
  split_ifs with h
  · exact iff_of_false (fun hok => by cases hok) fun hsize => by omega
  · exact iff_of_true rfl (by omega)

theorem scanRecord_numbered {st st' : ScanState} {r : Record} (h : scanRecord st r = .ok st') :
    r.sequence = st.nextSequence ∧ st'.nextSequence = st.nextSequence + 1 := by
  unfold scanRecord at h
  by_cases hsequence : r.sequence = st.nextSequence
  · rw [if_neg (not_not.mpr hsequence)] at h
    obtain ⟨xs, -, hst⟩ := bind_ok.mp h
    rw [← pure_ok.mp hst]
    exact ⟨hsequence, rfl⟩
  · rw [if_pos hsequence] at h
    cases h

/-- **An accepted file is the records it decodes to.** -/
theorem written_scan {bytes : Bytes} {summary : Summary} (hsize : checkSize bytes.length = .ok ())
    (h : scan bytes = .ok summary) :
    pieces.framed.Written Record.sequence bytes summary.nextSequence (logRecords bytes) := by
  have hlong := checkSize_ok.mp hsize
  have hstep : ∀ st record st', scanRecord st record = .ok st' →
      record.sequence = st.nextSequence ∧ st'.nextSequence = st.nextSequence + 1 :=
    fun _ _ _ hrecord => scanRecord_numbered hrecord
  -- a file that can be mapped has fewer records than there are numbers
  have hfew : bytes.length / pieces.size + 1 < 2 ^ 64 := by
    show bytes.length / 64 + 1 < 2 ^ 64
    omega
  unfold scan at h
  split_ifs at h with hpart
  cases hrun : (bytes.records recordSize (bytes.length / recordSize)).foldlM scanBytes {} with
  | error reason =>
      rw [hrun] at h
      cases h
  | ok st =>
      rw [hrun] at h
      cases h
      exact @Pieces.written_scan _ _ _ pieces scanRecord Record.sequence ScanState.nextSequence
        hstep {} st rfl bytes hfew (not_not.mp hpart) hrun

/-- The file of the saga log, with the results of `hermas_saga_log_file_open`. -/
def format : LogFile.Format Record Record Summary Result where
  toFramed := pieces.framed
  number := Record.sequence
  stamp := stamp
  checkSize := checkSize
  scan := scan
  next := Summary.nextSequence
  writeError := .writeError
  badFile := .invalidRecord
  badNumber := .invalidArgument
  stamp_ok := stamp_ok
  scan_ok hsize hscan := ⟨_, written_scan hsize hscan⟩

/-! ## What a session writes -/

/-- **A writer appends its records as the log numbers them.** -/
theorem append_stamp (writer : Writer) (record : Record) (writer' : Writer)
    (h : writer.append record = .ok writer') :
    ∃ stamped, format.stamp writer.nextSequence record = .ok stamped ∧
      writer'.nextSequence = writer.nextSequence + 1 ∧
        writer'.written = writer.written ++ [id stamped] := by
  unfold Writer.append at h
  split_ifs at h with hends
  cases hencode : encode { record with sequence := writer.nextSequence } with
  | error reason =>
      simp only [hencode] at h
      cases h
  | ok encoded =>
      simp only [hencode] at h
      cases h
      refine ⟨{ record with sequence := writer.nextSequence }, ?_, rfl, rfl⟩
      show stamp writer.nextSequence record = _
      unfold stamp
      exact LogFile.stampWith_ok.mpr ⟨hends, rfl, encoded, hencode⟩

/-- **A session that nobody disturbs is the writer's.** What the writer has written stands behind the
file that was there. -/
theorem session_writes {disk : LogFile.Disk Record} {pid chunk : Nat} (hlock : disk.lock = none)
    (hlong : disk.bytes.length < 2 ^ 64) {summary : Summary}
    (hscan : scan disk.bytes = .ok summary) (hnext : summary.nextSequence ≠ 0)
    {writer : Writer} {entries : List Record}
    (happend : entries.foldlM Writer.append { nextSequence := summary.nextSequence } = .ok writer)
    (goesOn : Bool) :
    ∃ reports disk', Program.run (LogFile.serve chunk)
        (format.session pid (entries.map (.append · goesOn))) disk =
          (.ok (.session summary reports), disk') ∧
      disk'.bytes = disk.bytes ++ file writer.written := by
  obtain ⟨records, hrecords, hwritten⟩ := LogFile.stampAll_of_append append_stamp happend
  rw [List.map_id] at hwritten
  have hsession := @LogFile.run_session _ _ _ _ format disk pid chunk hlock
    (checkSize_ok.mpr hlong) summary hscan hnext entries records hrecords goesOn
  refine ⟨_, _, hsession, ?_⟩
  obtain ⟨hbytes, -⟩ := @LogFile.Disk.foldl_append _ _ _ _ format records
    { disk with lock := some pid }
  rw [hwritten]
  exact hbytes

/-! ## Runs -/

/-- Processes on one saga log. -/
abbrev Processes := LogFile.Processes Record Record Summary Result

/-- **What a compensation acted on stays in the saga log, and whoever reads it reads that.** -/
theorem saga_log_kept {processes : Processes}
    (h : (Commons.system format.rules).Reach processes)
    (hwhole : processes.shared.spoiled = false) :
    LogFile.Kept format recordSize logRecords processes :=
  LogFile.kept_of_reach (show format.toFramed = pieces.framed from rfl) h hwhole

/-- The first record of a saga log. -/
def first : Record where
  sequence := 1
  kind := .started
  outcome := .appError
  executionId := 1
  workflowId := 1
  ordinal := 1
  imageFingerprint := 7

theorem saga_log_kept_first : ∃ processes : Processes, processes.shared.acted = [first] ∧
    LogFile.Kept format recordSize logRecords processes := by
  obtain ⟨disk, hreach, -, hacted, -, hspoiled⟩ := @LogFile.reach_session _ _ _ _ format 0
    LogFile.fresh (LogFile.reach_fresh format) rfl rfl rfl _ rfl (by decide) [] (by simp)
    [first] [first] rfl false
  exact ⟨_, hacted, saga_log_kept hreach hspoiled⟩

end Hermas.Saga.Log
