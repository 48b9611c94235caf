import Hermas.Journal.History

/-!
# Appending to the journal

The writer numbers each record, encodes it and hands the 64 bytes to a callback
that returns once they are durable. Writes succeed here; what a failed write leaves
in the file is told where the file is shared. The one fact every later file needs
is `scan_appended`: scanning what was appended is scanning the records one by one,
each under the number the scanner expects.
-/

namespace Hermas.Journal

/-- `hermas_journal_writer`, with what its callback has written. -/
structure Writer where
  written : List Bytes := []
  nextSequence : UInt64
  deriving DecidableEq, Repr

/-- `hermas_journal_writer_init` -/
def Writer.init (nextSequence : UInt64) : Except Result Writer :=
  if nextSequence = 0 then .error .invalidArgument else .ok { nextSequence }

/-- `hermas_journal_writer_append` -/
def Writer.append (writer : Writer) (record : Record) : Except Result Writer :=
  if writer.nextSequence = 0 ∨ writer.nextSequence = uint64Max then .error .invalidArgument
  else (encode { record with sequence := writer.nextSequence }).map fun encoded =>
    { written := writer.written ++ [encoded], nextSequence := writer.nextSequence + 1 }

/-- Scanning a record under the number the scanner expects next. -/
def scanNext (state : ScanState) (record : Record) : Except Result ScanState :=
  scanRecord state { record with sequence := state.nextSequence }

/-- The record passes the checks of `encode` under any number. -/
def Stampable (record : Record) : Prop :=
  ∀ sequence ≠ 0, validateRecord { record with sequence } = .ok

theorem stampable_of_valid {record : Record} (h : validateRecord record = .ok) :
    Stampable record := by
  intro sequence hs
  unfold validateRecord at h ⊢
  split_ifs at h with h1 h2 h3 h4
  simp only [not_or] at h2
  simp only [h1, h3, h4, hs, h2.2.1, h2.2.2.1, h2.2.2.2, or_self, not_true,
    if_false]

theorem scanRecord_sequence {st st' : ScanState} {r : Record} (h : scanRecord st r = .ok st') :
    st'.nextSequence = st.nextSequence + 1 := by
  obtain ⟨-, -, -, xs, -, rfl⟩ := scanRecord_ok.mp h
  rfl

theorem scanNext_sequence {st st' : ScanState} {r : Record} (h : scanNext st r = .ok st') :
    st'.nextSequence = st.nextSequence + 1 := scanRecord_sequence h

theorem toNat_succ_sequence {s : UInt64} (h : s.toNat + 1 < 2 ^ 64) :
    (s + 1).toNat = s.toNat + 1 := by
  rw [UInt64.toNat_add]
  exact Nat.mod_eq_of_lt h

/-- The writer is not at the end of its numbers. -/
theorem append_ok {w : Writer} {r : Record} (hr : Stampable r) (h0 : 0 < w.nextSequence.toNat)
    (hmax : w.nextSequence.toNat + 1 < 2 ^ 64) :
    ∃ encoded, encode { r with sequence := w.nextSequence } = .ok encoded ∧
      w.append r = .ok
        { written := w.written ++ [encoded], nextSequence := w.nextSequence + 1 } := by
  have hne : w.nextSequence ≠ 0 := by
    intro h; rw [h] at h0; simp at h0
  have hlt : w.nextSequence ≠ uint64Max := by
    intro h; rw [h] at hmax; revert hmax; decide
  obtain ⟨encoded, he⟩ := encode_of_valid (hr _ hne)
  exact ⟨encoded, he, by simp [Writer.append, hne, hlt, he, Except.map]⟩

/--
**Scanning what was appended is scanning record by record.**

The scanner stands where the writer stands; then every record of the batch is
written, and the scanner makes of the written bytes what it makes of the records.
-/
theorem scan_appended (us : List Record) :
    ∀ {w : Writer} (st : ScanState), (∀ u ∈ us, Stampable u) → st.nextSequence = w.nextSequence →
      0 < w.nextSequence.toNat → w.nextSequence.toNat + us.length < 2 ^ 64 →
      ∃ ws s, us.foldlM Writer.append w =
          .ok { written := w.written ++ ws, nextSequence := s } ∧
        s.toNat = w.nextSequence.toNat + us.length ∧ ws.length = us.length ∧
        (∀ b ∈ ws, b.length = recordSize) ∧
        ws.foldlM scanBytes st = us.foldlM scanNext st := by
  induction us with
  | nil =>
      intro w st _ _ _ _
      exact ⟨[], w.nextSequence, by simp [pure, Except.pure], by simp, rfl, by simp, rfl⟩
  | cons u us ih =>
      intro w st hu hseq h0 hmax
      rw [List.length_cons] at hmax
      obtain ⟨encoded, he, hw⟩ := append_ok (hu u (by simp)) h0 (by omega)
      have hnext := toNat_succ_sequence (s := w.nextSequence) (by omega)
      have hlen := length_encode he
      have hfirst : scanBytes st encoded = scanNext st u := by
        rw [scanBytes, decode_encode he, scanNext, hseq]; rfl
      cases hs : scanNext st u with
      | error e =>
          obtain ⟨ws, s, h1, h2, h3, h4, -⟩ :=
            ih (w := { written := w.written ++ [encoded], nextSequence := w.nextSequence + 1 })
              { st with nextSequence := w.nextSequence + 1 }
              (fun v hv => hu v (by simp [hv])) rfl (by simp only [hnext]; omega)
              (by simp only [hnext]; omega)
          refine ⟨encoded :: ws, s, ?_, ?_, by simp [h3], ?_, ?_⟩
          · simp only [List.foldlM_cons, hw]
            simpa [bind, Except.bind] using h1
          · simp only [hnext] at h2
            rw [h2, List.length_cons]; omega
          · intro b hb
            rcases List.mem_cons.mp hb with rfl | hb
            · exact hlen
            · exact h4 b hb
          · simp [hfirst, hs, bind, Except.bind]
      | ok st₁ =>
          obtain ⟨ws, s, h1, h2, h3, h4, h5⟩ :=
            ih (w := { written := w.written ++ [encoded], nextSequence := w.nextSequence + 1 })
              st₁ (fun v hv => hu v (by simp [hv]))
              (by rw [scanNext_sequence hs, hseq]) (by simp only [hnext]; omega)
              (by simp only [hnext]; omega)
          refine ⟨encoded :: ws, s, ?_, ?_, by simp [h3], ?_, ?_⟩
          · simp only [List.foldlM_cons, hw]
            simpa [bind, Except.bind] using h1
          · simp only [hnext] at h2
            rw [h2, List.length_cons]; omega
          · intro b hb
            rcases List.mem_cons.mp hb with rfl | hb
            · exact hlen
            · exact h4 b hb
          · simpa [hfirst, hs, bind, Except.bind] using h5

end Hermas.Journal
