import Hermas.Journal.Record
import Hermas.Result.StoreLog
import Hermas.Saga.LogScan
import Hermas.Saga.TokenLog

/-!
# What the durable logs read back

There are four logs. The journal and the saga log have records of 64 bytes, and
their codecs lose nothing in either direction, nor does a decoder take a record in
which a burst of errors has changed something; the compensation log and the result
log have records of any length, and reading one back is reading what was appended.
-/

namespace Hermas

/--
**The record codecs are bijections**, for the journal and for the saga log: between the records
that `encode` accepts and the strings of 64 bytes that `decode` accepts.
-/
theorem recordCodecs_bijective :
    ((∀ record bytes, Journal.encode record = .ok bytes →
        bytes.length = 64 ∧ Journal.decode bytes = .ok record) ∧
      ∀ source record, source.length = 64 → Journal.decode source = .ok record →
        Journal.encode record = .ok source) ∧
    ((∀ record bytes, Saga.Log.encode record = .ok bytes →
        bytes.length = 64 ∧ Saga.Log.decode bytes = .ok record) ∧
      ∀ source record, source.length = 64 → Saga.Log.decode source = .ok record →
        Saga.Log.encode record = .ok source) := by
  refine ⟨⟨fun record bytes h => ?_, fun source record hsize h => ?_⟩,
    fun record bytes h => ?_, fun source record hsize h => ?_⟩
  · exact ⟨Journal.length_encode h, Journal.decode_encode h⟩
  · exact Journal.encode_decode hsize h
  · obtain ⟨hvalid, rfl⟩ := Saga.Log.encode_ok.mp h
    exact ⟨record.length_bytes, Saga.Log.decode_bytes hvalid⟩
  · exact Saga.Log.encode_ok.mpr
      ⟨(Saga.Log.decode_ok h).valid, (Saga.Log.bytes_decode hsize h).symm⟩

/-! ## Bursts of errors -/

theorem Journal.Decoded.checksummed {source : Bytes} {record : Journal.Record}
    (h : Journal.Decoded source record) (hsize : source.length = 64) : Checksummed 60 source :=
  ⟨hsize, h.checksum⟩

theorem Saga.Log.Decoded.checksummed {source : Bytes} {record : Saga.Log.Record}
    (h : Saga.Log.Decoded source record) (hsize : source.length = 64) : Checksummed 60 source :=
  ⟨hsize, h.checksum⟩

theorem length_flip {bytes pattern : Bytes} (h : pattern.length = bytes.length) :
    (bytes.flip pattern).length = bytes.length := by
  rw [Bytes.flip, List.length_zipWith, h, Nat.min_self]

/-- A decoder that takes checked strings only refuses a record behind a burst. -/
theorem burst_refused {ρ ε : Type} {decode : Bytes → Except ε ρ}
    (hchecked : ∀ source record, source.length = 64 → decode source = .ok record →
      Checksummed 60 source)
    {source pattern : Bytes} {record : ρ} (hsource : source.length = 64)
    (hpattern : pattern.length = 64) (h : decode source = .ok record)
    (hburst : ShiftRegister.Burst 32 pattern.bits) (hsome : ∃ bit ∈ pattern.bits, bit = true) :
    ∃ e, decode (source.flip pattern) = .error e := by
  cases hflip : decode (source.flip pattern) with
  | error e => exact ⟨e, rfl⟩
  | ok changed =>
      have hlength : pattern.length = source.length := hpattern.trans hsource.symm
      have hnone := (hchecked source record hsource h).burst hlength hburst
        (hchecked _ changed ((length_flip hlength).trans hsource) hflip)
      obtain ⟨bit, hmem, hbit⟩ := hsome
      rw [hnone bit hmem] at hbit
      cases hbit

/--
**Bursts are detected**, in the journal and in the saga log: whatever record 64 bytes hold, an error
that changes something within 32 successive bits of them is refused.
-/
theorem records_detectBursts :
    (∀ source record pattern, source.length = 64 → Journal.decode source = .ok record →
      pattern.length = 64 → ShiftRegister.Burst 32 pattern.bits →
      (∃ bit ∈ pattern.bits, bit = true) → ∃ e, Journal.decode (source.flip pattern) = .error e) ∧
    (∀ source record pattern, source.length = 64 → Saga.Log.decode source = .ok record →
      pattern.length = 64 → ShiftRegister.Burst 32 pattern.bits →
      (∃ bit ∈ pattern.bits, bit = true) → ∃ e, Saga.Log.decode (source.flip pattern) = .error e) :=
  ⟨fun _ _ _ hsource h hpattern hburst hsome =>
      burst_refused (fun _ _ hsize h => (Journal.decode_ok h).checksummed hsize)
        hsource hpattern h hburst hsome,
    fun _ _ _ hsource h hpattern hburst hsome =>
      burst_refused (fun _ _ hsize h => (Saga.Log.decode_ok h).checksummed hsize)
        hsource hpattern h hburst hsome⟩

/-- That the saga of execution 1 has started. -/
def startedSaga : Saga.Log.Record :=
  { kind := .started, outcome := .appError, sequence := 1, executionId := 1, workflowId := 7
    ordinal := 2, imageFingerprint := 9 }

/-- The highest bits of the fingerprint and the lowest of the checksum. -/
def acrossChecksum : Bytes := List.replicate 58 0 ++ [0x80, 0xff, 0xff, 0x7f, 0, 0]

/-- A burst of 24 bits on both sides of the border between the record and its checksum. -/
theorem records_detectBursts_acrossChecksum :
    ∃ e, Saga.Log.decode (startedSaga.bytes.flip acrossChecksum) = .error e := by
  have hwithin : ∀ i < 512, acrossChecksum.bits[i]? = some true → 471 ≤ i ∧ i < 471 + 32 := by
    decide +kernel
  have hburst : ShiftRegister.Burst 32 acrossChecksum.bits := by
    refine ⟨471, fun i hi => hwithin i ?_ hi⟩
    have hlt := (List.getElem?_eq_some_iff.mp hi).1
    rw [length_bits] at hlt
    exact hlt
  exact records_detectBursts.2 startedSaga.bytes startedSaga acrossChecksum startedSaga.length_bytes
    (Saga.Log.decode_bytes (by decide)) rfl hburst ⟨true, by decide +kernel, rfl⟩

/--
**Variable-length logs read back what was written.** Whatever is appended through a fresh writer, in
any number of attempts of which the writer may refuse some: as long as the keys of the records that
it took are distinct, the file reads back those records.
-/
theorem logs_readBack :
    (∀ attempts : List (Compensation.Record × Nat),
      ((Compensation.Writer.appendAll attempts ({ nextSequence := 1 }, [])).2.map
        Compensation.Record.key).Nodup →
      Compensation.ReadsBack
        (Compensation.Writer.appendAll attempts ({ nextSequence := 1 }, [])).1.file
        (Compensation.Writer.appendAll attempts ({ nextSequence := 1 }, [])).2) ∧
    (∀ attempts : List (ResultStore.Record × Nat),
      ((ResultStore.Writer.appendAll attempts ({ nextSequence := 1 }, [])).2.map
        ResultStore.Record.key).Nodup →
      ResultStore.ReadsBack
        (ResultStore.Writer.appendAll attempts ({ nextSequence := 1 }, [])).1.file
        (ResultStore.Writer.appendAll attempts ({ nextSequence := 1 }, [])).2) :=
  ⟨fun attempts hkeys =>
      (Compensation.written_appendAll attempts Compensation.written_init).readsBack hkeys,
    fun attempts hkeys =>
      (ResultStore.written_appendAll attempts ResultStore.written_init).readsBack hkeys⟩

/-- The token of a delivery of execution 1. -/
def tokenOf (requestId : UInt64) (token : Bytes) : Compensation.Record :=
  { key := {
      executionId := 1, workflowId := 7, requestId, nodeId := 2, imageFingerprint := 9 }
    compensationAppId := 1, compensationActionId := 3, sourceType := 1, destinationType := 1, token }

/-- The result of an execution. -/
def resultOf (executionId : UInt64) (value : Bytes) : ResultStore.Record :=
  { key := { executionId, workflowId := 7, imageFingerprint := 9 }
    outcome := .success, sourceType := 1, destinationType := 1, value }

/-- The second of three attempts is refused for want of room; the third is found as record 2. -/
theorem logs_readBack_threeAttempts : ∃ tokens results : Bytes,
    Compensation.find tokens (tokenOf 3 []).key 2 = .ok (some { tokenOf 3 [5, 6] with sequence := 2 }) ∧
      Compensation.find tokens (tokenOf 2 []).key 2 = .ok none ∧
      ResultStore.find results (resultOf 3 []).key 2 =
        .ok (some { resultOf 3 [5, 6] with sequence := 2 }) ∧
      ResultStore.find results (resultOf 2 []).key 2 = .ok none := by
  have htokens := logs_readBack.1 [(tokenOf 1 [4], 80), (tokenOf 2 [4], 72), (tokenOf 3 [5, 6], 80)]
    (by decide)
  have hresults := logs_readBack.2
    [(resultOf 1 [4], 80), (resultOf 2 [4], 64), (resultOf 3 [5, 6], 80)] (by decide)
  exact ⟨_, _,
    htokens.found { tokenOf 3 [5, 6] with sequence := 2 } (by decide) 2 (by decide),
    htokens.absent (tokenOf 2 []).key (by decide) 2,
    hresults.found { resultOf 3 [5, 6] with sequence := 2 } (by decide) 2 (by decide),
    hresults.absent (resultOf 2 []).key (by decide) 2⟩

end Hermas
