import Hermas.Base.LogShared

/-!
# A log that nobody disturbs

Where every call succeeds, with writes as short as they like, a session that finds a good file
lays down its records behind it, one after the other, and acts on each. What is left then is what a
writer that only appends to a list of bytes would have made.
-/

namespace Hermas.LogFile

variable {ι ρ σ ε : Type} {format : Format ι ρ σ ε} {disk : Disk ρ} {pid chunk : Nat}

/-- A kernel at which every call succeeds, with writes of at most so many bytes and one more. -/
def serve (chunk : Nat) : (c : Call ρ) → Disk ρ → Answer c × Disk ρ
  | .openFile, disk => (true, disk)
  | .lock pid, disk =>
      if disk.lock = none then (true, { disk with lock := some pid }) else (false, disk)
  | .fstat, disk => (some ⟨true, true, true, disk.bytes.length⟩, disk)
  | .map count, disk => (some (disk.bytes.take count), disk)
  | .write bytes, disk =>
      (some ⟨min (chunk + 1) bytes.length, Nat.min_le_right ..⟩,
        disk.extend (bytes.take (min (chunk + 1) bytes.length)))
  | .sync, disk => (true, disk.settle)
  | .close, disk => ((), disk)
  | .unlock pid, disk => ((), disk.unlock pid)
  | .act record, disk => ((), disk.act record)
  | .goOn, disk => ((), { disk with spoiled := true })

theorem serve_acts (chunk : Nat) (c : Call ρ) (disk : Disk ρ) :
    acts c disk (serve chunk c disk).1 (serve chunk c disk).2 := by
  cases c with
  | openFile => rfl
  | lock pid =>
      by_cases hfree : disk.lock = none
      · have hserve : serve chunk (.lock pid) disk = (true, { disk with lock := some pid }) :=
          if_pos hfree
        rw [hserve]
        exact .inr ⟨rfl, hfree, rfl⟩
      · have hserve : serve chunk (.lock pid) disk = (false, disk) := if_neg hfree
        rw [hserve]
        exact .inl ⟨rfl, rfl⟩
  | fstat =>
      refine ⟨rfl, fun known hknown => ?_⟩
      cases hknown
      rfl
  | map count =>
      refine ⟨rfl, fun bytes hbytes => ?_⟩
      cases hbytes
      rfl
  | write bytes => rfl
  | sync => exact .inr ⟨rfl, rfl⟩
  | close => rfl
  | unlock pid => rfl
  | act record => rfl
  | goOn => rfl

/-- A record that was written, made durable and acted on. -/
def Disk.append (format : Format ι ρ σ ε) (disk : Disk ρ) (record : ρ) : Disk ρ :=
  ((disk.extend (format.encode record)).settle).act record

theorem Disk.foldl_append (records : List ρ) (disk : Disk ρ) :
    (records.foldl (Disk.append format) disk).bytes = disk.bytes ++ format.file records ∧
      (records.foldl (Disk.append format) disk).acted = disk.acted ++ records ∧
      (records.foldl (Disk.append format) disk).lock = disk.lock ∧
      (records.foldl (Disk.append format) disk).spoiled = disk.spoiled := by
  induction records generalizing disk with
  | nil => exact ⟨by rw [Framed.file_nil, List.append_nil]; rfl, (List.append_nil _).symm, rfl, rfl⟩
  | cons record records ih =>
      obtain ⟨hbytes, hacted, hlock, hspoiled⟩ := ih (disk.append format record)
      refine ⟨?_, ?_, hlock, hspoiled⟩
      · rw [List.foldl_cons, hbytes, Framed.file_cons, ← List.append_assoc]
        rfl
      · rw [List.foldl_cons, hacted]
        exact List.append_assoc disk.acted [record] records

/-- The records of entries as a writer numbers them. -/
def stampAll (format : Format ι ρ σ ε) (next : UInt64) : List ι → Except ε (List ρ)
  | [] => .ok []
  | entry :: entries => do
      let record ← format.stamp next entry
      let records ← stampAll format (next + 1) entries
      pure (record :: records)

/-- A writer that numbers as the log does has written the records of its entries. -/
theorem stampAll_of_append {ω β : Type} {append : ω → ι → Except ε ω} {next : ω → UInt64}
    {written : ω → List β} {image : ρ → β}
    (happend : ∀ writer entry writer', append writer entry = .ok writer' →
      ∃ record, format.stamp (next writer) entry = .ok record ∧ next writer' = next writer + 1 ∧
        written writer' = written writer ++ [image record]) :
    ∀ {entries : List ι} {writer writer' : ω}, entries.foldlM append writer = .ok writer' →
      ∃ records, stampAll format (next writer) entries = .ok records ∧
        written writer' = written writer ++ records.map image := by
  intro entries
  induction entries with
  | nil =>
      intro writer writer' h
      cases h
      exact ⟨[], rfl, (List.append_nil _).symm⟩
  | cons entry entries ih =>
      intro writer writer' h
      rw [List.foldlM_cons] at h
      obtain ⟨middle, hfirst, hrest⟩ := bind_ok.mp h
      obtain ⟨record, hstamp, hnext, hwritten⟩ := happend _ _ _ hfirst
      obtain ⟨records, hrecords, hmore⟩ := ih hrest
      rw [hnext] at hrecords
      refine ⟨record :: records, ?_, ?_⟩
      · rw [stampAll, hstamp]
        exact bind_ok.mpr ⟨record, rfl, bind_ok.mpr ⟨records, hrecords, rfl⟩⟩
      · rw [hmore, hwritten, List.append_assoc]
        rfl

/-! ## Runs -/

theorem run_snapshot (hsize : format.checkSize disk.bytes.length = .ok ()) :
    Program.run (serve chunk) format.snapshot disk = (.ok disk.bytes, disk) := by
  have hstat : serve chunk .fstat disk = (some ⟨true, true, true, disk.bytes.length⟩, disk) := rfl
  have hmap : serve chunk (.map disk.bytes.length) disk = (some disk.bytes, disk) := by
    rw [serve, List.take_length]
  simp only [Format.snapshot, Program.request_bind, Program.run_call, hstat, hsize]
  by_cases hempty : disk.bytes.length = 0
  · rw [if_pos hempty, List.length_eq_zero_iff.mp hempty]
    rfl
  · rw [if_neg hempty, Program.run_call, hmap]
    rfl

theorem run_openLog (hlock : disk.lock = none)
    (hsize : format.checkSize disk.bytes.length = .ok ()) {summary : σ}
    (hscan : format.scan disk.bytes = .ok summary) (hnext : format.next summary ≠ 0) :
    Program.run (serve chunk) (format.openLog pid) disk =
      (.ok summary, { disk with lock := some pid }) := by
  have hopen : serve chunk .openFile disk = (true, disk) := rfl
  have hlocked : serve chunk (.lock pid) disk = (true, { disk with lock := some pid }) :=
    if_pos hlock
  have hstat : serve chunk .fstat ({ disk with lock := some pid } : Disk ρ) =
      (some ⟨true, true, true, disk.bytes.length⟩, { disk with lock := some pid }) := rfl
  have hsnapshot : Program.run (serve chunk) format.snapshot { disk with lock := some pid } =
      (.ok disk.bytes, { disk with lock := some pid }) := run_snapshot hsize
  have hscanned : (Except.ok disk.bytes : Except ε Bytes).bind format.scan = .ok summary := hscan
  simp only [Format.openLog, Program.request_bind, Program.run_call, hopen, hlocked, hstat,
    reduceCtorEq, if_false, Status.safe, Bool.and_self, if_true, Program.run_bind, hsnapshot,
    hscanned, if_neg hnext]
  rfl

theorem run_writeLoop (bytes : Bytes) (disk : Disk ρ) :
    Program.run (serve chunk) (writeLoop bytes) disk = (true, disk.extend bytes) := by
  rw [writeLoop]
  split
  · rename_i hnil
    subst hnil
    rw [Program.run_done, Disk.extend, List.append_nil]
  · rename_i hne
    have hpos := List.length_pos_of_ne_nil hne
    obtain ⟨count, hcount⟩ : ∃ count, min (chunk + 1) bytes.length = count + 1 :=
      Nat.exists_eq_succ_of_ne_zero (by omega)
    have hle : count + 1 ≤ bytes.length := by omega
    have hanswer : serve chunk (.write bytes) disk =
        (some ⟨count + 1, hle⟩, disk.extend (bytes.take (count + 1))) := by
      simp only [serve, hcount]
    have hnext := run_writeLoop (bytes.drop (count + 1)) (disk.extend (bytes.take (count + 1)))
    rw [Program.run_call, hanswer]
    refine hnext.trans ?_
    simp only [Disk.extend, List.append_assoc, List.take_append_drop]
termination_by bytes.length
decreasing_by
  rw [List.length_drop]
  omega

theorem run_writeSynchronized (bytes : Bytes) (disk : Disk ρ) :
    Program.run (serve chunk) (writeSynchronized bytes) disk =
      (true, (disk.extend bytes).settle) := by
  rw [writeSynchronized, Program.run_bind, run_writeLoop]
  rfl

theorem run_operate (goesOn : Bool) : ∀ (entries : List ι) {next : UInt64} {records : List ρ}
    (disk : Disk ρ), stampAll format next entries = .ok records →
      Program.run (serve chunk) (format.operate next (entries.map (.append · goesOn))) disk =
        (records.map .appended, records.foldl (Disk.append format) disk) := by
  intro entries
  induction entries with
  | nil =>
      intro next records disk hstamp
      cases hstamp
      rfl
  | cons entry entries ih =>
      intro next records disk hstamp
      obtain ⟨record, hrecord, hmore⟩ := bind_ok.mp hstamp
      obtain ⟨rest, hrest, hpure⟩ := bind_ok.mp hmore
      cases hpure
      have hact : serve chunk (.act record) ((disk.extend (format.encode record)).settle) =
          ((), disk.append format record) := rfl
      -- the record is laid down and acted on, and the rest follows behind it
      rw [List.map_cons, Format.operate, hrecord]
      simp only [Program.run_bind, run_writeSynchronized, if_true, Program.request_bind,
        Program.run_call, hact, Program.run_map, ih _ hrest]
      rfl

/-- **A session lays down its records behind the file and acts on each.** -/
theorem run_session (hlock : disk.lock = none)
    (hsize : format.checkSize disk.bytes.length = .ok ()) {summary : σ}
    (hscan : format.scan disk.bytes = .ok summary) (hnext : format.next summary ≠ 0)
    {entries : List ι} {records : List ρ}
    (hstamp : stampAll format (format.next summary) entries = .ok records) (goesOn : Bool) :
    Program.run (serve chunk) (format.session pid (entries.map (.append · goesOn))) disk =
      (.ok (.session summary (records.map .appended)),
        { records.foldl (Disk.append format) { disk with lock := some pid } with lock := none }) := by
  obtain ⟨-, -, hheld, -⟩ :=
    @Disk.foldl_append ι ρ σ ε format records { disk with lock := some pid }
  have hunlock : serve chunk (.unlock pid)
      (records.foldl (Disk.append format) { disk with lock := some pid }) =
        ((), { records.foldl (Disk.append format) { disk with lock := some pid } with
          lock := none }) := by
    rw [serve, Disk.unlock, if_pos hheld]
  rw [Format.session, Program.run_bind, run_openLog hlock hsize hscan hnext]
  simp only [Program.run_bind, run_operate goesOn entries _ hstamp, Program.request_bind,
    Program.run_call, hunlock]
  rfl

/-! ## Reached -/

/-- A log with its processes. -/
abbrev Processes (ι ρ σ ε : Type) :=
  Commons Nat (Request ι ρ) (@Answer ρ) (Except ε (Outcome ρ σ ε)) (Disk ρ)

/-- No process, and an empty file. -/
def fresh : Processes ι ρ σ ε where
  shared := {}
  live _ := none
  ended := []

theorem reach_fresh (format : Format ι ρ σ ε) :
    (Commons.system format.rules).Reach (fresh : Processes ι ρ σ ε) :=
  .init ⟨⟨rfl, rfl, rfl, Nat.le_refl 0⟩, fun _ => rfl, rfl⟩

/-- A session that nobody disturbs, in a state that was reached. -/
theorem reach_session {processes : Processes ι ρ σ ε}
    (h : (Commons.system format.rules).Reach processes) (hidle : processes.live pid = none)
    (hlock : processes.shared.lock = none)
    (hsize : format.checkSize processes.shared.bytes.length = .ok ()) {summary : σ}
    (hscan : format.scan processes.shared.bytes = .ok summary) (hnext : format.next summary ≠ 0)
    {known : List ρ} (hknown : ∀ record ∈ known, record ∈ processes.shared.acted)
    {entries : List ι} {records : List ρ}
    (hstamp : stampAll format (format.next summary) entries = .ok records) (goesOn : Bool) :
    ∃ disk, (Commons.system format.rules).Reach { processes with
        shared := disk
        ended := processes.ended ++ [(.session known (entries.map (.append · goesOn)),
          .ok (.session summary (records.map .appended)))] } ∧
      disk.bytes = processes.shared.bytes ++ format.file records ∧
      disk.acted = processes.shared.acted ++ records ∧ disk.lock = none ∧
      disk.spoiled = processes.shared.spoiled := by
  have hadmits : format.rules.admits (.session known (entries.map (.append · goesOn)))
      processes.shared := hknown
  have hreach := Commons.reach_alone (serve_acts 10) h hidle hadmits
  have hcode : format.rules.code pid (.session known (entries.map (.append · goesOn))) =
      format.session pid (entries.map (.append · goesOn)) := rfl
  rw [hcode, run_session hlock hsize hscan hnext hstamp] at hreach
  obtain ⟨hbytes, hacted, -, hspoiled⟩ :=
    @Disk.foldl_append ι ρ σ ε format records { processes.shared with lock := some pid }
  exact ⟨_, hreach, hbytes, hacted, rfl, hspoiled⟩

end Hermas.LogFile
