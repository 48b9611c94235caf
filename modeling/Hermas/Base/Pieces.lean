import Hermas.Base.LogAlone

/-!
# Logs of records of one size

Where every record takes as many bytes, a reader cuts the file into pieces and decodes each. A piece
is read as a record only if it is what that record is written as; so such a log is framed, and a file
whose pieces are all read, under ascending numbers, is one that was written. In a file that processes
share, the records that were acted on are then among those that its pieces are read as.
-/

namespace Hermas

variable {ρ ε σ : Type}

/-- A format whose records all take as many bytes. -/
structure Pieces (ρ ε : Type) where
  Valid : ρ → Prop
  size : Nat
  encode : ρ → Bytes
  /-- The record of a piece. -/
  decode : Bytes → Except ε ρ
  size_pos : 0 < size
  length_encode : ∀ r, (encode r).length = size
  decode_encode : ∀ r, Valid r → decode (encode r) = .ok r
  encode_decode : ∀ {piece r}, piece.length = size → decode piece = .ok r →
    Valid r ∧ encode r = piece
  decode_short : ∀ {piece}, piece.length < size → ∃ e, decode piece = .error e

namespace Pieces

variable (format : Pieces ρ ε)

/-- The record at the front of a file, and how many bytes it takes. -/
def read (source : Bytes) : Except ε (ρ × Nat) :=
  (format.decode (source.take format.size)).map fun r => (r, format.size)

theorem read_encode {r : ρ} (h : format.Valid r) (rest : Bytes) :
    format.read (format.encode r ++ rest) = .ok (r, (format.encode r).length) := by
  have hlength := format.length_encode r
  have hfront : (format.encode r ++ rest).take format.size = format.encode r :=
    List.take_left' hlength
  rw [read, hfront, format.decode_encode r h, hlength]
  rfl

theorem read_cut (r : ρ) {count : Nat} (hcount : count < (format.encode r).length) :
    ∃ e, format.read ((format.encode r).take count) = .error e := by
  rw [format.length_encode] at hcount
  have hshort : (((format.encode r).take count).take format.size).length < format.size := by
    rw [List.length_take, List.length_take]
    omega
  obtain ⟨e, he⟩ := format.decode_short hshort
  refine ⟨e, ?_⟩
  rw [read, he]
  rfl

/-- A log of pieces is framed. -/
def framed : Framed ρ ε where
  Valid := format.Valid
  encode := format.encode
  decode := format.read
  encode_pos r _ := by
    rw [format.length_encode]
    exact format.size_pos
  decode_encode _ h rest := format.read_encode h rest
  decode_cut r _ _ hcount := format.read_cut r hcount

/-- What the pieces of a file are read as. -/
def recordsIn (bytes : Bytes) : List ρ :=
  (bytes.records format.size (bytes.length / format.size)).filterMap fun piece =>
    (format.decode piece).toOption

theorem length_file (records : List ρ) :
    (format.framed.file records).length = format.size * records.length := by
  induction records with
  | nil => rfl
  | cons r records ih =>
      rw [Framed.file_cons, List.length_append, ih, List.length_cons, Nat.mul_succ, Nat.add_comm]
      exact congrArg _ (format.length_encode r)

/-- The records of a file are read back. -/
theorem recordsIn_file {records : List ρ} (hvalid : ∀ r ∈ records, format.Valid r) :
    format.recordsIn (format.framed.file records) = records := by
  have hsize : ∀ piece ∈ records.map format.encode, piece.length = format.size := by
    intro piece hpiece
    obtain ⟨r, -, rfl⟩ := List.mem_map.mp hpiece
    exact format.length_encode r
  have hpieces := Bytes.records_flatten _ hsize
  rw [List.length_map] at hpieces
  have hfile : format.framed.file records = (records.map format.encode).flatten :=
    List.flatMap_def
  rw [recordsIn, length_file, Nat.mul_div_cancel_left _ format.size_pos, hfile, hpieces,
    List.filterMap_map]
  refine (List.filterMap_congr fun r hr => ?_).trans List.filterMap_some
  show (format.decode (format.encode r)).toOption = some r
  rw [format.decode_encode r (hvalid r hr)]
  rfl

variable {format} {step : σ → ρ → Except ε σ} {number : ρ → UInt64} {next : σ → UInt64}

/-- A loop over pieces that counts goes on behind the file that was written before. -/
theorem fold_written
    (hstep : ∀ s r s', step s r = .ok s' → number r = next s ∧ next s' = next s + 1) :
    ∀ {pieces : List Bytes} {s s' : σ} {before : Bytes} {taken : List ρ},
      format.framed.Written number before (next s) taken →
        (∀ piece ∈ pieces, piece.length = format.size) →
          taken.length + pieces.length + 1 < 2 ^ 64 →
            pieces.foldlM (fun s piece => format.decode piece >>= step s) s = .ok s' →
              format.framed.Written number (before ++ pieces.flatten) (next s')
                (taken ++ pieces.filterMap fun piece => (format.decode piece).toOption) := by
  intro pieces
  induction pieces with
  | nil =>
      intro s s' before taken hwritten _ _ hfold
      cases hfold
      rw [List.flatten_nil, List.append_nil, List.filterMap_nil, List.append_nil]
      exact hwritten
  | cons piece pieces ih =>
      intro s s' before taken hwritten hsize hfew hfold
      rw [List.foldlM_cons] at hfold
      obtain ⟨s₁, hfirst, hrest⟩ := bind_ok.mp hfold
      obtain ⟨r, hdecode, hnext⟩ := bind_ok.mp hfirst
      obtain ⟨hnumber, hcount⟩ := hstep _ _ _ hnext
      obtain ⟨hvalid, hpiece⟩ := format.encode_decode (hsize piece List.mem_cons_self) hdecode
      rw [List.length_cons] at hfew
      -- the numbers do not run out before the pieces do
      have hmax : next s ≠ uint64Max := by
        intro hmax
        have hlast := hwritten.next
        rw [hmax] at hlast
        have hvalue : uint64Max.toNat = 2 ^ 64 - 1 := rfl
        omega
      have happend := hwritten.append hvalid hnumber hmax
      rw [← hcount] at happend
      have hbehind := ih happend (fun other hother => hsize other (List.mem_cons_of_mem _ hother))
        (by rw [List.length_append, List.length_singleton]; omega) hrest
      have hhead : (piece :: pieces).filterMap (fun piece => (format.decode piece).toOption) =
          r :: pieces.filterMap fun piece => (format.decode piece).toOption :=
        List.filterMap_cons_some (by rw [hdecode]; rfl)
      -- the piece is what its record is written as
      have hencode : format.framed.encode r = piece := hpiece
      rw [hencode, List.append_assoc, List.append_assoc] at hbehind
      rw [hhead, List.flatten_cons]
      exact hbehind

/-- **A file that a counting loop accepts is one that was written.** -/
theorem written_scan
    (hstep : ∀ s r s', step s r = .ok s' → number r = next s ∧ next s' = next s + 1)
    {s s' : σ} (hstart : next s = 1) {bytes : Bytes}
    (hfew : bytes.length / format.size + 1 < 2 ^ 64) (hwhole : bytes.length % format.size = 0)
    (hfold : (bytes.records format.size (bytes.length / format.size)).foldlM
      (fun s piece => format.decode piece >>= step s) s = .ok s') :
    format.framed.Written number bytes (next s') (format.recordsIn bytes) := by
  have hdiv : bytes.length = format.size * (bytes.length / format.size) :=
    (Nat.mul_div_cancel' (Nat.dvd_of_mod_eq_zero hwhole)).symm
  have hempty : format.framed.Written number [] (next s) [] := by
    rw [hstart]
    exact Framed.written_nil
  have hwritten := fold_written hstep hempty
    (fun piece hpiece => Bytes.length_of_mem_records hdiv.ge hpiece)
    (by rwa [List.length_nil, Bytes.length_records, Nat.zero_add]) hfold
  rw [Bytes.flatten_records hdiv, List.nil_append] at hwritten
  exact hwritten

end Pieces

namespace LogFile

variable {ι : Type} {format : Format ι ρ σ ε} {pieces : Pieces ρ ε}
  {processes : Processes ι ρ σ ε}

/-- What processes that share a log of pieces may rely on. -/
structure Kept (format : Format ι ρ σ ε) (size : Nat) (recordsIn : Bytes → List ρ)
    (processes : Processes ι ρ σ ε) : Prop where
  /-- The durable part of the file begins with whole records, and among them are all that were acted
  on, in their order. -/
  durable : ∃ count, size * count ≤ processes.shared.synced ∧
    processes.shared.acted.Sublist (recordsIn (processes.shared.bytes.take (size * count)))
  /-- What is inspected is accepted, and has all that was acted on before. -/
  inspected : ∀ known summary bytes,
    (.inspect known, .ok (.inspected summary bytes)) ∈ processes.ended →
      format.scan bytes = .ok summary ∧ ∀ record ∈ known, record ∈ recordsIn bytes
  /-- What is opened is accepted, and has all that was acted on before. -/
  opened : ∀ known ops summary reports,
    (.session known ops, .ok (.session summary reports)) ∈ processes.ended →
      ∃ bytes, format.scan bytes = .ok summary ∧ ∀ record ∈ known, record ∈ recordsIn bytes
  /-- A record that is reported as appended was acted on. -/
  appended : ∀ known ops summary reports,
    (.session known ops, .ok (.session summary reports)) ∈ processes.ended →
      ∀ record, .appended record ∈ reports → record ∈ processes.shared.acted
  /-- Who has the lock sees what was acted on before it came and what it has appended since. -/
  looked : ∀ known ops summary before bytes after,
    (.session known ops, .ok (.session summary (before ++ .looked (.ok bytes) :: after))) ∈
      processes.ended →
        ∀ record, record ∈ known ∨ .appended record ∈ before → record ∈ recordsIn bytes

/-- **Processes keep a log of pieces**, as long as none goes on after a failed write. -/
theorem kept_of_reach (hpieces : format.toFramed = pieces.framed)
    (h : (Commons.system format.rules).Reach processes)
    (hwhole : processes.shared.spoiled = false) :
    Kept format pieces.size pieces.recordsIn processes := by
  have hheld := (rules_sound format).held h
  have hnot : ¬ Spoiled processes.shared := by
    intro hspoiled
    rw [show processes.shared.spoiled = true from hspoiled] at hwhole
    cases hwhole
  have hright : ∀ {request result}, (request, result) ∈ processes.ended →
      request.Right format result processes.shared := fun hended =>
    (hheld.ended _ _ hended).resolve_left hnot
  -- a file of records has one reading
  have hfile : ∀ {bytes next records}, format.Written format.number bytes next records →
      bytes.length = pieces.size * records.length ∧ pieces.recordsIn bytes = records := by
    intro bytes next records hwritten
    rw [hpieces] at hwritten
    rw [hwritten.file]
    exact ⟨pieces.length_file records, pieces.recordsIn_file hwritten.valid⟩
  refine ⟨?_, fun known summary bytes hended => ?_, fun known ops summary reports hended => ?_,
    fun known ops summary reports hended record => ?_,
    fun known ops summary before bytes after hended => ?_⟩
  · obtain ⟨bytes, next, records, hfront, hlength, hwritten, hacted⟩ :=
      (hheld.inv.resolve_left hnot).acted
    obtain ⟨hsize, hrecords⟩ := hfile hwritten
    refine ⟨records.length, hsize ▸ hlength, ?_⟩
    rw [← hsize, ← List.prefix_iff_eq_take.mp hfront, hrecords]
    exact hacted
  · obtain ⟨hscan, records, hwritten, hknown⟩ := hright hended
    rw [(hfile hwritten).2]
    exact ⟨hscan, hknown⟩
  · obtain ⟨⟨bytes, hscan, records, hwritten, hknown⟩, -⟩ := hright hended
    refine ⟨bytes, hscan, ?_⟩
    rw [(hfile hwritten).2]
    exact hknown
  · exact (hright hended).2.appended
  · obtain ⟨next, records, hwritten, hall⟩ := (hright hended).2.looked
    rw [(hfile hwritten).2]
    exact hall

end LogFile

end Hermas
