import Hermas.Journal.Writer

/-!
# Closing what a crash left open

Startup scans the journal and appends, for each unfinished execution, an
`ActionUnknown` for every delivery that is still open and an
`ExecutionFinished(Unknown)`. The next startup scans the longer file. The scanner
computes the outcome of an execution from all of its facts, the closing code from
nothing: an execution whose deliveries were all closed before the crash keeps its
own aggregate, and `Unknown` contradicts it. `restart_closes_iff` says exactly
when the two agree.
-/

namespace Hermas.Journal

/-- `hermas_journal_file_open` on the bytes of the file. -/
def fileOpen (bytes : Bytes) : Except Result (Writer × Summary) :=
  if bytes.length % recordSize ≠ 0 then .error .invalidSize
  else
    match scan bytes with
    | .error e => .error e
    | .ok summary => (Writer.init summary.nextSequence).map fun writer => (writer, summary)

/-- The fact that closes an open delivery. -/
def unknownRecord (interrupted : Interrupted) (delivery : OpenDelivery) : Record where
  kind := .actionUnknown
  outcome := .unknown
  executionId := interrupted.executionId
  workflowId := interrupted.workflowId
  requestId := delivery.requestId
  nodeId := delivery.nodeId
  appId := delivery.appId
  actionId := delivery.actionId
  imageFingerprint := interrupted.imageFingerprint

/-- The fact that closes an unfinished execution. -/
def finishedRecord (interrupted : Interrupted) : Record where
  kind := .executionFinished
  outcome := .unknown
  executionId := interrupted.executionId
  workflowId := interrupted.workflowId
  imageFingerprint := interrupted.imageFingerprint

/-- One round of the closing loop, with the count of closed executions. -/
def closeExecution (state : Writer × Nat) (interrupted : Interrupted) :
    Except Result (Writer × Nat) := do
  let writer ← interrupted.openDeliveries.foldlM
    (fun writer delivery => writer.append (unknownRecord interrupted delivery)) state.1
  let writer ← writer.append (finishedRecord interrupted)
  pure (writer, state.2 + 1)

/-- `hermas_journal_file_close_interrupted` -/
def fileCloseInterrupted (writer : Writer) (summary : Summary) : Except Result (Writer × Nat) :=
  summary.interrupted.foldlM closeExecution (writer, 0)

/-- What startup makes of the file. -/
def restart (bytes : Bytes) : Except Result Bytes := do
  let (writer, summary) ← fileOpen bytes
  let (writer, _) ← fileCloseInterrupted writer summary
  pure (bytes ++ writer.written.flatten)

/-- The closed file is accepted, nothing is unfinished in it, and a second restart leaves it. -/
def RestartCloses (bytes : Bytes) : Prop :=
  ∃ closed summary, restart bytes = .ok closed ∧ scan closed = .ok summary ∧
    summary.interrupted = [] ∧ restart closed = .ok closed

/-! ## The closing records -/

/-- Everything that is appended for one execution. -/
def closingRecords (interrupted : Interrupted) : List Record :=
  interrupted.openDeliveries.map (unknownRecord interrupted) ++ [finishedRecord interrupted]

theorem closeExecution_eq (w : Writer) (n : Nat) (interrupted : Interrupted) :
    closeExecution (w, n) interrupted =
      ((closingRecords interrupted).foldlM Writer.append w).map fun w' => (w', n + 1) := by
  simp only [closeExecution, closingRecords, List.foldlM_append, List.foldlM_map]
  cases interrupted.openDeliveries.foldlM
      (fun w d => w.append (unknownRecord interrupted d)) w with
  | error e => rfl
  | ok w₁ =>
      cases h : w₁.append (finishedRecord interrupted) with
      | error e => simp [bind, Except.bind, Except.map, h]
      | ok w₂ => simp [bind, Except.bind, Except.map, pure, Except.pure, h]

theorem fileClose_eq (is : List Interrupted) :
    ∀ (w : Writer) (n : Nat), is.foldlM closeExecution (w, n) =
      ((is.flatMap closingRecords).foldlM Writer.append w).map fun w' => (w', n + is.length) := by
  induction is with
  | nil => intro w n; rfl
  | cons x is ih =>
      intro w n
      rw [List.foldlM_cons, closeExecution_eq, List.flatMap_cons, List.foldlM_append]
      cases (closingRecords x).foldlM Writer.append w with
      | error e => rfl
      | ok w₁ =>
          have h := ih w₁ (n + 1)
          rw [List.length_cons, show n + (is.length + 1) = n + 1 + is.length by omega]
          exact h

/-! ## Scanning the closing records -/

/-- The scanner's state behind a record that continues an execution. -/
def ScanState.continued (st : ScanState) (xs : Executions) : ScanState :=
  { st with
    executions := xs
    recordCount := st.recordCount + 1
    nextSequence := st.nextSequence + 1 }

/-- A record of a known execution is accepted when its transition is. -/
theorem scanNext_known (st : ScanState) {r : Record} {i : Fin maxInterrupted}
    (hk : r.kind ≠ .executionStarted)
    (hfind : findScanExecution st.executions r.executionId = some i)
    (hw : (st.executions i).workflowId = r.workflowId)
    (hp : (st.executions i).imageFingerprint = r.imageFingerprint)
    (hlt : r.executionId < st.nextExecutionId) :
    scanNext st r = (transitionKnown (st.executions i) r).map fun x =>
      st.continued (Function.update st.executions i x) := by
  have hle : ¬ st.nextExecutionId ≤ r.executionId := UInt64.not_le.mpr hlt
  have ht : scanTransition st.executions { r with sequence := st.nextSequence } =
      (transitionKnown (st.executions i) r).map (Function.update st.executions i) := by
    simp only [scanTransition, hk, if_false, hfind, hw, hp, ne_eq, not_true, or_self]
    rfl
  cases hx : transitionKnown (st.executions i) r with
  | error e =>
      simp only [hx, Except.map] at ht ⊢
      simp [scanNext, scanRecord, hk, ht, bind, Except.bind]
  | ok x =>
      simp only [hx, Except.map] at ht ⊢
      refine scanRecord_ok.mpr ⟨rfl, fun h => absurd h hk, fun h => hle h.1, _, ht, ?_⟩
      simp [ScanState.continued, ScanState.advance, hk, hle]

theorem findScanExecution_update {xs : Executions} {e : UInt64} {i : Fin maxInterrupted}
    {x : ScanExecution} (ha : x.active = (xs i).active)
    (he : x.executionId = (xs i).executionId) :
    findScanExecution (Function.update xs i x) e = findScanExecution xs e := by
  refine firstIndex_congr fun j => ?_
  by_cases hj : j = i
  · rw [hj, Function.update_self, ha, he]
  · rw [Function.update_of_ne hj]

/-- The scanner finds the execution of an entry at that entry. -/
structure Located (st : ScanState) (i : Fin maxInterrupted) : Prop where
  found : findScanExecution st.executions (st.executions i).executionId = some i
  below : (st.executions i).executionId < st.nextExecutionId

/-- The entry behind `ActionUnknown` records for all of its open deliveries. -/
def ScanExecution.closedOff (x : ScanExecution) : ScanExecution :=
  if x.openDeliveries = [] then x
  else { x with openDeliveries := [], terminalOutcome := .unknown, hasActionOutcome := true }

theorem transition_unknown {x : ScanExecution} {d : OpenDelivery} {ds : List OpenDelivery}
    {interrupted : Interrupted} (h : x.openDeliveries = d :: ds) :
    transitionKnown x (unknownRecord interrupted d) = .ok { x with
      openDeliveries := ds
      terminalOutcome := .unknown
      hasActionOutcome := true } := by
  have hfind : findDelivery x (unknownRecord interrupted d) = some 0 := by
    simp [findDelivery, h, List.findIdx?_cons, routeMatches, unknownRecord]
  refine transitionOutcome_ok.mpr ⟨0, hfind, by simp [PhaseMismatch, unknownRecord], ?_⟩
  have hout : x.outcomeWith .unknown = .unknown := by
    unfold ScanExecution.outcomeWith
    split_ifs with hc
    · rfl
    · cases hx : x.terminalOutcome <;> simp [hx, Outcome.precedence] at hc ⊢
  simp [h, unknownRecord, hout]

/-- All open deliveries of one execution close, one record each. -/
theorem scan_unknowns (interrupted : Interrupted) {i : Fin maxInterrupted}
    (ds : List OpenDelivery) :
    ∀ {st : ScanState}, Located st i → (st.executions i).openDeliveries = ds →
      (st.executions i).executionId = interrupted.executionId →
      (st.executions i).workflowId = interrupted.workflowId →
      (st.executions i).imageFingerprint = interrupted.imageFingerprint →
      ∃ n s, (ds.map (unknownRecord interrupted)).foldlM scanNext st = .ok { st with
        executions := Function.update st.executions i (st.executions i).closedOff
        recordCount := n
        nextSequence := s } := by
  induction ds with
  | nil =>
      intro st _ hd _ _ _
      refine ⟨st.recordCount, st.nextSequence, ?_⟩
      simp [ScanExecution.closedOff, hd, pure, Except.pure]
  | cons d ds ih =>
      intro st hloc hd he hw hp
      have hfind : findScanExecution st.executions interrupted.executionId = some i :=
        he ▸ hloc.found
      have hbelow : interrupted.executionId < st.nextExecutionId := he ▸ hloc.below
      have hfirst := scanNext_known st (r := unknownRecord interrupted d) (by simp [unknownRecord])
        hfind hw hp hbelow
      rw [transition_unknown hd, Except.map] at hfirst
      have hloc' : Located (st.continued (Function.update st.executions i
          { st.executions i with
            openDeliveries := ds
            terminalOutcome := .unknown
            hasActionOutcome := true })) i := by
        constructor
        · simp only [ScanState.continued, Function.update_self]
          refine (findScanExecution_update ?_ ?_).trans hloc.found <;> rfl
        · simpa [ScanState.continued] using hloc.below
      obtain ⟨n, s, hrest⟩ := ih hloc' (by simp [ScanState.continued])
        (by simpa [ScanState.continued] using he) (by simpa [ScanState.continued] using hw)
        (by simpa [ScanState.continued] using hp)
      refine ⟨n, s, ?_⟩
      rw [List.map_cons, List.foldlM_cons, hfirst]
      simp only [bind, Except.bind]
      rw [hrest]
      -- the last of them leaves the same entry behind, whichever came before
      have hlast : ScanExecution.closedOff { st.executions i with
          openDeliveries := ds
          terminalOutcome := .unknown
          hasActionOutcome := true } = (st.executions i).closedOff := by
        cases ds <;> simp [ScanExecution.closedOff, hd]
      simp [ScanState.continued, hlast]

/-- The aggregate of the execution is `Unknown` once its open deliveries are closed. -/
def ScanExecution.ClosesUnknown (x : ScanExecution) : Prop :=
  x.openDeliveries ≠ [] ∨ x.hasActionOutcome = false ∨ x.terminalOutcome = .unknown

theorem transition_finished (x : ScanExecution) (interrupted : Interrupted) :
    (x.ClosesUnknown → transitionKnown x.closedOff (finishedRecord interrupted) = .ok {}) ∧
    (¬ x.ClosesUnknown →
      transitionKnown x.closedOff (finishedRecord interrupted) = .error .invalidTransition) := by
  by_cases hd : x.openDeliveries = []
  · cases hh : x.hasActionOutcome <;> by_cases ht : x.terminalOutcome = .unknown <;>
      simp [transitionKnown, transitionFinished, finishedRecord, ScanExecution.closedOff,
        ScanExecution.ClosesUnknown, hd, hh, ht]
  · simp [transitionKnown, transitionFinished, finishedRecord, ScanExecution.closedOff,
      ScanExecution.ClosesUnknown, hd]

theorem closedOff_fields (x : ScanExecution) :
    x.closedOff.active = x.active ∧ x.closedOff.executionId = x.executionId ∧
      x.closedOff.workflowId = x.workflowId ∧
      x.closedOff.imageFingerprint = x.imageFingerprint := by
  unfold ScanExecution.closedOff
  split_ifs <;> exact ⟨rfl, rfl, rfl, rfl⟩

/-- The closing records of one execution are accepted exactly when its aggregate is `Unknown`,
and then its entry is free again. -/
theorem scan_closing {st : ScanState} {i : Fin maxInterrupted} (h : Located st i) :
    ((st.executions i).ClosesUnknown → ∃ n s,
      (closingRecords (interruptedOf (st.executions i))).foldlM scanNext st = .ok { st with
        executions := Function.update st.executions i {}
        recordCount := n
        nextSequence := s }) ∧
    (¬ (st.executions i).ClosesUnknown → ∃ e,
      (closingRecords (interruptedOf (st.executions i))).foldlM scanNext st = .error e) := by
  obtain ⟨n, s, hu⟩ := scan_unknowns (interruptedOf (st.executions i)) _ h rfl rfl rfl
    rfl
  obtain ⟨-, he, hw, hp⟩ := closedOff_fields (st.executions i)
  have hfind : findScanExecution
      (Function.update st.executions i (st.executions i).closedOff)
      (st.executions i).executionId = some i :=
    (findScanExecution_update (closedOff_fields _).1 he).trans h.found
  have hlast := scanNext_known
    ({ st with
      executions := Function.update st.executions i (st.executions i).closedOff
      recordCount := n
      nextSequence := s })
    (r := finishedRecord (interruptedOf (st.executions i))) (i := i) (by simp [finishedRecord])
    hfind (by simp only [Function.update_self]; exact hw)
    (by simp only [Function.update_self]; exact hp) h.below
  simp only [Function.update_self] at hlast
  have htrans := transition_finished (st.executions i) (interruptedOf (st.executions i))
  simp only [closingRecords, List.foldlM_append]
  rw [show (interruptedOf (st.executions i)).openDeliveries = (st.executions i).openDeliveries
    from rfl, hu]
  constructor
  · intro hc
    rw [htrans.1 hc, Except.map] at hlast
    refine ⟨n + 1, s + 1, ?_⟩
    simp [bind, Except.bind, hlast, ScanState.continued, pure, Except.pure]
  · intro hc
    rw [htrans.2 hc, Except.map] at hlast
    exact ⟨.invalidTransition, by simp [bind, Except.bind, hlast]⟩

theorem located_update {st : ScanState} {i j : Fin maxInterrupted} (hij : j ≠ i)
    (hi : Located st i) (hj : Located st j) (n : Nat) (s : UInt64) :
    Located { st with
      executions := Function.update st.executions i {}
      recordCount := n
      nextSequence := s } j := by
  constructor
  · simp only [Function.update_of_ne hij]
    refine Eq.trans (firstIndex_congr fun k => ?_) hj.found
    by_cases hk : k = i
    · -- the freed entry did not answer to this identity before either
      subst hk
      have hne : (st.executions k).executionId ≠ (st.executions j).executionId := by
        intro he
        have h := hi.found
        rw [he, hj.found] at h
        exact hij (Option.some.inj h)
      simp [hne]
    · rw [Function.update_of_ne hk]
  · simpa [Function.update_of_ne hij] using hj.below

/-- Execution after execution: the whole batch is accepted exactly when every one closes. -/
theorem scan_closing_all (is : List (Fin maxInterrupted)) :
    ∀ st : ScanState, is.Nodup → (∀ i ∈ is, Located st i) →
      ((∀ i ∈ is, (st.executions i).ClosesUnknown) → ∃ st',
        (is.flatMap fun i => closingRecords (interruptedOf (st.executions i))).foldlM
          scanNext st = .ok st' ∧ (∀ i ∈ is, st'.executions i = {}) ∧
        ∀ i ∉ is, st'.executions i = st.executions i) ∧
      (¬ (∀ i ∈ is, (st.executions i).ClosesUnknown) → ∃ e,
        (is.flatMap fun i => closingRecords (interruptedOf (st.executions i))).foldlM
          scanNext st = .error e) := by
  induction is with
  | nil =>
      intro st _ _
      exact ⟨fun _ => ⟨st, rfl, by simp, by simp⟩, fun h => absurd (by simp) h⟩
  | cons i is ih =>
      intro st hnd hloc
      obtain ⟨hni, hnd⟩ := List.nodup_cons.mp hnd
      have hi := hloc i (by simp)
      have hne : ∀ j ∈ is, j ≠ i := fun j hj he => hni (he ▸ hj)
      have hfirst := scan_closing hi
      simp only [List.flatMap_cons, List.foldlM_append]
      by_cases hc : (st.executions i).ClosesUnknown
      · obtain ⟨n, s, hok⟩ := hfirst.1 hc
        rw [hok]
        have hother : ∀ j ∈ is, Function.update st.executions i {} j = st.executions j := by
          intro j hj
          exact Function.update_of_ne (hne j hj) ..
        obtain ⟨h1, h2⟩ := ih { st with
            executions := Function.update st.executions i {}
            recordCount := n
            nextSequence := s } hnd fun j hj =>
          located_update (hne j hj) hi (hloc j (by simp [hj])) n s
        have hsame : (is.flatMap fun j => closingRecords (interruptedOf
            (Function.update st.executions i {} j))) =
            is.flatMap fun j => closingRecords (interruptedOf (st.executions j)) := by
          refine List.flatMap_congr fun j hj => ?_
          rw [hother j hj]
        simp only [hsame] at h1 h2
        constructor
        · intro hall
          obtain ⟨st', hrun, hfree, hkeep⟩ := h1 fun j hj => by
            rw [hother j hj]; exact hall j (by simp [hj])
          refine ⟨st', hrun, ?_, ?_⟩
          · intro j hj
            rcases List.mem_cons.mp hj with rfl | hj
            · rw [hkeep j hni, Function.update_self]
            · exact hfree j hj
          · intro j hj
            rw [List.mem_cons, not_or] at hj
            rw [hkeep j hj.2, Function.update_of_ne hj.1]
        · intro hall
          refine h2 fun hrest => hall fun j hj => ?_
          rcases List.mem_cons.mp hj with rfl | hj
          · exact hc
          · rw [← hother j hj]; exact hrest j hj
      · obtain ⟨e, herr⟩ := hfirst.2 hc
        rw [herr]
        exact ⟨fun hall => absurd (hall i (by simp)) hc, fun _ => ⟨e, rfl⟩⟩

/-! ## From bytes to records -/

/-- The records of a file, front to back. -/
def journalRecords (bytes : Bytes) : List Record :=
  (bytes.records recordSize (bytes.length / recordSize)).filterMap fun b => (decode b).toOption

theorem journalRecords_valid {bytes : Bytes} : ∀ r ∈ journalRecords bytes, validateRecord r = .ok := by
  intro r hr
  obtain ⟨b, -, hb⟩ := List.mem_filterMap.mp hr
  cases hdecode : decode b with
  | error e =>
      rw [hdecode] at hb
      cases hb
  | ok s =>
      rw [hdecode] at hb
      cases hb
      exact valid_of_decode hdecode

/-- Scanning bytes is scanning the records they decode to. -/
theorem scanBytes_records {bs : List Bytes} :
    ∀ {st st' : ScanState}, bs.foldlM scanBytes st = .ok st' →
      scanRecords st (bs.filterMap fun b => (decode b).toOption) = .ok st' ∧
      (bs.filterMap fun b => (decode b).toOption).length = bs.length ∧
      ∀ r ∈ bs.filterMap fun b => (decode b).toOption, validateRecord r = .ok := by
  induction bs with
  | nil => intro st st' h; exact ⟨h, rfl, by simp⟩
  | cons b bs ih =>
      intro st st' h
      rw [List.foldlM_cons] at h
      cases hb : decode b with
      | error e => simp [scanBytes, hb, bind, Except.bind] at h
      | ok r =>
          cases hr : scanRecord st r with
          | error e => simp [scanBytes, hb, hr, bind, Except.bind] at h
          | ok st₁ =>
              simp only [scanBytes, hb, hr, bind, Except.bind] at h
              obtain ⟨h1, h2, h3⟩ := ih h
              simp only [List.filterMap_cons, hb, Except.toOption]
              refine ⟨?_, congrArg (· + 1) h2, ?_⟩
              · rw [scanRecords, List.foldlM_cons, hr]
                exact h1
              · intro x hx
                rcases List.mem_cons.mp hx with rfl | hx
                · exact valid_of_decode hb
                · exact h3 x hx

theorem scan_ok {bytes : Bytes} {S : Summary} :
    scan bytes = .ok S ↔ bytes.length % recordSize = 0 ∧ ∃ st,
      (bytes.records recordSize (bytes.length / recordSize)).foldlM scanBytes {} = .ok st ∧
      st.summary = S := by
  unfold scan
  by_cases h : bytes.length % recordSize = 0
  · cases (bytes.records recordSize (bytes.length / recordSize)).foldlM scanBytes {} <;>
      simp [h, Except.map]
  · simp [h]

/-- **An accepted file is an accepted history.** -/
theorem tracks_scan {bytes : Bytes} {st : ScanState}
    (h : (bytes.records recordSize (bytes.length / recordSize)).foldlM scanBytes {} = .ok st) :
    Tracks (journalRecords bytes) st ∧
      (journalRecords bytes).length = bytes.length / recordSize := by
  obtain ⟨h1, h2, h3⟩ := scanBytes_records h
  exact ⟨tracks_scanRecords tracks_init h3 h1, h2.trans (Bytes.length_records ..)⟩

/-- The scanner goes on behind an accepted file with whatever was appended to it. -/
theorem scan_append {bytes : Bytes} {st : ScanState} {ws : List Bytes}
    (hlen : bytes.length % recordSize = 0)
    (h : (bytes.records recordSize (bytes.length / recordSize)).foldlM scanBytes {} = .ok st)
    (hws : ∀ b ∈ ws, b.length = recordSize) :
    scan (bytes ++ ws.flatten) = (ws.foldlM scanBytes st).map ScanState.summary := by
  have hflat := Bytes.length_flatten_records ws hws
  have hdiv : (bytes ++ ws.flatten).length / recordSize =
      bytes.length / recordSize + ws.length := by
    rw [List.length_append, hflat, Nat.add_mul_div_left _ _ (by decide)]
  have hmod : (bytes ++ ws.flatten).length % recordSize = 0 := by
    rw [List.length_append, hflat, Nat.add_mul_mod_self_left, hlen]
  have hwhole : bytes.length = recordSize * (bytes.length / recordSize) :=
    (Nat.mul_div_cancel' (Nat.dvd_of_mod_eq_zero hlen)).symm
  have hrec : Bytes.records recordSize ((bytes ++ ws.flatten).length / recordSize)
      (bytes ++ ws.flatten) =
      bytes.records recordSize (bytes.length / recordSize) ++ ws := by
    rw [hdiv, Bytes.records_append _ _ _ _ hwhole, Bytes.records_flatten ws hws]
  rw [scan, hrec, hmod, List.foldlM_append, h]
  rfl

/-! ## When the closed file is accepted -/

/-- Every unfinished execution has the aggregate `Unknown` once its open deliveries are closed. -/
def Closable (rs : List Record) : Prop :=
  ∀ e, Unfinished (recordsOf rs e) →
    (∃ q, Open (recordsOf rs e) q) ∨ ¬ HasFact (recordsOf rs e) ∨ HasUnknown (recordsOf rs e)

theorem closesUnknown_iff {own : List Record} {x : ScanExecution} (h : Follows own x) :
    x.ClosesUnknown ↔ (∃ q, Open own q) ∨ ¬ HasFact own ∨ HasUnknown own := by
  have hopen : x.openDeliveries ≠ [] ↔ ∃ q, Open own q := by
    constructor
    · intro hne
      obtain ⟨d, hd⟩ := List.exists_mem_of_ne_nil _ hne
      exact ⟨d.requestId, (h.openIds _).mp (List.mem_map_of_mem hd)⟩
    · rintro ⟨q, hq⟩
      obtain ⟨d, hd, -⟩ := List.mem_map.mp ((h.openIds q).mpr hq)
      exact List.ne_nil_of_mem hd
  rw [ScanExecution.ClosesUnknown, hopen, h.unknown, ← h.fact, Bool.not_eq_true]

theorem closable_iff {rs : List Record} {st : ScanState} (h : Tracks rs st) :
    Closable rs ↔ ∀ i, (st.executions i).active = true → (st.executions i).ClosesUnknown := by
  constructor
  · intro hc i hi
    exact (closesUnknown_iff (h.follows i hi)).mpr (hc _ ((h.unfinished _).mpr ⟨i, hi, rfl⟩))
  · intro hc e he
    obtain ⟨i, hi, rfl⟩ := (h.unfinished e).mp he
    exact (closesUnknown_iff (h.follows i hi)).mp (hc i hi)

theorem tracks_located {rs : List Record} {st : ScanState} (h : Tracks rs st)
    {i : Fin maxInterrupted} (hi : (st.executions i).active = true) : Located st i := by
  constructor
  · refine firstIndex_unique (by simp [hi]) fun j hj => ?_
    simp only [Bool.and_eq_true, beq_iff_eq] at hj
    exact h.unique j i hj.1 hi hj.2
  · obtain ⟨r, hr, -⟩ := ((h.unfinished _).mpr ⟨i, hi, rfl⟩).1
    rw [recordsOf, List.mem_filter, beq_iff_eq] at hr
    exact hr.2 ▸ h.known r hr.1

/-- The occupied entries of the scanner's table. -/
def ScanState.unfinished (st : ScanState) : List (Fin maxInterrupted) :=
  (List.finRange maxInterrupted).filter fun i => (st.executions i).active

theorem summary_interrupted (st : ScanState) :
    st.summary.interrupted = st.unfinished.map fun i => interruptedOf (st.executions i) := rfl

theorem mem_unfinished {st : ScanState} {i : Fin maxInterrupted} :
    i ∈ st.unfinished ↔ (st.executions i).active = true := by
  simp [ScanState.unfinished]

theorem stampable_closing {rs : List Record} {st : ScanState} (h : Tracks rs st)
    {i : Fin maxInterrupted} (hi : (st.executions i).active = true) :
    ∀ u ∈ closingRecords (interruptedOf (st.executions i)), Stampable u := by
  obtain ⟨h1, h2, h3⟩ := h.ids i hi
  intro u hu sequence hs
  rcases List.mem_append.mp hu with hu | hu
  · obtain ⟨d, hd, rfl⟩ := List.mem_map.mp hu
    obtain ⟨n1, n2, n3, n4⟩ := (h.follows i hi).named d hd
    simp [validateRecord, unknownRecord, interruptedOf, OutcomeValid, Kind.isAction, hs, h1, h2, h3,
      n1, n2, n3, n4]
  · rw [List.mem_singleton.mp hu]
    simp [validateRecord, finishedRecord, interruptedOf, OutcomeValid, Kind.isAction, hs, h1, h2,
      h3]

theorem length_flatMap_le {α β : Type} (f : α → List β) (bound : Nat) (xs : List α)
    (h : ∀ x ∈ xs, (f x).length ≤ bound) : (xs.flatMap f).length ≤ bound * xs.length := by
  induction xs with
  | nil => simp
  | cons x xs ih =>
      have hx := h x (by simp)
      have hxs := ih fun y hy => h y (by simp [hy])
      rw [List.flatMap_cons, List.length_append, List.length_cons, Nat.mul_succ]
      omega

theorem length_closing {rs : List Record} {st : ScanState} (h : Tracks rs st) :
    (st.unfinished.flatMap fun i =>
      closingRecords (interruptedOf (st.executions i))).length ≤ 144 := by
  have heach : ∀ i ∈ st.unfinished,
      (closingRecords (interruptedOf (st.executions i))).length ≤ 9 := by
    intro i hi
    have hfew := (h.follows i (mem_unfinished.mp hi)).few
    simp only [maxOpenDeliveries] at hfew
    rw [closingRecords, List.length_append, List.length_map, List.length_singleton]
    simp only [interruptedOf]
    omega
  have hcount : st.unfinished.length ≤ 16 := by
    have := List.length_filter_le (fun i => (st.executions i).active)
      (List.finRange maxInterrupted)
    simpa [ScanState.unfinished, maxInterrupted] using this
  have := length_flatMap_le _ 9 st.unfinished heach
  omega

theorem fileOpen_ok {bytes : Bytes} {S : Summary} (h : scan bytes = .ok S)
    (hne : S.nextSequence ≠ 0) : fileOpen bytes = .ok ({ nextSequence := S.nextSequence }, S) := by
  have hlen := (scan_ok.mp h).1
  simp [fileOpen, hlen, h, Writer.init, hne, Except.map]

theorem sequence_pos {rs : List Record} {st : ScanState} (h : Tracks rs st)
    (hlen : rs.length + 1 < 2 ^ 64) : st.nextSequence.toNat = rs.length + 1 := by
  rw [h.sequence, UInt64.toNat_ofNat']
  exact Nat.mod_eq_of_lt hlen

/-- Startup appends the closing records, and scanning the new file is scanning them. -/
theorem restart_appends {bytes : Bytes} {st : ScanState} (hsize : bytes.length < 2 ^ 64)
    (hlen : bytes.length % recordSize = 0)
    (h : (bytes.records recordSize (bytes.length / recordSize)).foldlM scanBytes {} = .ok st) :
    ∃ closed, restart bytes = .ok closed ∧ closed.length ≤ bytes.length + 64 * 144 ∧
      scan closed = ((st.unfinished.flatMap fun i =>
        closingRecords (interruptedOf (st.executions i))).foldlM scanNext st).map
          ScanState.summary := by
  obtain ⟨htracks, hcount⟩ := tracks_scan h
  have hdiv : bytes.length / recordSize * 64 ≤ bytes.length := Nat.div_mul_le_self _ _
  have hseq := sequence_pos htracks (by omega)
  have hbound := length_closing htracks
  have hne : st.nextSequence ≠ 0 := by
    intro h0; rw [h0] at hseq; simp at hseq
  have hopen := fileOpen_ok (scan_ok.mpr ⟨hlen, st, h, rfl⟩) hne
  obtain ⟨ws, s, hw, -, hwlen, hwsize, hscan⟩ := scan_appended
    (st.unfinished.flatMap fun i => closingRecords (interruptedOf (st.executions i)))
    (w := { nextSequence := st.nextSequence }) st
    (fun u hu => by
      obtain ⟨i, hi, hu⟩ := List.mem_flatMap.mp hu
      exact stampable_closing htracks (mem_unfinished.mp hi) u hu)
    rfl (by simp only [hseq]; omega) (by simp only [hseq]; omega)
  have hclose : fileCloseInterrupted { nextSequence := st.summary.nextSequence } st.summary =
      .ok ({ written := ws, nextSequence := s }, st.summary.interrupted.length) := by
    rw [fileCloseInterrupted, fileClose_eq, summary_interrupted, List.flatMap_map]
    rw [show st.summary.nextSequence = st.nextSequence from rfl, hw]
    simp [Except.map]
  refine ⟨bytes ++ ws.flatten, ?_, ?_, ?_⟩
  · simp [restart, hopen, hclose, bind, Except.bind, pure, Except.pure]
  · have hflat : ws.flatten.length = 64 * ws.length := Bytes.length_flatten_records ws hwsize
    rw [List.length_append]
    omega
  · rw [scan_append hlen h hwsize, hscan]

/--
**A restart closes the journal exactly when no aggregate contradicts `Unknown`.**

For every file the scanner accepts: the file that startup leaves behind is
accepted, has nothing unfinished in it and is left alone by the next startup, if
and only if each unfinished execution has an open delivery, or no fact at all, or
an `Unknown` among its facts.
-/
theorem restart_closes_iff {bytes : Bytes} {S : Summary} (hsize : bytes.length < 2 ^ 64)
    (hscan : scan bytes = .ok S) : RestartCloses bytes ↔ Closable (journalRecords bytes) := by
  obtain ⟨hlen, st, h, -⟩ := scan_ok.mp hscan
  obtain ⟨htracks, -⟩ := tracks_scan h
  obtain ⟨closed, hrestart, hgrown, hclosed⟩ := restart_appends hsize hlen h
  have hall := scan_closing_all st.unfinished st
    ((List.nodup_finRange _).filter _) fun i hi => tracks_located htracks (mem_unfinished.mp hi)
  have hcl : Closable (journalRecords bytes) ↔
      ∀ i ∈ st.unfinished, (st.executions i).ClosesUnknown := by
    simpa only [mem_unfinished] using closable_iff htracks
  rw [hcl]
  constructor
  · rintro ⟨closed', S', hr, hs, -⟩
    obtain rfl : closed = closed' := Except.ok.inj (hrestart.symm.trans hr)
    by_contra hn
    obtain ⟨e, herr⟩ := hall.2 hn
    rw [herr] at hclosed
    rw [hclosed] at hs
    cases hs
  · intro hc
    obtain ⟨st', hrun, hfree, hkeep⟩ := hall.1 hc
    rw [hrun] at hclosed
    -- the entries that were occupied are free, the others were free before
    have hnone : st'.unfinished = [] := by
      rw [List.eq_nil_iff_forall_not_mem]
      intro i hi
      rw [mem_unfinished] at hi
      by_cases hmem : i ∈ st.unfinished
      · rw [hfree i hmem] at hi
        exact Bool.noConfusion hi
      · rw [hkeep i hmem] at hi
        exact hmem (mem_unfinished.mpr hi)
    obtain ⟨hlen', st'', hst'', hsum⟩ := scan_ok.mp hclosed
    obtain ⟨htracks', hcount'⟩ := tracks_scan hst''
    have hinter : st''.unfinished = [] := by
      have : st''.summary.interrupted = [] := by
        rw [hsum, summary_interrupted, hnone]; rfl
      rwa [summary_interrupted, List.map_eq_nil_iff] at this
    have hdiv : closed.length / recordSize * 64 ≤ closed.length := Nat.div_mul_le_self _ _
    have hseq := sequence_pos htracks' (by omega)
    have hne : st''.nextSequence ≠ 0 := by
      intro h0; rw [h0] at hseq; simp at hseq
    have hopen := fileOpen_ok (scan_ok.mpr ⟨hlen', st'', hst'', rfl⟩) hne
    refine ⟨closed, st''.summary, hrestart, scan_ok.mpr ⟨hlen', st'', hst'', rfl⟩, ?_, ?_⟩
    · rw [summary_interrupted, hinter]; rfl
    · simp [restart, hopen, fileCloseInterrupted, summary_interrupted, hinter, bind, Except.bind,
        pure, Except.pure]

/-- The file of a list of records, as the writer lays it down. -/
def journalFile (records : List Record) : Bytes :=
  match records.foldlM Writer.append { nextSequence := 1 } with
  | .ok writer => writer.written.flatten
  | .error _ => []

/-- An execution that was only started. -/
def startedFile : Bytes := journalFile
  [ { kind := .executionStarted, outcome := .none, executionId := 1, workflowId := 1,
      imageFingerprint := 7 } ]

theorem restart_closes_startedFile :
    RestartCloses startedFile ↔ Closable (journalRecords startedFile) :=
  @restart_closes_iff startedFile
    { recordCount := 1, nextSequence := 2, nextExecutionId := 2, interrupted := [
      { executionId := 1, workflowId := 1, imageFingerprint := 7, openDeliveries := [] }] }
    (by decide +kernel) (by decide +kernel)

/-! ## A journal that no restart can close -/

/-- An execution whose only delivery succeeded, cut off before it finished. -/
def finishedActionFile : Bytes := journalFile
  [ { kind := .executionStarted, outcome := .none, executionId := 1, workflowId := 1,
      imageFingerprint := 7 },
    { kind := .deliveryPrepared, outcome := .none, executionId := 1, workflowId := 1,
      requestId := 1, nodeId := 1, appId := 1, actionId := 1, imageFingerprint := 7 },
    { kind := .deliverySent, outcome := .none, executionId := 1, workflowId := 1,
      requestId := 1, nodeId := 1, appId := 1, actionId := 1, imageFingerprint := 7 },
    { kind := .actionSucceeded, outcome := .success, executionId := 1, workflowId := 1,
      requestId := 1, nodeId := 1, appId := 1, actionId := 1, imageFingerprint := 7 } ]

theorem finishedActionFile_scan :
    finishedActionFile.length = 256 ∧ (scan finishedActionFile).toOption.isSome = true ∧
      ((restart finishedActionFile).toOption.bind fun b => (scan b).toOption) = none := by
  decide +kernel

/-- The file is accepted, and the file that startup makes of it is not. -/
theorem restart_not_closed :
    ¬ ∀ bytes S, bytes.length < 2 ^ 64 → scan bytes = .ok S → RestartCloses bytes := by
  intro hall
  obtain ⟨hlen, hok, hbad⟩ := finishedActionFile_scan
  cases hs : scan finishedActionFile with
  | error e => rw [hs] at hok; cases hok
  | ok S =>
      obtain ⟨closed, S', hr, hc, -⟩ := hall finishedActionFile S (by rw [hlen]; decide) hs
      rw [hr] at hbad
      simp [Except.toOption, hc] at hbad

end Hermas.Journal
