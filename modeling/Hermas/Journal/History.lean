import Hermas.Journal.Scan
import Mathlib.Data.List.InsertIdx
import Mathlib.Data.List.Nodup
import Mathlib.Tactic.SplitIfs

/-!
# What an accepted journal says

The scanner keeps a few numbers for each execution; the journal is a list of
facts. This file ties the two together. The facts are read off the records of one
execution alone, without the scanner, and `Tracks` says that the scanner's entries
are exactly the unfinished executions of the list, each with exactly the
deliveries that are open in it. Every accepted prefix is tracked
(`tracks_scanRecords`).
-/

namespace Hermas.Journal

/-! ## Facts -/

/-- The records of one execution. -/
def recordsOf (rs : List Record) (executionId : UInt64) : List Record :=
  rs.filter (·.executionId == executionId)

def Started (own : List Record) : Prop := ∃ r ∈ own, r.kind = .executionStarted

def Finished (own : List Record) : Prop := ∃ r ∈ own, r.kind = .executionFinished

/-- Started and not finished: what a crash leaves behind. -/
def Unfinished (own : List Record) : Prop := Started own ∧ ¬ Finished own

/-- Some action of the execution has an outcome on record. -/
def HasFact (own : List Record) : Prop := ∃ r ∈ own, r.kind.IsOutcome

/-- One of them is `Unknown`. -/
def HasUnknown (own : List Record) : Prop := ∃ r ∈ own, r.kind = .actionUnknown

def Prepared (own : List Record) (requestId : UInt64) : Prop :=
  ∃ r ∈ own, r.kind = .deliveryPrepared ∧ r.requestId = requestId

def Closed (own : List Record) (requestId : UInt64) : Prop :=
  ∃ r ∈ own, r.kind.IsOutcome ∧ r.requestId = requestId

/-- The delivery was prepared and nothing has closed it yet. -/
def Open (own : List Record) (requestId : UInt64) : Prop :=
  Prepared own requestId ∧ ¬ Closed own requestId

theorem recordsOf_append (rs ts : List Record) (e : UInt64) :
    recordsOf (rs ++ ts) e = recordsOf rs e ++ recordsOf ts e := List.filter_append ..

theorem recordsOf_snoc_self (rs : List Record) (r : Record) :
    recordsOf (rs ++ [r]) r.executionId = recordsOf rs r.executionId ++ [r] := by
  simp [recordsOf]

theorem recordsOf_snoc_of_ne (rs : List Record) {r : Record} {e : UInt64}
    (h : r.executionId ≠ e) : recordsOf (rs ++ [r]) e = recordsOf rs e := by
  simp [recordsOf, h]

section Append

variable (own : List Record) (r : Record) (q : UInt64)

theorem exists_mem_snoc {P : Record → Prop} :
    (∃ x ∈ own ++ [r], P x) ↔ (∃ x ∈ own, P x) ∨ P r := by
  simp [or_and_right, exists_or]

theorem started_snoc : Started (own ++ [r]) ↔ Started own ∨ r.kind = .executionStarted :=
  exists_mem_snoc own r

theorem finished_snoc : Finished (own ++ [r]) ↔ Finished own ∨ r.kind = .executionFinished :=
  exists_mem_snoc own r

theorem hasFact_snoc : HasFact (own ++ [r]) ↔ HasFact own ∨ r.kind.IsOutcome :=
  exists_mem_snoc own r

theorem hasUnknown_snoc : HasUnknown (own ++ [r]) ↔ HasUnknown own ∨ r.kind = .actionUnknown :=
  exists_mem_snoc own r

theorem prepared_snoc :
    Prepared (own ++ [r]) q ↔ Prepared own q ∨ r.kind = .deliveryPrepared ∧ r.requestId = q :=
  exists_mem_snoc own r

theorem closed_snoc :
    Closed (own ++ [r]) q ↔ Closed own q ∨ r.kind.IsOutcome ∧ r.requestId = q :=
  exists_mem_snoc own r

end Append

/-! ## What one record can do -/

theorem findScanExecution_some {xs : Executions} {e : UInt64} {i : Fin maxInterrupted}
    (h : findScanExecution xs e = some i) : (xs i).active = true ∧ (xs i).executionId = e := by
  simpa using firstIndex_some h

theorem findScanExecution_none {xs : Executions} {e : UInt64} :
    findScanExecution xs e = none ↔ ∀ i, (xs i).active = true → (xs i).executionId ≠ e := by
  simp [findScanExecution, firstIndex_none]

/-- A record starts an execution, or continues one that the scanner knows. -/
theorem scanTransition_ok {xs xs' : Executions} {r : Record} :
    scanTransition xs r = .ok xs' ↔
      (r.kind = .executionStarted ∧ findScanExecution xs r.executionId = none ∧
        ∃ i, firstIndex (fun i => !(xs i).active) = some i ∧
          xs' = Function.update xs i { xs i with
            active := true
            executionId := r.executionId
            workflowId := r.workflowId
            imageFingerprint := r.imageFingerprint }) ∨
      (r.kind ≠ .executionStarted ∧ ∃ i, findScanExecution xs r.executionId = some i ∧
        (xs i).workflowId = r.workflowId ∧ (xs i).imageFingerprint = r.imageFingerprint ∧
        ∃ x, transitionKnown (xs i) r = .ok x ∧ xs' = Function.update xs i x) := by
  unfold scanTransition
  by_cases hk : r.kind = .executionStarted
  · cases hf : findScanExecution xs r.executionId with
    | some i => simp [hk]
    | none =>
        cases firstIndex (fun i => !(xs i).active) with
        | none => simp [hk]
        | some i => simp [hk, eq_comm]
  · cases hf : findScanExecution xs r.executionId with
    | none => simp [hk]
    | some i =>
        by_cases hw : (xs i).workflowId = r.workflowId
        · by_cases hp : (xs i).imageFingerprint = r.imageFingerprint
          · cases ht : transitionKnown (xs i) r with
            | error e => simp [hk, hw, hp, ht, Except.map]
            | ok x => simp [hk, hw, hp, ht, Except.map, eq_comm]
          · simp [hk, hp]
        · simp [hk, hw]

/-- The scanner's state behind an accepted record. -/
def ScanState.advance (st : ScanState) (xs : Executions) (r : Record) : ScanState where
  executions := xs
  recordCount := st.recordCount + 1
  nextSequence := st.nextSequence + 1
  nextExecutionId :=
    if st.nextExecutionId ≤ r.executionId then r.executionId + 1 else st.nextExecutionId
  largestStartedId := if r.kind = .executionStarted then r.executionId else st.largestStartedId

/-- A record is accepted when it carries the next sequence number, a start carries a fresh
identity, and its transition is accepted. -/
theorem scanRecord_ok {st st' : ScanState} {r : Record} :
    scanRecord st r = .ok st' ↔
      r.sequence = st.nextSequence ∧
      (r.kind = .executionStarted → st.largestStartedId < r.executionId) ∧
      ¬ (st.nextExecutionId ≤ r.executionId ∧ r.executionId = uint64Max) ∧
      ∃ xs, scanTransition st.executions r = .ok xs ∧ st' = st.advance xs r := by
  simp only [scanRecord, throw, throwThe, MonadExceptOf.throw, bind, Except.bind, pure,
    Except.pure]
  by_cases hs : r.sequence = st.nextSequence
  · by_cases hl : r.kind = .executionStarted ∧ r.executionId ≤ st.largestStartedId
    · simp [hs, hl]
    · have hl' : r.kind = .executionStarted → st.largestStartedId < r.executionId :=
        fun hk => UInt64.not_le.mp fun hle => hl ⟨hk, hle⟩
      cases ht : scanTransition st.executions r with
      | error e => simp [hs, hl]
      | ok xs =>
          by_cases hm : st.nextExecutionId ≤ r.executionId ∧ r.executionId = uint64Max
          · have hm' := eq_true hm
            simp only [hs, hl, hm', ne_eq, not_true, if_false, if_true, reduceCtorEq, false_and,
              and_false]
          · simp only [hs, hl, hm, ne_eq, not_true, if_false, not_false_iff, true_and,
              Except.ok.injEq, exists_eq_left', ScanState.advance]
            exact ⟨fun h => ⟨hl', h.symm⟩, fun h => h.2.symm⟩
  · simp [hs]

theorem transitionPrepared_ok {x y : ScanExecution} {r : Record} :
    transitionPrepared x r = .ok y ↔
      x.openDeliveries.length < maxOpenDeliveries ∧ x.largestRequestId < r.requestId ∧
      findDelivery x r = none ∧
      y = { x with
        openDeliveries := x.openDeliveries ++ [r.delivery]
        largestRequestId := r.requestId } := by
  unfold transitionPrepared
  split_ifs with h
  · simp only [false_iff, not_and]
    intro h1 h2 h3
    rcases h with h | h | h
    · omega
    · exact absurd h2 (UInt64.not_lt.mpr h)
    · simp [h3] at h
  · simp only [not_or, Nat.not_le, UInt64.not_le, Bool.not_eq_true, Option.isSome_eq_false_iff,
      Option.isNone_iff_eq_none] at h
    simp [h, eq_comm]

theorem transitionSent_ok {x y : ScanExecution} {r : Record} :
    transitionSent x r = .ok y ↔
      ∃ i, findDelivery x r = some i ∧ x.sentAt i = false ∧
        y = { x with
          openDeliveries :=
            x.openDeliveries.modify i (fun d => { d with deliveryWasSent := true }) } := by
  unfold transitionSent
  cases findDelivery x r with
  | none => simp
  | some i =>
      cases hi : x.sentAt i with
      | true => simp [hi]
      | false =>
          simp only [hi, Option.some.injEq, exists_eq_left', true_and, Bool.false_eq_true, if_false,
            Except.ok.injEq]
          exact eq_comm

theorem transitionOutcome_ok {x y : ScanExecution} {r : Record} :
    transitionOutcome x r = .ok y ↔
      ∃ i, findDelivery x r = some i ∧ ¬ PhaseMismatch r (x.sentAt i) ∧
        y = { x with
          openDeliveries := x.openDeliveries.eraseIdx i
          terminalOutcome := x.outcomeWith r.outcome
          hasActionOutcome := true } := by
  unfold transitionOutcome
  cases findDelivery x r with
  | none => simp
  | some i =>
      by_cases h : PhaseMismatch r (x.sentAt i)
      · simp [h]
      · simp only [h, if_false, Except.ok.injEq, Option.some.injEq, exists_eq_left',
          not_false_iff, true_and]
        exact eq_comm

theorem transitionFinished_ok {x y : ScanExecution} {r : Record} :
    transitionFinished x r = .ok y ↔
      x.openDeliveries = [] ∧
      (if x.hasActionOutcome then x.terminalOutcome = r.outcome else r.outcome = .unknown) ∧
      y = {} := by
  unfold transitionFinished
  by_cases ho : x.openDeliveries = []
  · cases x.hasActionOutcome
    · by_cases hu : r.outcome = .unknown <;> simp [ho, hu, eq_comm]
    · by_cases ht : x.terminalOutcome = r.outcome <;> simp [ho, ht, eq_comm]
  · simp [ho]

/-! ## One execution -/

/-- The request ids of the open deliveries, oldest first. -/
def ScanExecution.openIds (x : ScanExecution) : List UInt64 := x.openDeliveries.map (·.requestId)

/-- Every field that a record must name is nonzero. -/
def OpenDelivery.Named (d : OpenDelivery) : Prop :=
  d.requestId ≠ 0 ∧ d.nodeId ≠ 0 ∧ d.appId ≠ 0 ∧ d.actionId ≠ 0

/-- A scanner entry says of an execution what its own records say. -/
structure Follows (own : List Record) (x : ScanExecution) : Prop where
  /-- The listed deliveries are those prepared and not closed. -/
  openIds : ∀ q, q ∈ x.openIds ↔ Open own q
  /-- No request is listed twice. -/
  nodup : x.openIds.Nodup
  /-- Requests are numbered upwards. -/
  bounded : ∀ q, Prepared own q ∨ Closed own q → q ≤ x.largestRequestId
  /-- The aggregate exists once there is a fact. -/
  fact : x.hasActionOutcome = true ↔ HasFact own
  /-- `Unknown` outranks every other fact, so the aggregate shows it. -/
  unknown : x.terminalOutcome = .unknown ↔ HasUnknown own
  /-- The listed deliveries can be written into records again. -/
  named : ∀ d ∈ x.openDeliveries, d.Named
  few : x.openDeliveries.length ≤ maxOpenDeliveries

theorem hasFact_of_unknown {own : List Record} (h : HasUnknown own) : HasFact own := by
  obtain ⟨r, hr, hk⟩ := h
  exact ⟨r, hr, .inr (.inr hk)⟩

theorem findDelivery_some {x : ScanExecution} {r : Record} {i : Nat}
    (h : findDelivery x r = some i) :
    ∃ hi : i < x.openIds.length, x.openIds[i] = r.requestId := by
  obtain ⟨hi, hm, -⟩ := List.findIdx?_eq_some_iff_getElem.mp h
  refine ⟨by simpa [ScanExecution.openIds] using hi, ?_⟩
  simp only [routeMatches, Bool.and_eq_true, beq_iff_eq] at hm
  simpa [ScanExecution.openIds] using hm.1.1.1

theorem valid_outcome {r : Record} (h : validateRecord r = .ok) : OutcomeValid r.kind r.outcome := by
  by_contra hn
  simp [validateRecord, hn] at h

theorem valid_ids {r : Record} (h : validateRecord r = .ok) :
    r.sequence ≠ 0 ∧ r.executionId ≠ 0 ∧ r.workflowId ≠ 0 ∧ r.imageFingerprint ≠ 0 := by
  unfold validateRecord at h
  split_ifs at h with _ h0
  simpa [not_or] using h0

theorem valid_named {r : Record} (h : validateRecord r = .ok) (hk : r.kind.isAction = true) :
    r.delivery.Named := by
  unfold validateRecord at h
  split_ifs at h with _ _ h2
  simpa [hk, not_or, OpenDelivery.Named, Record.delivery] using h2

theorem follows_prepared {own : List Record} {x y : ScanExecution} {r : Record}
    (h : Follows own x) (hr : validateRecord r = .ok) (hk : r.kind = .deliveryPrepared)
    (ht : transitionPrepared x r = .ok y) : Follows (own ++ [r]) y := by
  obtain ⟨hfew, hlt, -, rfl⟩ := transitionPrepared_ok.mp ht
  have hno : ¬ r.kind.IsOutcome := by rw [hk]; decide
  -- the new number is above every number used before
  have hnew : ∀ q, Prepared own q ∨ Closed own q → q ≠ r.requestId := by
    rintro q hq rfl
    exact absurd hlt (UInt64.not_lt.mpr (h.bounded _ hq))
  have hids : ScanExecution.openIds { x with
      openDeliveries := x.openDeliveries ++ [r.delivery]
      largestRequestId := r.requestId } = x.openIds ++ [r.requestId] := by
    simp [ScanExecution.openIds, Record.delivery]
  refine ⟨?_, ?_, ?_, ?_, ?_, ?_, ?_⟩
  · intro q
    rw [hids, List.mem_append, List.mem_singleton, h.openIds, Open, Open, prepared_snoc,
      closed_snoc]
    constructor
    · rintro (⟨hp, hc⟩ | rfl)
      · exact ⟨.inl hp, fun h' => h'.elim hc fun h' => hno h'.1⟩
      · refine ⟨.inr ⟨hk, rfl⟩, ?_⟩
        rintro (hc | hc)
        · exact hnew _ (.inr hc) rfl
        · exact hno hc.1
    · rintro ⟨hp | ⟨-, rfl⟩, hc⟩
      · exact .inl ⟨hp, fun h' => hc (.inl h')⟩
      · exact .inr rfl
  · rw [hids, List.nodup_append]
    refine ⟨h.nodup, List.nodup_singleton _, ?_⟩
    intro a ha b hb
    rw [List.mem_singleton] at hb
    exact hb ▸ hnew a (.inl ((h.openIds a).mp ha).1)
  · intro q hq
    rw [prepared_snoc, closed_snoc] at hq
    have hle : ∀ q, Prepared own q ∨ Closed own q → q ≤ r.requestId :=
      fun q hq => UInt64.le_trans (h.bounded q hq) (UInt64.le_of_lt hlt)
    rcases hq with (hp | ⟨-, rfl⟩) | hc | ⟨hc, -⟩
    · exact hle q (.inl hp)
    · exact UInt64.le_refl _
    · exact hle q (.inr hc)
    · exact absurd hc hno
  · rw [hasFact_snoc]
    exact h.fact.trans ⟨.inl, fun h' => h'.elim id fun h' => absurd h' hno⟩
  · rw [hasUnknown_snoc, hk]
    simpa using h.unknown
  · intro d hd
    rcases List.mem_append.mp hd with hd | hd
    · exact h.named d hd
    · rw [List.mem_singleton.mp hd]
      exact valid_named hr (by rw [hk]; rfl)
  · rw [List.length_append, List.length_singleton]
    exact hfew

theorem follows_sent {own : List Record} {x y : ScanExecution} {r : Record}
    (h : Follows own x) (hk : r.kind = .deliverySent)
    (ht : transitionSent x r = .ok y) : Follows (own ++ [r]) y := by
  obtain ⟨i, -, -, rfl⟩ := transitionSent_ok.mp ht
  have hids : ScanExecution.openIds { x with
      openDeliveries :=
        x.openDeliveries.modify i (fun d => { d with deliveryWasSent := true }) } = x.openIds := by
    refine List.ext_getElem (by simp [ScanExecution.openIds]) fun j h1 h2 => ?_
    simp only [ScanExecution.openIds, List.getElem_map, List.getElem_modify]
    split <;> rfl
  have hno : ¬ r.kind.IsOutcome := by rw [hk]; decide
  have hp : ∀ q, Prepared (own ++ [r]) q ↔ Prepared own q := by
    intro q; rw [prepared_snoc, hk]; simp
  have hc : ∀ q, Closed (own ++ [r]) q ↔ Closed own q := by
    intro q; rw [closed_snoc]; simp [hno]
  refine ⟨?_, ?_, ?_, ?_, ?_, ?_, ?_⟩
  · intro q
    rw [hids, h.openIds, Open, Open, hp, hc]
  · rw [hids]; exact h.nodup
  · intro q hq
    rw [hp, hc] at hq
    exact h.bounded q hq
  · rw [hasFact_snoc]
    exact h.fact.trans ⟨.inl, fun h' => h'.elim id fun h' => absurd h' hno⟩
  · rw [hasUnknown_snoc, hk]
    simpa using h.unknown
  · intro d hd
    obtain ⟨j, hj, rfl⟩ := List.getElem_of_mem hd
    rw [List.length_modify] at hj
    have hnamed := h.named _ (List.getElem_mem hj)
    rw [List.getElem_modify]
    split
    · exact hnamed
    · exact hnamed
  · rw [List.length_modify]
    exact h.few

/-- The aggregate shows `Unknown` as soon as one fact does. -/
theorem outcomeWith_unknown (x : ScanExecution) (o : Outcome)
    (h : x.hasActionOutcome = false → x.terminalOutcome ≠ .unknown) :
    x.outcomeWith o = .unknown ↔ x.terminalOutcome = .unknown ∨ o = .unknown := by
  unfold ScanExecution.outcomeWith
  split_ifs with hc
  · constructor
    · exact .inr
    · rintro (ht | ho)
      · rcases hc with hc | hc
        · exact absurd ht (h (by simpa using hc))
        · rw [ht] at hc
          cases o <;> simp [Outcome.precedence] at hc
      · exact ho
  · constructor
    · exact .inl
    · rintro (ht | rfl)
      · exact ht
      · rw [not_or] at hc
        have hle := hc.2
        cases hx : x.terminalOutcome <;> simp [hx, Outcome.precedence] at hle ⊢

theorem follows_outcome {own : List Record} {x y : ScanExecution} {r : Record}
    (h : Follows own x) (hr : validateRecord r = .ok) (hk : r.kind.IsOutcome)
    (ht : transitionOutcome x r = .ok y) : Follows (own ++ [r]) y := by
  obtain ⟨i, hi, -, rfl⟩ := transitionOutcome_ok.mp ht
  obtain ⟨hlen, hreq⟩ := findDelivery_some hi
  have hids : ScanExecution.openIds { x with
      openDeliveries := x.openDeliveries.eraseIdx i
      terminalOutcome := x.outcomeWith r.outcome
      hasActionOutcome := true } = x.openIds.erase r.requestId := by
    rw [← hreq, h.nodup.erase_getElem i hlen]
    simp [ScanExecution.openIds, List.eraseIdx_map]
  have hopen : Open own r.requestId := (h.openIds _).mp (hreq ▸ List.getElem_mem hlen)
  have hnp : r.kind ≠ .deliveryPrepared := by
    rintro hp; rw [hp] at hk; revert hk; decide
  have hp : ∀ q, Prepared (own ++ [r]) q ↔ Prepared own q := by
    intro q; rw [prepared_snoc]; simp [hnp]
  have hunk : r.outcome = .unknown ↔ r.kind = .actionUnknown := by
    have hv := valid_outcome hr
    rcases hk with hk | hk | hk <;> rw [hk] at hv ⊢ <;> simp only [OutcomeValid] at hv
    · simp [hv]
    · rcases hv with hv | hv <;> simp [hv]
    · simp [hv]
  refine ⟨?_, ?_, ?_, ?_, ?_, ?_, ?_⟩
  · intro q
    rw [hids, h.nodup.mem_erase_iff, h.openIds, Open, Open, hp, closed_snoc]
    constructor
    · rintro ⟨hne, hq, hc⟩
      exact ⟨hq, fun h' => h'.elim hc fun h' => hne h'.2.symm⟩
    · rintro ⟨hq, hc⟩
      exact ⟨fun he => hc (.inr ⟨hk, he.symm⟩), hq, fun h' => hc (.inl h')⟩
  · rw [hids]; exact h.nodup.erase _
  · intro q hq
    rw [hp, closed_snoc] at hq
    rcases hq with hq | hq | ⟨-, rfl⟩
    · exact h.bounded q (.inl hq)
    · exact h.bounded q (.inr hq)
    · exact h.bounded _ (.inl hopen.1)
  · rw [hasFact_snoc]
    simp [hk]
  · rw [hasUnknown_snoc, ← h.unknown, ← hunk]
    refine outcomeWith_unknown x r.outcome fun hf ht => ?_
    have := h.fact.mpr (hasFact_of_unknown (h.unknown.mp ht))
    rw [hf] at this
    exact Bool.noConfusion this
  · intro d hd
    exact h.named d (List.mem_of_mem_eraseIdx hd)
  · exact Nat.le_trans (List.length_eraseIdx_le _ _) h.few

/-! ## The table of executions -/

/-- The scanner's table lists the unfinished executions, each once. -/
structure TracksTable (rs : List Record) (xs : Executions) : Prop where
  unique : ∀ i j, (xs i).active = true → (xs j).active = true →
    (xs i).executionId = (xs j).executionId → i = j
  /-- A free entry carries nothing over into its next use. -/
  cleared : ∀ i, (xs i).active = false → xs i = {}
  follows : ∀ i, (xs i).active = true → Follows (recordsOf rs (xs i).executionId) (xs i)
  unfinished : ∀ e, Unfinished (recordsOf rs e) ↔ ∃ i, (xs i).active = true ∧ (xs i).executionId = e
  ids : ∀ i, (xs i).active = true →
    (xs i).executionId ≠ 0 ∧ (xs i).workflowId ≠ 0 ∧ (xs i).imageFingerprint ≠ 0

theorem follows_empty {x : ScanExecution} {r : Record} (hk : r.kind = .executionStarted)
    (h1 : x.openDeliveries = []) (h2 : x.hasActionOutcome = false)
    (h3 : x.terminalOutcome = .none) : Follows [r] x := by
  have hno : ¬ r.kind.IsOutcome := by rw [hk]; decide
  refine ⟨?_, ?_, ?_, ?_, ?_, ?_, ?_⟩
  · intro q; simp [ScanExecution.openIds, h1, Open, Prepared, hk]
  · simp [ScanExecution.openIds, h1]
  · rintro q (⟨s, hs, hp, -⟩ | ⟨s, hs, ho, -⟩)
    · rw [List.mem_singleton.mp hs, hk] at hp; cases hp
    · rw [List.mem_singleton.mp hs] at ho; exact absurd ho hno
  · simp [h2, HasFact, hno]
  · simp [h3, HasUnknown, hk]
  · simp [h1]
  · simp [h1]

/-- A start takes a free entry for an identity that no record names yet. -/
theorem tracksTable_start {rs : List Record} {xs : Executions} {r : Record}
    (h : TracksTable rs xs) (hr : validateRecord r = .ok) (hk : r.kind = .executionStarted)
    (hfresh : recordsOf rs r.executionId = []) {i : Fin maxInterrupted}
    (hi : (xs i).active = false) :
    TracksTable (rs ++ [r]) (Function.update xs i { xs i with
      active := true
      executionId := r.executionId
      workflowId := r.workflowId
      imageFingerprint := r.imageFingerprint }) := by
  have hnot : ∀ j, (xs j).active = true → (xs j).executionId ≠ r.executionId := by
    intro j hj he
    have := (h.unfinished _).mpr ⟨j, hj, he⟩
    rw [hfresh] at this
    simp [Unfinished, Started] at this
  have hown : recordsOf (rs ++ [r]) r.executionId = [r] := by
    rw [recordsOf_snoc_self, hfresh]; rfl
  refine ⟨?_, ?_, ?_, ?_, ?_⟩
  · intro j k hj hk' he
    by_cases hji : j = i <;> by_cases hki : k = i <;>
      simp only [hji, hki, Function.update_self, Function.update_of_ne, ne_eq,
        not_false_iff] at hj hk' he ⊢
    · exact absurd he.symm (hnot k hk')
    · exact absurd he (hnot j hj)
    · exact h.unique j k hj hk' he
  · intro j hj
    by_cases hji : j = i
    · simp [hji] at hj
    · rw [Function.update_of_ne hji] at hj ⊢
      exact h.cleared j hj
  · intro j hj
    by_cases hji : j = i
    · rw [hji, Function.update_self]
      simp only [hown]
      exact follows_empty hk (by rw [h.cleared i hi]) (by rw [h.cleared i hi])
        (by rw [h.cleared i hi])
    · rw [Function.update_of_ne hji] at hj ⊢
      rw [recordsOf_snoc_of_ne rs (hnot j hj).symm]
      exact h.follows j hj
  · intro e
    by_cases he : r.executionId = e
    · subst he
      rw [hown]
      exact ⟨fun _ => ⟨i, by simp⟩, fun _ => by simp [Unfinished, Started, Finished, hk]⟩
    · rw [recordsOf_snoc_of_ne rs he, h.unfinished]
      constructor
      · rintro ⟨j, hj, hje⟩
        have hji : j ≠ i := by rintro rfl; rw [hi] at hj; exact Bool.noConfusion hj
        exact ⟨j, by rw [Function.update_of_ne hji]; exact ⟨hj, hje⟩⟩
      · rintro ⟨j, hj⟩
        by_cases hji : j = i
        · rw [hji, Function.update_self] at hj
          exact absurd hj.2 he
        · rw [Function.update_of_ne hji] at hj
          exact ⟨j, hj⟩
  · intro j hj
    by_cases hji : j = i
    · rw [hji, Function.update_self]
      exact (valid_ids hr).2
    · rw [Function.update_of_ne hji] at hj ⊢
      exact h.ids j hj

/-- A fact about a delivery changes the entry of its execution only. -/
theorem tracksTable_known {rs : List Record} {xs : Executions} {r : Record} {y : ScanExecution}
    (h : TracksTable rs xs) (hk : r.kind ≠ .executionFinished) {i : Fin maxInterrupted}
    (hi : (xs i).active = true) (hid : (xs i).executionId = r.executionId)
    (hact : y.active = true) (heid : y.executionId = (xs i).executionId)
    (hwid : y.workflowId = (xs i).workflowId)
    (hfid : y.imageFingerprint = (xs i).imageFingerprint)
    (hy : Follows (recordsOf rs r.executionId ++ [r]) y) :
    TracksTable (rs ++ [r]) (Function.update xs i y) := by
  have hsame : ∀ j, (Function.update xs i y j).active = (xs j).active ∧
      (Function.update xs i y j).executionId = (xs j).executionId ∧
      (Function.update xs i y j).workflowId = (xs j).workflowId ∧
      (Function.update xs i y j).imageFingerprint = (xs j).imageFingerprint := by
    intro j
    by_cases hji : j = i
    · rw [hji, Function.update_self]; exact ⟨hact.trans hi.symm, heid, hwid, hfid⟩
    · rw [Function.update_of_ne hji]; exact ⟨rfl, rfl, rfl, rfl⟩
  refine ⟨?_, ?_, ?_, ?_, ?_⟩
  · intro j k
    rw [(hsame j).1, (hsame k).1, (hsame j).2.1, (hsame k).2.1]
    exact h.unique j k
  · intro j hj
    rw [(hsame j).1] at hj
    have hji : j ≠ i := by rintro rfl; rw [hi] at hj; exact Bool.noConfusion hj
    rw [Function.update_of_ne hji]
    exact h.cleared j hj
  · intro j hj
    rw [(hsame j).1] at hj
    rw [(hsame j).2.1]
    by_cases hji : j = i
    · rw [hji, hid, recordsOf_snoc_self, Function.update_self]
      exact hy
    · have hne : r.executionId ≠ (xs j).executionId := by
        intro he
        exact hji (h.unique j i hj hi (by rw [hid, he]))
      rw [recordsOf_snoc_of_ne rs hne, Function.update_of_ne hji]
      exact h.follows j hj
  · intro e
    have hun : Unfinished (recordsOf (rs ++ [r]) e) ↔ Unfinished (recordsOf rs e) := by
      by_cases he : r.executionId = e
      · subst he
        have hst := ((h.unfinished _).mpr ⟨i, hi, hid⟩).1
        rw [recordsOf_snoc_self, Unfinished, started_snoc, finished_snoc, Unfinished]
        simp [hk, hst]
      · rw [recordsOf_snoc_of_ne rs he]
    rw [hun, h.unfinished]
    simp only [fun j => (hsame j).1, fun j => (hsame j).2.1]
  · intro j
    rw [(hsame j).1, (hsame j).2.1, (hsame j).2.2.1, (hsame j).2.2.2]
    exact h.ids j

/-- A finish frees the entry. -/
theorem tracksTable_finish {rs : List Record} {xs : Executions} {r : Record}
    (h : TracksTable rs xs) (hk : r.kind = .executionFinished) {i : Fin maxInterrupted}
    (hi : (xs i).active = true) (hid : (xs i).executionId = r.executionId) :
    TracksTable (rs ++ [r]) (Function.update xs i {}) := by
  have hold : ∀ j, (Function.update xs i {} j).active = true → j ≠ i ∧ (xs j).active = true := by
    intro j hj
    have hji : j ≠ i := by rintro rfl; simp at hj
    exact ⟨hji, by rwa [Function.update_of_ne hji] at hj⟩
  have hne : ∀ j, j ≠ i → (xs j).active = true → r.executionId ≠ (xs j).executionId :=
    fun j hji hj he => hji (h.unique j i hj hi (by rw [hid, he]))
  refine ⟨?_, ?_, ?_, ?_, ?_⟩
  · intro j k hj hk' he
    obtain ⟨hji, hj⟩ := hold j hj
    obtain ⟨hki, hk'⟩ := hold k hk'
    rw [Function.update_of_ne hji, Function.update_of_ne hki] at he
    exact h.unique j k hj hk' he
  · intro j hj
    by_cases hji : j = i
    · rw [hji, Function.update_self]
    · rw [Function.update_of_ne hji] at hj ⊢
      exact h.cleared j hj
  · intro j hj
    obtain ⟨hji, hj⟩ := hold j hj
    rw [Function.update_of_ne hji, recordsOf_snoc_of_ne rs (hne j hji hj)]
    exact h.follows j hj
  · intro e
    by_cases he : r.executionId = e
    · subst he
      rw [recordsOf_snoc_self, Unfinished, finished_snoc]
      constructor
      · exact fun h' => absurd (.inr hk) h'.2
      · rintro ⟨j, hj, hje⟩
        obtain ⟨hji, hj⟩ := hold j hj
        rw [Function.update_of_ne hji] at hje
        exact absurd hje.symm (hne j hji hj)
    · rw [recordsOf_snoc_of_ne rs he, h.unfinished]
      constructor
      · rintro ⟨j, hj, hje⟩
        have hji : j ≠ i := by rintro rfl; exact he (hid.symm.trans hje)
        exact ⟨j, by rw [Function.update_of_ne hji]; exact ⟨hj, hje⟩⟩
      · rintro ⟨j, hj, hje⟩
        obtain ⟨hji, hj⟩ := hold j hj
        rw [Function.update_of_ne hji] at hje
        exact ⟨j, hj, hje⟩
  · intro j hj
    obtain ⟨hji, hj⟩ := hold j hj
    rw [Function.update_of_ne hji]
    exact h.ids j hj

/-! ## Every accepted prefix -/

/-- The scanner's state is the state of the history. -/
structure Tracks (rs : List Record) (st : ScanState) : Prop extends
    TracksTable rs st.executions where
  /-- Starts are numbered upwards, so a later start is fresh. -/
  started : ∀ r ∈ rs, r.executionId ≤ st.largestStartedId
  known : ∀ r ∈ rs, r.executionId < st.nextExecutionId
  count : st.recordCount = rs.length
  sequence : st.nextSequence = UInt64.ofNat (rs.length + 1)

theorem tracks_init : Tracks [] {} := by
  refine ⟨⟨?_, ?_, ?_, ?_, ?_⟩, ?_, ?_, rfl, rfl⟩
  · simp
  · intro i _; rfl
  · simp
  · intro e; simp [recordsOf, Unfinished, Started]
  · simp
  · simp
  · simp

theorem recordsOf_eq_nil {rs : List Record} {e : UInt64} (h : ∀ r ∈ rs, r.executionId ≠ e) :
    recordsOf rs e = [] := by
  simpa [recordsOf] using h

/-- The table behind one accepted record. -/
theorem tracksTable_scanTransition {rs : List Record} {st : ScanState} {r : Record}
    {xs : Executions} (h : Tracks rs st) (hr : validateRecord r = .ok)
    (hstart : r.kind = .executionStarted → st.largestStartedId < r.executionId)
    (ht : scanTransition st.executions r = .ok xs) : TracksTable (rs ++ [r]) xs := by
  rcases scanTransition_ok.mp ht with ⟨hk, -, i, hi, rfl⟩ | ⟨hk, i, hi, -, -, y, hy, rfl⟩
  · have hfree : (st.executions i).active = false := by simpa using firstIndex_some hi
    refine tracksTable_start h.toTracksTable hr hk (recordsOf_eq_nil fun s hs he => ?_) hfree
    exact absurd (hstart hk) (UInt64.not_lt.mpr (he ▸ h.started s hs))
  · obtain ⟨hact, hid⟩ := findScanExecution_some hi
    have hf := h.follows i hact
    rw [hid] at hf
    cases hkind : r.kind with
    | executionStarted => exact absurd hkind hk
    | deliveryPrepared =>
        rw [transitionKnown, hkind] at hy
        have hfy := follows_prepared hf hr hkind hy
        obtain ⟨-, -, -, rfl⟩ := transitionPrepared_ok.mp hy
        exact tracksTable_known h.toTracksTable (by rw [hkind]; decide) hact hid hact rfl rfl rfl hfy
    | deliverySent =>
        rw [transitionKnown, hkind] at hy
        have hfy := follows_sent hf hkind hy
        obtain ⟨j, -, -, rfl⟩ := transitionSent_ok.mp hy
        exact tracksTable_known h.toTracksTable (by rw [hkind]; decide) hact hid hact rfl rfl rfl hfy
    | actionSucceeded =>
        rw [transitionKnown, hkind] at hy
        have hfy := follows_outcome hf hr (by rw [hkind]; decide) hy
        obtain ⟨j, -, -, rfl⟩ := transitionOutcome_ok.mp hy
        exact tracksTable_known h.toTracksTable (by rw [hkind]; decide) hact hid hact rfl rfl rfl hfy
    | actionFailed =>
        rw [transitionKnown, hkind] at hy
        have hfy := follows_outcome hf hr (by rw [hkind]; decide) hy
        obtain ⟨j, -, -, rfl⟩ := transitionOutcome_ok.mp hy
        exact tracksTable_known h.toTracksTable (by rw [hkind]; decide) hact hid hact rfl rfl rfl hfy
    | actionUnknown =>
        rw [transitionKnown, hkind] at hy
        have hfy := follows_outcome hf hr (by rw [hkind]; decide) hy
        obtain ⟨j, -, -, rfl⟩ := transitionOutcome_ok.mp hy
        exact tracksTable_known h.toTracksTable (by rw [hkind]; decide) hact hid hact rfl rfl rfl hfy
    | executionFinished =>
        rw [transitionKnown, hkind] at hy
        obtain ⟨-, -, rfl⟩ := transitionFinished_ok.mp hy
        exact tracksTable_finish h.toTracksTable hkind hact hid

/-- **One accepted record keeps the scanner and the history together.** -/
theorem tracks_scanRecord {rs : List Record} {st st' : ScanState} {r : Record}
    (h : Tracks rs st) (hr : validateRecord r = .ok) (hs : scanRecord st r = .ok st') :
    Tracks (rs ++ [r]) st' := by
  obtain ⟨-, hstart, hmax, xs, ht, rfl⟩ := scanRecord_ok.mp hs
  have htable := tracksTable_scanTransition h hr hstart ht
  refine ⟨htable, ?_, ?_, ?_, ?_⟩
  · -- a start raises the bound, any other record continues an execution below it
    intro s hs
    rcases scanTransition_ok.mp ht with ⟨hk, -⟩ | ⟨hk, i, hi, -⟩
    · simp only [ScanState.advance, if_pos hk]
      rcases List.mem_append.mp hs with hs | hs
      · exact UInt64.le_trans (h.started s hs) (UInt64.le_of_lt (hstart hk))
      · rw [List.mem_singleton.mp hs]; exact UInt64.le_refl _
    · simp only [ScanState.advance, if_neg hk]
      rcases List.mem_append.mp hs with hs | hs
      · exact h.started s hs
      · obtain ⟨hact, hid⟩ := findScanExecution_some hi
        obtain ⟨t, ht, -⟩ := ((h.unfinished _).mpr ⟨i, hact, hid⟩).1
        rw [recordsOf, List.mem_filter, beq_iff_eq] at ht
        rw [List.mem_singleton.mp hs, ← ht.2]
        exact h.started t ht.1
  · have hlt : r.executionId < (st.advance xs r).nextExecutionId ∧
        st.nextExecutionId ≤ (st.advance xs r).nextExecutionId := by
      simp only [ScanState.advance]
      split_ifs with hle
      · have hne : r.executionId ≠ uint64Max := fun h' => hmax ⟨hle, h'⟩
        simp only [UInt64.lt_iff_toNat_lt, UInt64.le_iff_toNat_le, UInt64.toNat_add] at hle ⊢
        have hn : r.executionId.toNat ≠ 2 ^ 64 - 1 := by
          intro h'
          exact hne (UInt64.toNat_inj.mp (h'.trans rfl))
        have hb := r.executionId.toNat_lt
        have h1 : (1 : UInt64).toNat = 1 := rfl
        omega
      · exact ⟨UInt64.not_le.mp hle, UInt64.le_refl _⟩
    intro s hs
    rcases List.mem_append.mp hs with hs | hs
    · exact UInt64.lt_of_lt_of_le (h.known s hs) hlt.2
    · rw [List.mem_singleton.mp hs]; exact hlt.1
  · simp [ScanState.advance, h.count]
  · simp [ScanState.advance, h.sequence]

/-- **Every accepted history is tracked.** -/
theorem tracks_scanRecords {rs : List Record} :
    ∀ {ts : List Record} {st st' : ScanState}, Tracks ts st → (∀ r ∈ rs, validateRecord r = .ok) →
      scanRecords st rs = .ok st' → Tracks (ts ++ rs) st' := by
  induction rs with
  | nil =>
      intro ts st st' h _ hs
      obtain rfl : st = st' := by simpa [scanRecords, pure, Except.pure] using hs
      simpa using h
  | cons r rs ih =>
      intro ts st st' h hv hs
      cases hr : scanRecord st r with
      | error e => simp [scanRecords, hr, bind, Except.bind] at hs
      | ok st₁ =>
          have hs' : scanRecords st₁ rs = .ok st' := by
            simpa [scanRecords, hr, bind, Except.bind] using hs
          have h₁ := tracks_scanRecord h (hv r (by simp)) hr
          rw [List.append_cons]
          exact ih h₁ (fun s hs => hv s (by simp [hs])) hs'

end Hermas.Journal
