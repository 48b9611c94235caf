import Hermas.Journal.Restart

/-!
# What the scanner accepts

The scanner keeps a bounded table; a history is unbounded. `Extends` says, without
the scanner, what one record may add to the records of its execution, and `History`
that every record of a journal does. An accepted file is a history, and its summary
is read off the history alone: the unfinished executions with their open deliveries.
The table is in step with the history at every record, which is the invariant here.
-/

namespace Hermas.Journal

/-! ## Histories -/

/-- Both records name the same delivery, by request and by route. -/
def SameDelivery (p r : Record) : Prop :=
  p.requestId = r.requestId ∧ p.nodeId = r.nodeId ∧ p.appId = r.appId ∧ p.actionId = r.actionId

/-- The delivery of a record was prepared. -/
def PreparedAs (own : List Record) (r : Record) : Prop :=
  ∃ p ∈ own, p.kind = .deliveryPrepared ∧ SameDelivery p r

def WasSent (own : List Record) (requestId : UInt64) : Prop :=
  ∃ r ∈ own, r.kind = .deliverySent ∧ r.requestId = requestId

/-- The outcome of highest precedence that an action of the execution had. -/
def Highest (own : List Record) (outcome : Outcome) : Prop :=
  (∃ r ∈ own, r.kind.IsOutcome ∧ r.outcome = outcome) ∧
    ∀ r ∈ own, r.kind.IsOutcome → r.outcome.precedence ≤ outcome.precedence

/-- What the records of one execution may go on with. -/
inductive Extends (own : List Record) (r : Record) : Prop
  /-- An execution starts once, before everything else. -/
  | started (kind : r.kind = .executionStarted) (first : own = [])
  /-- Requests are prepared once, with ascending ids. -/
  | prepared (kind : r.kind = .deliveryPrepared) (unfinished : Unfinished own)
      (fresh : ∀ q, Prepared own q → q < r.requestId)
  /-- A delivery is sent once, after it was prepared and while it is open. -/
  | sent (kind : r.kind = .deliverySent) (unfinished : Unfinished own)
      (delivery : PreparedAs own r) (isOpen : ¬ Closed own r.requestId)
      (unsent : ¬ WasSent own r.requestId)
  /-- A delivery is closed once: by what its action returned if it was sent, as not sent if not. -/
  | closed (kind : r.kind.IsOutcome) (unfinished : Unfinished own)
      (delivery : PreparedAs own r) (isOpen : ¬ Closed own r.requestId)
      (returned : r.outcome = .success ∨ r.outcome = .appError → WasSent own r.requestId)
      (notSent : r.outcome = .notSent → ¬ WasSent own r.requestId)
  /-- An execution finishes once all its deliveries are closed, with their highest outcome. -/
  | finished (kind : r.kind = .executionFinished) (unfinished : Unfinished own)
      (settled : ∀ q, Prepared own q → Closed own q)
      (outcome : HasFact own → Highest own r.outcome)
      (unknown : ¬ HasFact own → r.outcome = .unknown)

/-- A list of records in which every record extends those before it. -/
structure History (rs : List Record) : Prop where
  /-- The records are numbered from 1 on. -/
  numbered : ∀ k (hk : k < rs.length), rs[k].sequence.toNat = k + 1
  /-- The identities of started executions ascend. -/
  ascending : ((rs.filter (·.kind = .executionStarted)).map (·.executionId)).Pairwise (· < ·)
  extends_ : ∀ before r after, rs = before ++ r :: after →
    Extends (recordsOf before r.executionId) r

/-- An open delivery as a summary lists it. -/
structure ListsDelivery (own : List Record) (d : OpenDelivery) : Prop where
  prepared : ∃ p ∈ own, p.kind = .deliveryPrepared ∧ p.requestId = d.requestId ∧
    p.nodeId = d.nodeId ∧ p.appId = d.appId ∧ p.actionId = d.actionId
  isOpen : ¬ Closed own d.requestId
  sent : d.deliveryWasSent = true ↔ WasSent own d.requestId

/-- An entry of a summary: the execution as it started, and its open deliveries, each once. -/
structure ListsExecution (rs : List Record) (entry : Interrupted) : Prop where
  unfinished : Unfinished (recordsOf rs entry.executionId)
  origin : ∃ r ∈ recordsOf rs entry.executionId, r.kind = .executionStarted ∧
    r.workflowId = entry.workflowId ∧ r.imageFingerprint = entry.imageFingerprint
  listed : ∀ d ∈ entry.openDeliveries, ListsDelivery (recordsOf rs entry.executionId) d
  all : ∀ q, Open (recordsOf rs entry.executionId) q →
    q ∈ entry.openDeliveries.map (·.requestId)
  once : (entry.openDeliveries.map (·.requestId)).Nodup

/-- The summary of a history. -/
structure Summarises (rs : List Record) (summary : Summary) : Prop where
  count : summary.recordCount = rs.length
  listed : ∀ entry ∈ summary.interrupted, ListsExecution rs entry
  all : ∀ e, Unfinished (recordsOf rs e) → e ∈ summary.interrupted.map (·.executionId)
  once : (summary.interrupted.map (·.executionId)).Nodup
  next : ∀ r ∈ rs, r.executionId < summary.nextExecutionId

/-! ## One execution -/

section Snoc

variable (own : List Record) (r : Record) (q : UInt64)

theorem wasSent_snoc :
    WasSent (own ++ [r]) q ↔ WasSent own q ∨ r.kind = .deliverySent ∧ r.requestId = q :=
  exists_mem_snoc own r

end Snoc

/-- What a scanner entry remembers of an execution, beside what `Follows` says. -/
structure Remembers (own : List Record) (x : ScanExecution) : Prop where
  origin : ∃ r ∈ own, r.kind = .executionStarted ∧ r.workflowId = x.workflowId ∧
    r.imageFingerprint = x.imageFingerprint
  listed : ∀ d ∈ x.openDeliveries, ListsDelivery own d
  /-- Only what was prepared was sent. -/
  sentPrepared : ∀ q, WasSent own q → Prepared own q
  outcome : HasFact own → Highest own x.terminalOutcome

theorem highest_snoc_of_not {own : List Record} {r : Record} {o : Outcome}
    (hno : ¬ r.kind.IsOutcome) (h : Highest own o) : Highest (own ++ [r]) o := by
  obtain ⟨⟨s, hs, hkind, hout⟩, hall⟩ := h
  refine ⟨⟨s, List.mem_append_left _ hs, hkind, hout⟩, fun t ht hout => ?_⟩
  rcases List.mem_append.mp ht with ht | ht
  · exact hall t ht hout
  · rw [List.mem_singleton.mp ht] at hout
    exact absurd hout hno

/-- A record about another delivery leaves a listed one as it is. -/
theorem ListsDelivery.snoc {own : List Record} {d : OpenDelivery} {r : Record}
    (h : ListsDelivery own d) (hclosed : r.kind.IsOutcome → r.requestId ≠ d.requestId)
    (hsent : r.kind = .deliverySent → r.requestId ≠ d.requestId) :
    ListsDelivery (own ++ [r]) d := by
  obtain ⟨p, hp, hroute⟩ := h.prepared
  refine ⟨⟨p, List.mem_append_left _ hp, hroute⟩, fun hc => ?_, ?_⟩
  · rw [closed_snoc] at hc
    rcases hc with hc | ⟨hout, hid⟩
    · exact h.isOpen hc
    · exact hclosed hout hid
  · rw [wasSent_snoc, h.sent]
    constructor
    · exact .inl
    · intro hs
      rcases hs with hs | ⟨hkind, hid⟩
      · exact hs
      · exact absurd hid (hsent hkind)

/-- The delivery that a record finds is listed, under its request and route. -/
theorem findDelivery_listed {x : ScanExecution} {r : Record} {i : Nat}
    (h : findDelivery x r = some i) : ∃ hi : i < x.openDeliveries.length,
      x.openDeliveries[i].requestId = r.requestId ∧ x.openDeliveries[i].nodeId = r.nodeId ∧
        x.openDeliveries[i].appId = r.appId ∧ x.openDeliveries[i].actionId = r.actionId ∧
        x.sentAt i = x.openDeliveries[i].deliveryWasSent := by
  obtain ⟨hi, hmatch, -⟩ := List.findIdx?_eq_some_iff_getElem.mp h
  simp only [routeMatches, Bool.and_eq_true, beq_iff_eq] at hmatch
  obtain ⟨⟨⟨hrequest, hnode⟩, happ⟩, haction⟩ := hmatch
  refine ⟨hi, hrequest, hnode, happ, haction, ?_⟩
  simp [ScanExecution.sentAt, List.getElem?_eq_getElem hi]

/-- Listed deliveries are told apart by their requests. -/
theorem Follows.request_ne {own : List Record} {x : ScanExecution} (h : Follows own x)
    {i j : Nat} (hi : i < x.openDeliveries.length) (hj : j < x.openDeliveries.length)
    (hij : j ≠ i) : x.openDeliveries[j].requestId ≠ x.openDeliveries[i].requestId := by
  intro heq
  have hnodup := h.nodup
  rw [ScanExecution.openIds] at hnodup
  have hj' : j < (x.openDeliveries.map (·.requestId)).length := by simpa using hj
  have hi' : i < (x.openDeliveries.map (·.requestId)).length := by simpa using hi
  have hids : (x.openDeliveries.map (·.requestId))[j] =
      (x.openDeliveries.map (·.requestId))[i] := by simpa using heq
  exact hij ((List.Nodup.getElem_inj_iff hnodup).mp hids)

section Known

variable {own : List Record} {x y : ScanExecution} {r : Record}

theorem remembers_prepared (hf : Follows own x) (h : Remembers own x)
    (hk : r.kind = .deliveryPrepared) (ht : transitionPrepared x r = .ok y) :
    Remembers (own ++ [r]) y := by
  obtain ⟨-, hlt, -, rfl⟩ := transitionPrepared_ok.mp ht
  have hno : ¬ r.kind.IsOutcome := by rw [hk]; decide
  have hnot : r.kind ≠ .deliverySent := by rw [hk]; decide
  -- the new number is above every number used before
  have hnew : ∀ q, Prepared own q ∨ Closed own q → q ≠ r.requestId := by
    intro q hq heq
    rw [heq] at hq
    exact absurd hlt (UInt64.not_lt.mpr (hf.bounded _ hq))
  obtain ⟨t, htmem, horigin⟩ := h.origin
  refine ⟨⟨t, List.mem_append_left _ htmem, horigin⟩, fun d hd => ?_, fun q hq => ?_, fun hfact => ?_⟩
  · rcases List.mem_append.mp hd with hd | hd
    · exact (h.listed d hd).snoc (fun hout => absurd hout hno) fun hsent => absurd hsent hnot
    · rw [List.mem_singleton.mp hd]
      refine ⟨⟨r, by simp, hk, rfl, rfl, rfl, rfl⟩, fun hc => ?_, ?_⟩
      · rw [closed_snoc] at hc
        rcases hc with hc | ⟨hout, -⟩
        · exact hnew _ (.inr hc) rfl
        · exact hno hout
      · rw [wasSent_snoc]
        constructor
        · intro hflag
          cases hflag
        · intro hs
          rcases hs with hs | ⟨hkind, -⟩
          · exact absurd rfl (hnew _ (.inl (h.sentPrepared _ hs)))
          · exact absurd hkind hnot
  · rw [wasSent_snoc] at hq
    rw [prepared_snoc]
    rcases hq with hq | ⟨hkind, -⟩
    · exact .inl (h.sentPrepared q hq)
    · exact absurd hkind hnot
  · rw [hasFact_snoc] at hfact
    exact highest_snoc_of_not hno (h.outcome (hfact.resolve_right hno))

theorem remembers_sent (hf : Follows own x) (h : Remembers own x)
    (hk : r.kind = .deliverySent) (ht : transitionSent x r = .ok y) :
    Remembers (own ++ [r]) y := by
  obtain ⟨i, hfind, -, rfl⟩ := transitionSent_ok.mp ht
  obtain ⟨hi, hrequest, -⟩ := findDelivery_listed hfind
  have hno : ¬ r.kind.IsOutcome := by rw [hk]; decide
  obtain ⟨t, htmem, horigin⟩ := h.origin
  refine ⟨⟨t, List.mem_append_left _ htmem, horigin⟩, fun d hd => ?_, fun q hq => ?_, fun hfact => ?_⟩
  · obtain ⟨j, hj, rfl⟩ := List.getElem_of_mem hd
    rw [List.length_modify] at hj
    have hlisted := h.listed _ (List.getElem_mem hj)
    rw [List.getElem_modify]
    by_cases hij : i = j
    · subst hij
      rw [if_pos rfl]
      obtain ⟨p, hp, hroute⟩ := hlisted.prepared
      refine ⟨⟨p, List.mem_append_left _ hp, hroute⟩, fun hc => ?_, ?_⟩
      · rw [closed_snoc] at hc
        rcases hc with hc | ⟨hout, -⟩
        · exact hlisted.isOpen hc
        · exact hno hout
      · rw [wasSent_snoc]
        exact ⟨fun _ => .inr ⟨hk, hrequest.symm⟩, fun _ => rfl⟩
    · rw [if_neg hij]
      exact hlisted.snoc (fun hout => absurd hout hno) fun _ => by
        rw [← hrequest]
        exact hf.request_ne hj hi hij
  · rw [wasSent_snoc] at hq
    rw [prepared_snoc]
    rcases hq with hq | ⟨-, rfl⟩
    · exact .inl (h.sentPrepared q hq)
    · exact .inl (hrequest ▸ ((hf.openIds _).mp (List.mem_map_of_mem (List.getElem_mem hi))).1)
  · rw [hasFact_snoc] at hfact
    exact highest_snoc_of_not hno (h.outcome (hfact.resolve_right hno))

/-- The aggregate behind one more fact is the highest outcome. -/
theorem highest_outcomeWith (hf : Follows own x) (h : Remembers own x) (hk : r.kind.IsOutcome) :
    Highest (own ++ [r]) (x.outcomeWith r.outcome) := by
  by_cases hfact : HasFact own
  · obtain ⟨⟨s, hs, hkind, hout⟩, hall⟩ := h.outcome hfact
    have haction : ¬ ¬ x.hasActionOutcome = true := not_not.mpr (hf.fact.mpr hfact)
    unfold ScanExecution.outcomeWith
    by_cases hlt : x.terminalOutcome.precedence < r.outcome.precedence
    · rw [if_pos (.inr hlt)]
      refine ⟨⟨r, by simp, hk, rfl⟩, fun t ht hout => ?_⟩
      rcases List.mem_append.mp ht with ht | ht
      · exact (hall t ht hout).trans (Nat.le_of_lt hlt)
      · rw [List.mem_singleton.mp ht]
    · rw [if_neg (not_or.mpr ⟨haction, hlt⟩)]
      refine ⟨⟨s, List.mem_append_left _ hs, hkind, hout⟩, fun t ht hout => ?_⟩
      rcases List.mem_append.mp ht with ht | ht
      · exact hall t ht hout
      · rw [List.mem_singleton.mp ht]
        omega
  · have haction : x.hasActionOutcome ≠ true := fun h' => hfact (hf.fact.mp h')
    unfold ScanExecution.outcomeWith
    rw [if_pos (.inl haction)]
    refine ⟨⟨r, by simp, hk, rfl⟩, fun t ht hout => ?_⟩
    rcases List.mem_append.mp ht with ht | ht
    · exact absurd ⟨t, ht, hout⟩ hfact
    · rw [List.mem_singleton.mp ht]

theorem remembers_outcome (hf : Follows own x) (h : Remembers own x) (hk : r.kind.IsOutcome)
    (ht : transitionOutcome x r = .ok y) : Remembers (own ++ [r]) y := by
  obtain ⟨i, hfind, -, rfl⟩ := transitionOutcome_ok.mp ht
  obtain ⟨hi, hrequest, -⟩ := findDelivery_listed hfind
  have hnot : r.kind ≠ .deliverySent := by
    intro heq
    rw [heq] at hk
    revert hk
    decide
  obtain ⟨t, htmem, horigin⟩ := h.origin
  refine ⟨⟨t, List.mem_append_left _ htmem, horigin⟩, fun d hd => ?_, fun q hq => ?_, fun _ => ?_⟩
  · obtain ⟨j, hij, hj⟩ := List.mem_eraseIdx_iff_getElem?.mp hd
    obtain ⟨hlt, rfl⟩ := List.getElem?_eq_some_iff.mp hj
    refine (h.listed _ (List.getElem_mem hlt)).snoc (fun _ => ?_) fun hsent => absurd hsent hnot
    rw [← hrequest]
    exact (hf.request_ne hi hlt hij).symm
  · rw [wasSent_snoc] at hq
    rw [prepared_snoc]
    rcases hq with hq | ⟨hkind, -⟩
    · exact .inl (h.sentPrepared q hq)
    · exact absurd hkind hnot
  · exact highest_outcomeWith hf h hk

/-- **A record that the scanner accepts extends the history of its execution.** -/
theorem extends_known (hf : Follows own x) (h : Remembers own x) (hun : Unfinished own)
    (hr : validateRecord r = .ok) (ht : transitionKnown x r = .ok y) : Extends own r := by
  -- What finding a delivery says of it.
  have hfound : ∀ {i : Nat}, findDelivery x r = some i → PreparedAs own r ∧
      ¬ Closed own r.requestId ∧ (x.sentAt i = true ↔ WasSent own r.requestId) := by
    intro i hfind
    obtain ⟨hi, hrequest, hnode, happ, haction, hsent⟩ := findDelivery_listed hfind
    have hlisted := h.listed _ (List.getElem_mem hi)
    obtain ⟨p, hp, hkind, h1, h2, h3, h4⟩ := hlisted.prepared
    rw [hsent, ← hrequest]
    exact ⟨⟨p, hp, hkind, h1.trans hrequest, h2.trans hnode, h3.trans happ, h4.trans haction⟩,
      hlisted.isOpen, hlisted.sent⟩
  have hclosing : ∀ {y}, r.kind.IsOutcome → transitionOutcome x r = .ok y → Extends own r := by
    intro y hk ht
    obtain ⟨i, hfind, hphase, -⟩ := transitionOutcome_ok.mp ht
    obtain ⟨hprepared, hopen, hsent⟩ := hfound hfind
    have hvalid := valid_outcome hr
    refine .closed hk hun hprepared hopen (fun hout => ?_) fun hout hwas => ?_
    · -- only the kind with this outcome is left
      rw [← hsent]
      by_contra hunsent
      rw [Bool.not_eq_true] at hunsent
      rcases hk with hk | hk | hk
      · exact hphase (.inl ⟨hk, hunsent⟩)
      · rw [hk] at hvalid
        rcases hvalid with hvalid | hvalid
        · exact hphase (.inr (.inl ⟨hk, hvalid, hunsent⟩))
        · rw [hvalid] at hout
          simp at hout
      · rw [hk] at hvalid
        rw [show r.outcome = .unknown from hvalid] at hout
        simp at hout
    · rw [← hsent] at hwas
      rcases hk with hk | hk | hk
      · rw [hk] at hvalid
        exact absurd (hout.symm.trans hvalid) (by decide)
      · exact hphase (.inr (.inr ⟨hk, hout, hwas⟩))
      · rw [hk] at hvalid
        exact absurd (hout.symm.trans hvalid) (by decide)
  cases hkind : r.kind with
  | executionStarted =>
      rw [transitionKnown, hkind] at ht
      cases ht
  | deliveryPrepared =>
      rw [transitionKnown, hkind] at ht
      obtain ⟨-, hlt, -, -⟩ := transitionPrepared_ok.mp ht
      exact .prepared hkind hun fun q hq => UInt64.lt_of_le_of_lt (hf.bounded q (.inl hq)) hlt
  | deliverySent =>
      rw [transitionKnown, hkind] at ht
      obtain ⟨i, hfind, hunsent, -⟩ := transitionSent_ok.mp ht
      obtain ⟨hprepared, hopen, hsent⟩ := hfound hfind
      refine .sent hkind hun hprepared hopen fun hwas => ?_
      rw [hsent.mpr hwas] at hunsent
      cases hunsent
  | actionSucceeded =>
      rw [transitionKnown, hkind] at ht
      exact hclosing (.inl hkind) ht
  | actionFailed =>
      rw [transitionKnown, hkind] at ht
      exact hclosing (.inr (.inl hkind)) ht
  | actionUnknown =>
      rw [transitionKnown, hkind] at ht
      exact hclosing (.inr (.inr hkind)) ht
  | executionFinished =>
      rw [transitionKnown, hkind] at ht
      obtain ⟨hnone, hout, -⟩ := transitionFinished_ok.mp ht
      refine .finished hkind hun (fun q hq => ?_) (fun hfact => ?_) fun hfact => ?_
      · by_contra hopen
        have hmem := (hf.openIds q).mpr ⟨hq, hopen⟩
        rw [ScanExecution.openIds, hnone] at hmem
        cases hmem
      · rw [if_pos (hf.fact.mpr hfact)] at hout
        exact hout ▸ h.outcome hfact
      · rwa [if_neg fun h' => hfact (hf.fact.mp h')] at hout

end Known

/-! ## The table -/

/-- Every entry in use remembers its execution. -/
def Recalls (rs : List Record) (xs : Executions) : Prop :=
  ∀ i, (xs i).active = true → Remembers (recordsOf rs (xs i).executionId) (xs i)

/-- An entry that is still in use behind a record remembers it. -/
theorem remembers_known {own : List Record} {x y : ScanExecution} {r : Record}
    (hf : Follows own x) (h : Remembers own x) (ht : transitionKnown x r = .ok y)
    (hactive : y.active = true) : Remembers (own ++ [r]) y ∧ y.executionId = x.executionId := by
  cases hkind : r.kind with
  | executionStarted =>
      rw [transitionKnown, hkind] at ht
      cases ht
  | deliveryPrepared =>
      rw [transitionKnown, hkind] at ht
      have hy := remembers_prepared hf h hkind ht
      obtain ⟨-, -, -, rfl⟩ := transitionPrepared_ok.mp ht
      exact ⟨hy, rfl⟩
  | deliverySent =>
      rw [transitionKnown, hkind] at ht
      have hy := remembers_sent hf h hkind ht
      obtain ⟨i, -, -, rfl⟩ := transitionSent_ok.mp ht
      exact ⟨hy, rfl⟩
  | actionSucceeded | actionFailed | actionUnknown =>
      rw [transitionKnown, hkind] at ht
      have hy := remembers_outcome hf h (by rw [hkind]; decide) ht
      obtain ⟨i, -, -, rfl⟩ := transitionOutcome_ok.mp ht
      exact ⟨hy, rfl⟩
  | executionFinished =>
      rw [transitionKnown, hkind] at ht
      obtain ⟨-, -, rfl⟩ := transitionFinished_ok.mp ht
      cases hactive

theorem remembers_started {r : Record} {x : ScanExecution} (hk : r.kind = .executionStarted)
    (hworkflow : r.workflowId = x.workflowId) (himage : r.imageFingerprint = x.imageFingerprint)
    (hopen : x.openDeliveries = []) : Remembers [r] x := by
  have hno : ¬ r.kind.IsOutcome := by rw [hk]; decide
  refine ⟨⟨r, by simp, hk, hworkflow, himage⟩, fun d hd => ?_, fun q hq => ?_, fun hfact => ?_⟩
  · rw [hopen] at hd
    cases hd
  · obtain ⟨t, ht, hkind, -⟩ := hq
    rw [List.mem_singleton.mp ht, hk] at hkind
    cases hkind
  · obtain ⟨t, ht, hkind⟩ := hfact
    rw [List.mem_singleton.mp ht] at hkind
    exact absurd hkind hno

/-- **One accepted record extends its execution, and the table remembers it.** -/
theorem recalls_scanTransition {rs : List Record} {st : ScanState} {r : Record} {xs : Executions}
    (h : Tracks rs st) (hm : Recalls rs st.executions) (hr : validateRecord r = .ok)
    (hstart : r.kind = .executionStarted → st.largestStartedId < r.executionId)
    (ht : scanTransition st.executions r = .ok xs) :
    Recalls (rs ++ [r]) xs ∧ Extends (recordsOf rs r.executionId) r := by
  rcases scanTransition_ok.mp ht with ⟨hk, -, i, hi, rfl⟩ | ⟨-, i, hi, -, -, y, hy, rfl⟩
  · have hfree : (st.executions i).active = false := by simpa using firstIndex_some hi
    have hfresh : recordsOf rs r.executionId = [] := recordsOf_eq_nil fun s hs he =>
      absurd (hstart hk) (UInt64.not_lt.mpr (he ▸ h.started s hs))
    refine ⟨fun j hj => ?_, .started hk hfresh⟩
    by_cases hji : j = i
    · subst hji
      rw [Function.update_self, recordsOf_snoc_self, hfresh]
      exact remembers_started hk rfl rfl (by rw [h.cleared j hfree])
    · rw [Function.update_of_ne hji] at hj ⊢
      have hne : r.executionId ≠ (st.executions j).executionId := by
        intro he
        have hun := (h.unfinished _).mpr ⟨j, hj, rfl⟩
        rw [← he, hfresh] at hun
        obtain ⟨⟨t, ht, -⟩, -⟩ := hun
        cases ht
      rw [recordsOf_snoc_of_ne rs hne]
      exact hm j hj
  · obtain ⟨hact, hid⟩ := findScanExecution_some hi
    have hf := h.follows i hact
    have hmi := hm i hact
    have hun := (h.unfinished r.executionId).mpr ⟨i, hact, hid⟩
    rw [hid] at hf hmi
    refine ⟨fun j hj => ?_, extends_known hf hmi hun hr hy⟩
    by_cases hji : j = i
    · subst hji
      rw [Function.update_self] at hj ⊢
      obtain ⟨hremembers, hsame⟩ := remembers_known hf hmi hy hj
      rw [hsame, hid, recordsOf_snoc_self]
      exact hremembers
    · rw [Function.update_of_ne hji] at hj ⊢
      have hne : r.executionId ≠ (st.executions j).executionId := fun he =>
        hji (h.unique j i hj hact (by rw [hid, he]))
      rw [recordsOf_snoc_of_ne rs hne]
      exact hm j hj

/-! ## The whole history -/

theorem history_nil : History [] := by
  refine ⟨fun k hk => absurd hk (Nat.not_lt_zero k), .nil, fun before r after h => ?_⟩
  have hlen := congrArg List.length h
  rw [List.length_append, List.length_cons, List.length_nil] at hlen
  omega

/-- A history stays below the largest sequence number. -/
theorem History.length_lt {rs : List Record} (h : History rs) : rs.length < 2 ^ 64 := by
  rcases Nat.eq_zero_or_pos rs.length with hzero | hpos
  · omega
  · have hlast := h.numbered (rs.length - 1) (by omega)
    have hbound := (rs[rs.length - 1]).sequence.toNat_lt
    omega

theorem History.snoc {rs : List Record} {r : Record} (h : History rs)
    (hsequence : r.sequence.toNat = rs.length + 1)
    (hascends : r.kind = .executionStarted → ∀ s ∈ rs, s.executionId < r.executionId)
    (hextends : Extends (recordsOf rs r.executionId) r) : History (rs ++ [r]) := by
  refine ⟨fun k hk => ?_, ?_, fun before t after hsplit => ?_⟩
  · by_cases hlast : k < rs.length
    · rw [List.getElem_append_left hlast]
      exact h.numbered k hlast
    · rw [List.length_append, List.length_singleton] at hk
      obtain rfl : k = rs.length := by omega
      rw [List.getElem_concat_length rfl]
      exact hsequence
  · rw [List.filter_append, List.map_append, List.pairwise_append]
    refine ⟨h.ascending, ?_, fun a ha b hb => ?_⟩
    · by_cases hk : r.kind = .executionStarted
      · simp [hk]
      · simp [hk]
    · by_cases hk : r.kind = .executionStarted
      · simp only [hk, List.filter_cons, decide_true, if_true, List.filter_nil, List.map_cons,
          List.map_nil, List.mem_singleton] at hb
        obtain ⟨s, hs, rfl⟩ := List.mem_map.mp ha
        rw [hb]
        exact hascends hk s (List.mem_of_mem_filter hs)
      · simp [hk] at hb
  · rcases List.eq_nil_or_concat after with rfl | ⟨rest, last, rfl⟩
    · obtain ⟨rfl, hr⟩ := List.append_inj' hsplit rfl
      obtain rfl := (List.cons.inj hr).1
      exact hextends
    · rw [List.concat_eq_append, ← List.cons_append, ← List.append_assoc] at hsplit
      obtain ⟨hrs, -⟩ := List.append_inj' hsplit rfl
      exact h.extends_ before t rest hrs

/-- **Every list of records the scanner accepts is a history.** -/
theorem history_scanRecords {rs : List Record} :
    ∀ {ts : List Record} {st st' : ScanState}, Tracks ts st → Recalls ts st.executions →
      History ts → (∀ r ∈ rs, validateRecord r = .ok) → scanRecords st rs = .ok st' →
      History (ts ++ rs) ∧ Recalls (ts ++ rs) st'.executions := by
  induction rs with
  | nil =>
      intro ts st st' _ hm hh _ hs
      obtain rfl : st = st' := by simpa [scanRecords, pure, Except.pure] using hs
      rw [List.append_nil]
      exact ⟨hh, hm⟩
  | cons r rs ih =>
      intro ts st st' h hm hh hv hs
      cases hr : scanRecord st r with
      | error e => simp [scanRecords, hr, bind, Except.bind] at hs
      | ok st₁ =>
          have hs' : scanRecords st₁ rs = .ok st' := by
            simpa [scanRecords, hr, bind, Except.bind] using hs
          have hvalid := hv r (by simp)
          have h₁ := tracks_scanRecord h hvalid hr
          obtain ⟨hsequence, hstart, -, xs, ht, rfl⟩ := scanRecord_ok.mp hr
          obtain ⟨hm₁, hextends⟩ := recalls_scanTransition h hm hvalid hstart ht
          have hnumber : r.sequence.toNat = ts.length + 1 := by
            have hlen := hh.length_lt
            have hne := (valid_ids hvalid).1
            rw [hsequence, h.sequence] at hne ⊢
            rw [UInt64.toNat_ofNat']
            by_cases hfull : ts.length + 1 = 2 ^ 64
            · rw [hfull] at hne
              exact absurd rfl hne
            · exact Nat.mod_eq_of_lt (by omega)
          have hh₁ := hh.snoc hnumber
            (fun hk s hs => UInt64.lt_of_le_of_lt (h.started s hs) (hstart hk)) hextends
          rw [List.append_cons]
          exact ih h₁ hm₁ hh₁ (fun s hs => hv s (by simp [hs])) hs'

/-- The summary is read off the table, and the table off the history. -/
theorem summarises_of_tracks {rs : List Record} {st : ScanState} (h : Tracks rs st)
    (hm : Recalls rs st.executions) : Summarises rs st.summary := by
  refine ⟨h.count, fun entry hentry => ?_, fun e he => ?_, ?_, h.known⟩
  · rw [summary_interrupted] at hentry
    obtain ⟨i, hi, rfl⟩ := List.mem_map.mp hentry
    have hactive := mem_unfinished.mp hi
    have hf := h.follows i hactive
    have hr := hm i hactive
    exact ⟨(h.unfinished _).mpr ⟨i, hactive, rfl⟩, hr.origin, hr.listed,
      fun q hq => (hf.openIds q).mpr hq, hf.nodup⟩
  · obtain ⟨i, hactive, rfl⟩ := (h.unfinished e).mp he
    rw [summary_interrupted, List.map_map]
    exact List.mem_map.mpr ⟨i, mem_unfinished.mpr hactive, rfl⟩
  · rw [summary_interrupted, List.map_map]
    refine List.Nodup.map_on (fun i hi j hj heq => ?_) ((List.nodup_finRange _).filter _)
    exact h.unique i j (mem_unfinished.mp hi) (mem_unfinished.mp hj) heq

/-- A file cut at a record boundary has the first records of the file. -/
theorem records_take {bytes : Bytes} (hlen : bytes.length % recordSize = 0) {count : Nat}
    (hcount : count ≤ bytes.length / recordSize) :
    (bytes.take (recordSize * count)).length = recordSize * count ∧
      ∃ more, bytes.records recordSize (bytes.length / recordSize) =
        Bytes.records recordSize count (bytes.take (recordSize * count)) ++ more := by
  have hwhole : bytes.length = recordSize * (bytes.length / recordSize) :=
    (Nat.mul_div_cancel' (Nat.dvd_of_mod_eq_zero hlen)).symm
  have hle : recordSize * count ≤ bytes.length := by
    rw [hwhole]
    exact Nat.mul_le_mul_left _ hcount
  have htake : (bytes.take (recordSize * count)).length = recordSize * count := by
    rw [List.length_take]
    omega
  refine ⟨htake, Bytes.records recordSize (bytes.length / recordSize - count)
    (bytes.drop (recordSize * count)), ?_⟩
  have happend := Bytes.records_append count (bytes.length / recordSize - count)
    (bytes.take (recordSize * count)) (bytes.drop (recordSize * count)) htake
  rwa [List.take_append_drop, Nat.add_sub_cancel' hcount] at happend

/--
**An accepted journal is a history, and its summary says what is unfinished.**

Every record extends the records of its execution before it, the files cut at a record
boundary are accepted too, and the summary lists the unfinished executions with their
open deliveries, below the next execution id.
-/
theorem scan_history {bytes : Bytes} {summary : Summary} (h : scan bytes = .ok summary) :
    History (journalRecords bytes) ∧ Summarises (journalRecords bytes) summary ∧
      ∀ count, count ≤ bytes.length / recordSize →
        ∃ prior, scan (bytes.take (recordSize * count)) = .ok prior := by
  obtain ⟨hlen, st, hrun, rfl⟩ := scan_ok.mp h
  obtain ⟨hrecords, -, hvalid⟩ := scanBytes_records hrun
  obtain ⟨htracks, -⟩ := tracks_scan hrun
  obtain ⟨hhistory, hrecalls⟩ := history_scanRecords tracks_init
    (fun i hi => absurd hi (by simp)) history_nil hvalid hrecords
  refine ⟨hhistory, summarises_of_tracks htracks hrecalls, fun count hcount => ?_⟩
  obtain ⟨htake, more, hsplit⟩ := records_take hlen hcount
  rw [hsplit, List.foldlM_append] at hrun
  -- The run over the whole file passes the state behind the first records.
  cases hprior : (Bytes.records recordSize count (bytes.take (recordSize * count))).foldlM
      scanBytes {} with
  | error e =>
      rw [hprior] at hrun
      cases hrun
  | ok prior =>
      refine ⟨prior.summary, scan_ok.mpr ⟨?_, prior, ?_, rfl⟩⟩
      · rw [htake, Nat.mul_mod_right]
      · rw [htake, Nat.mul_div_cancel_left _ (by decide)]
        exact hprior

/-- One execution has finished, another has a delivery out. -/
def secondOutFile : Bytes := journalFile
  [ { kind := .executionStarted, outcome := .none, executionId := 1, workflowId := 1,
      imageFingerprint := 7 },
    { kind := .deliveryPrepared, outcome := .none, executionId := 1, workflowId := 1,
      requestId := 1, nodeId := 1, appId := 1, actionId := 1, imageFingerprint := 7 },
    { kind := .actionFailed, outcome := .notSent, executionId := 1, workflowId := 1,
      requestId := 1, nodeId := 1, appId := 1, actionId := 1, imageFingerprint := 7 },
    { kind := .executionFinished, outcome := .notSent, executionId := 1, workflowId := 1,
      imageFingerprint := 7 },
    { kind := .executionStarted, outcome := .none, executionId := 2, workflowId := 1,
      imageFingerprint := 7 },
    { kind := .deliveryPrepared, outcome := .none, executionId := 2, workflowId := 1,
      requestId := 1, nodeId := 1, appId := 1, actionId := 1, imageFingerprint := 7 },
    { kind := .deliverySent, outcome := .none, executionId := 2, workflowId := 1,
      requestId := 1, nodeId := 1, appId := 1, actionId := 1, imageFingerprint := 7 } ]

theorem scan_history_secondOut :
    History (journalRecords secondOutFile) ∧
      Summarises (journalRecords secondOutFile)
        { recordCount := 7, nextSequence := 8, nextExecutionId := 3, interrupted := [
          { executionId := 2, workflowId := 1, imageFingerprint := 7, openDeliveries := [
            { deliveryWasSent := true, requestId := 1, nodeId := 1, appId := 1,
              actionId := 1 }] }] } := by
  have hscan : scan secondOutFile = .ok
      { recordCount := 7, nextSequence := 8, nextExecutionId := 3, interrupted := [
        { executionId := 2, workflowId := 1, imageFingerprint := 7, openDeliveries := [
          { deliveryWasSent := true, requestId := 1, nodeId := 1, appId := 1,
            actionId := 1 }] }] } := by
    decide +kernel
  obtain ⟨hhistory, hsummary, -⟩ := scan_history hscan
  exact ⟨hhistory, hsummary⟩

end Hermas.Journal
