import Hermas.Saga.LogScan
import Hermas.Saga.Plan

/-!
# The log of one compensation

A compensation goes through phases: so many steps are left and no delivery is open,
the delivery of the last of them is prepared, or sent, or it was closed without
success, or the compensation is finished. Every record moves it from one phase to
the next, and a trace is a log whose records do so one after another. The scanner
accepts every trace, and its entry is the phase in other words.
-/

namespace Hermas.Saga

instance : NeZero Log.maxActive := ⟨by decide⟩

/-- Where a compensation stands; `left` steps are not undone yet. -/
inductive Phase where
  | fresh
  | ready (left : Nat)
  | prepared (left : Nat) (requestId : UInt64)
  | sent (left : Nat) (requestId : UInt64)
  | failed (left : Nat) (requestId : UInt64) (outcome : Outcome)
  | finished (left : Nat) (outcome : Outcome)

/-- The record is about the execution of the plan. -/
structure Owned (plan : Execution) (r : Log.Record) : Prop where
  executionId : r.executionId = plan.executionId
  workflowId : r.workflowId = plan.workflowId
  imageFingerprint : r.imageFingerprint = plan.imageFingerprint

/-- The record names the delivery of a step. -/
structure Names (plan : Execution) (number : Nat) (requestId : UInt64) (r : Log.Record) : Prop where
  requestId : r.requestId = requestId
  forwardNode : r.forwardNode = (plan.step number).forwardNode
  appId : r.appId = (plan.step number).compensationAppId
  actionId : r.actionId = (plan.step number).compensationActionId
  ordinal : r.ordinal = UInt16.ofNat number

/-- What a record adds to the log of a compensation. -/
inductive Advances (plan : Execution) : Phase → Log.Record → Phase → Prop
  | started {r} (kind : r.kind = .started) (outcome : r.outcome = plan.originalOutcome)
      (ordinal : r.ordinal = UInt16.ofNat plan.remaining) (requestId : r.requestId = 0) :
      Advances plan .fresh r (.ready plan.remaining)
  | prepared {r n q} (kind : r.kind = .deliveryPrepared) (names : Names plan (n + 1) q r)
      (below : q ≠ uint64Max) :
      Advances plan (.ready (n + 1)) r (.prepared (n + 1) q)
  | sent {r n q} (kind : r.kind = .deliverySent) (names : Names plan n q r) :
      Advances plan (.prepared n q) r (.sent n q)
  | succeeded {r n q} (kind : r.kind = .stepSucceeded) (names : Names plan (n + 1) q r) :
      Advances plan (.sent (n + 1) q) r (.ready n)
  | notSent {r n q} (kind : r.kind = .stepFailed) (outcome : r.outcome = .notSent)
      (names : Names plan n q r) :
      Advances plan (.prepared n q) r (.failed n q .notSent)
  | appError {r n q} (kind : r.kind = .stepFailed) (outcome : r.outcome = .appError)
      (names : Names plan n q r) :
      Advances plan (.sent n q) r (.failed n q .appError)
  | unknown {r n q} (kind : r.kind = .stepUnknown) (outcome : r.outcome = .unknown)
      (names : Names plan n q r) :
      Advances plan (.sent n q) r (.failed n q .unknown)
  | completed {r} (kind : r.kind = .finished) (outcome : r.outcome = .success)
      (requestId : r.requestId = 0) :
      Advances plan (.ready 0) r (.finished 0 .success)
  | closed {r n q o} (kind : r.kind = .finished) (outcome : r.outcome = o)
      (requestId : r.requestId = 0) :
      Advances plan (.failed n q o) r (.finished n o)

/-- A log whose records lead from nothing to a phase. -/
inductive Trace (plan : Execution) : List Log.Record → Phase → Prop
  | nil : Trace plan [] .fresh
  | snoc {log phase phase' r} (before : Trace plan log phase) (owned : Owned plan r)
      (advances : Advances plan phase r phase')
      (sequence : r.sequence = UInt64.ofNat (log.length + 1))
      (valid : Log.validateRecord r = .ok) : Trace plan (log ++ [r]) phase'

variable {plan : Execution}

theorem trace_valid {log : List Log.Record} {phase : Phase} (h : Trace plan log phase) :
    ∀ r ∈ log, Log.validateRecord r = .ok := by
  induction h with
  | nil => exact fun r hr => by cases hr
  | snoc _ _ _ _ valid ih =>
      intro r hr
      rcases List.mem_append.mp hr with hr | hr
      · exact ih r hr
      · rwa [List.mem_singleton.mp hr]

theorem trace_owned {log : List Log.Record} {phase : Phase} (h : Trace plan log phase) :
    ∀ r ∈ log, Owned plan r := by
  induction h with
  | nil => exact fun r hr => by cases hr
  | snoc _ owned _ _ _ ih =>
      intro r hr
      rcases List.mem_append.mp hr with hr | hr
      · exact ih r hr
      · rwa [List.mem_singleton.mp hr]

/-! ## What the scanner makes of it -/

/-- The scanner's summary of a phase. -/
def Phase.active (plan : Execution) : Phase → Log.Active
  | .fresh => {}
  | .ready n => idle n
  | .prepared n q => { delivering n q with hasOpenDelivery := true }
  | .sent n q => { delivering n q with hasOpenDelivery := true, deliveryWasSent := true }
  | .failed n q o => { delivering n q with terminalOutcome := o }
  | .finished _ _ => {}
where
  idle (n : Nat) : Log.Active :=
    { executionId := plan.executionId
      workflowId := plan.workflowId
      imageFingerprint := plan.imageFingerprint
      nextOrdinal := UInt16.ofNat n }
  delivering (n : Nat) (q : UInt64) : Log.Active :=
    { idle n with
      requestId := q
      forwardNode := (plan.step n).forwardNode
      appId := (plan.step n).compensationAppId
      actionId := (plan.step n).compensationActionId }

/-- The scanner's entry in a phase. -/
def Phase.entry (plan : Execution) (phase : Phase) : Log.ScanActive :=
  match phase with
  | .fresh => {}
  | .ready _ => { value := phase.active plan, active := true }
  | .prepared _ _ => { value := phase.active plan, active := true, delivery := .prepared }
  | .sent _ _ => { value := phase.active plan, active := true, delivery := .sent }
  | .failed _ _ _ => { value := phase.active plan, active := true, terminal := true }
  | .finished _ _ => {}

/-- The scanner's table: the first slot belongs to the compensation. -/
def Phase.entries (plan : Execution) (phase : Phase) : Log.Entries :=
  Function.update (fun _ => {}) 0 (phase.entry plan)

/-- The entry is in use as long as the compensation goes on. -/
def Phase.Active (phase : Phase) : Prop :=
  match phase with
  | .fresh => False
  | .finished _ _ => False
  | _ => True

theorem entry_active (plan : Execution) {phase : Phase} (h : phase.Active) :
    (phase.entry plan).active = true ∧
      (phase.entry plan).value.executionId = plan.executionId ∧
      (phase.entry plan).value.workflowId = plan.workflowId ∧
      (phase.entry plan).value.imageFingerprint = plan.imageFingerprint := by
  cases phase with
  | fresh => exact h.elim
  | finished _ _ => exact h.elim
  | ready n => exact ⟨rfl, rfl, rfl, rfl⟩
  | prepared n q => exact ⟨rfl, rfl, rfl, rfl⟩
  | sent n q => exact ⟨rfl, rfl, rfl, rfl⟩
  | failed n q o => exact ⟨rfl, rfl, rfl, rfl⟩

theorem findActive_entries {phase : Phase} (h : phase.Active) :
    Log.findActive (phase.entries plan) plan.executionId = some 0 := by
  obtain ⟨hactive, hid, -⟩ := entry_active plan h
  refine firstIndex_unique ?_ fun j hj => ?_
  · simp [Phase.entries, hactive, hid]
  · by_contra hne
    rw [Phase.entries, Function.update_of_ne hne] at hj
    simp at hj

theorem ofNat_succ_sub (n : Nat) : UInt16.ofNat (n + 1) - 1 = UInt16.ofNat n := by
  simp [UInt16.ofNat_add]

/-- A record names the open delivery of the entry. -/
theorem routeMatches_names {number : Nat} {requestId : UInt64} {r : Log.Record}
    {active : Log.Active} (h : Names plan number requestId r)
    (hroute : active.requestId = requestId ∧
      active.forwardNode = (plan.step number).forwardNode ∧
      active.appId = (plan.step number).compensationAppId ∧
      active.actionId = (plan.step number).compensationActionId ∧
      active.nextOrdinal = UInt16.ofNat number) :
    Log.routeMatches active r = true := by
  obtain ⟨h1, h2, h3, h4, h5⟩ := hroute
  simp [Log.routeMatches, h.requestId, h.forwardNode, h.appId, h.actionId, h.ordinal, h1, h2, h3,
    h4, h5]

/-- What a record does to the entry of a compensation that goes on. -/
theorem transitionKnown_advances {phase phase' : Phase} {r : Log.Record} (hactive : phase.Active)
    (h : Advances plan phase r phase') :
    Log.transitionKnown (phase.entry plan) r = .ok (phase'.entry plan) := by
  unfold Log.transitionKnown
  cases h with
  | started => exact hactive.elim
  | @prepared _ n q kind names =>
      have hordinal : r.ordinal = ((Phase.ready (n + 1)).active plan).nextOrdinal := names.ordinal
      rw [kind]
      simp only [Log.transitionPrepared]
      rw [if_neg (by simp [Phase.entry, hordinal]), names.requestId, names.forwardNode,
        names.appId, names.actionId]
      rfl
  | @sent _ n q kind names =>
      have hroute : Log.routeMatches ((Phase.prepared n q).active plan) r = true :=
        routeMatches_names names ⟨rfl, rfl, rfl, rfl, rfl⟩
      rw [kind]
      simp only [Log.transitionSent]
      rw [if_neg (by simp [Phase.entry, hroute])]
      rfl
  | @succeeded _ n q kind names =>
      have hroute : Log.routeMatches ((Phase.sent (n + 1) q).active plan) r = true :=
        routeMatches_names names ⟨rfl, rfl, rfl, rfl, rfl⟩
      have hnext : ((Phase.sent (n + 1) q).active plan).nextOrdinal - 1 = UInt16.ofNat n :=
        ofNat_succ_sub n
      rw [kind]
      simp only [Log.transitionClosed]
      rw [if_neg (by simp [Phase.entry, hroute, Log.closes, kind]), if_pos kind]
      simp only [Phase.entry, hnext]
      rfl
  | @notSent _ n q kind outcome names =>
      have hroute : Log.routeMatches ((Phase.prepared n q).active plan) r = true :=
        routeMatches_names names ⟨rfl, rfl, rfl, rfl, rfl⟩
      rw [kind]
      simp only [Log.transitionClosed]
      rw [if_neg (by simp [Phase.entry, hroute, Log.closes, kind, outcome]),
        if_neg (by rw [kind]; decide), outcome]
      rfl
  | @appError _ n q kind outcome names =>
      have hroute : Log.routeMatches ((Phase.sent n q).active plan) r = true :=
        routeMatches_names names ⟨rfl, rfl, rfl, rfl, rfl⟩
      rw [kind]
      simp only [Log.transitionClosed]
      rw [if_neg (by simp [Phase.entry, hroute, Log.closes, kind, outcome]),
        if_neg (by rw [kind]; decide), outcome]
      rfl
  | @unknown _ n q kind outcome names =>
      have hroute : Log.routeMatches ((Phase.sent n q).active plan) r = true :=
        routeMatches_names names ⟨rfl, rfl, rfl, rfl, rfl⟩
      rw [kind]
      simp only [Log.transitionClosed]
      rw [if_neg (by simp [Phase.entry, hroute, Log.closes, kind]),
        if_neg (by rw [kind]; decide), outcome]
      rfl
  | completed kind outcome =>
      rw [kind]
      simp only [Log.transitionFinished]
      rw [if_neg (by simp [Phase.entry, Phase.active, Phase.active.idle, outcome])]
      rfl
  | @closed _ n q o kind outcome =>
      rw [kind]
      simp only [Log.transitionFinished]
      rw [if_neg (by simp [Phase.entry, Phase.active, outcome])]
      rfl

/-- **One record of a trace is one transition of the scanner.** -/
theorem transition_advances {phase phase' : Phase} {r : Log.Record} (howned : Owned plan r)
    (h : Advances plan phase r phase') :
    Log.transition (phase.entries plan) r = .ok (phase'.entries plan) := by
  by_cases hactive : phase.Active
  · have hkind : r.kind ≠ .started := by
      intro hkind
      cases h with
      | started => exact hactive
      | prepared kind => exact absurd (kind.symm.trans hkind) (by decide)
      | sent kind => exact absurd (kind.symm.trans hkind) (by decide)
      | succeeded kind => exact absurd (kind.symm.trans hkind) (by decide)
      | notSent kind => exact absurd (kind.symm.trans hkind) (by decide)
      | appError kind => exact absurd (kind.symm.trans hkind) (by decide)
      | unknown kind => exact absurd (kind.symm.trans hkind) (by decide)
      | completed kind => exact absurd (kind.symm.trans hkind) (by decide)
      | closed kind => exact absurd (kind.symm.trans hkind) (by decide)
    obtain ⟨-, -, hworkflow, hfingerprint⟩ := entry_active plan hactive
    have hentry : phase.entries plan 0 = phase.entry plan := Function.update_self ..
    rw [Log.transition, if_neg hkind, howned.executionId, findActive_entries hactive]
    simp only [hentry]
    rw [if_neg (by simp [hworkflow, hfingerprint, howned.workflowId, howned.imageFingerprint]),
      transitionKnown_advances hactive h]
    simp [Except.map, Phase.entries]
  · cases h with
    | started kind outcome ordinal requestId =>
        have hnone : Log.findActive (Phase.fresh.entries plan) r.executionId = none := by
          refine firstIndex_none.mpr fun i => ?_
          simp [Phase.entries, Phase.entry]
        have hfree : (firstIndex fun i => !(Phase.fresh.entries plan i).active) = some 0 := by
          rw [firstIndex_congr (q := fun _ => true) fun i => by simp [Phase.entries, Phase.entry]]
          rfl
        rw [Log.transition, if_pos kind, hnone]
        simp only [hfree]
        simp [Phase.entries, Phase.entry, Phase.active, Phase.active.idle, howned.executionId,
          howned.workflowId, howned.imageFingerprint, ordinal]
    | prepared => exact absurd trivial hactive
    | sent => exact absurd trivial hactive
    | succeeded => exact absurd trivial hactive
    | notSent => exact absurd trivial hactive
    | appError => exact absurd trivial hactive
    | unknown => exact absurd trivial hactive
    | completed => exact absurd trivial hactive
    | closed => exact absurd trivial hactive

/-- **The scanner accepts every trace**, and its table is the phase. -/
theorem scan_trace {log : List Log.Record} {phase : Phase} (h : Trace plan log phase) :
    Log.scanRecords {} log = .ok
      { entries := phase.entries plan
        recordCount := log.length
        nextSequence := UInt64.ofNat (log.length + 1) } := by
  induction h with
  | nil =>
      have hempty : Phase.fresh.entries plan = fun _ => {} := Function.update_eq_self 0 _
      rw [hempty]
      rfl
  | @snoc log phase phase' r before owned advances sequence valid ih =>
      unfold Log.scanRecords at ih ⊢
      rw [List.foldlM_append, ih]
      have hrecord : Log.scanRecord
          { entries := phase.entries plan
            recordCount := log.length
            nextSequence := UInt64.ofNat (log.length + 1) } r = .ok
          { entries := phase'.entries plan
            recordCount := log.length + 1
            nextSequence := UInt64.ofNat (log.length + 1) + 1 } := by
        simp only [Log.scanRecord, sequence, transition_advances owned advances]
        rw [if_neg (not_not.mpr rfl)]
        rfl
      have hone : [r].foldlM Log.scanRecord
          { entries := phase.entries plan
            recordCount := log.length
            nextSequence := UInt64.ofNat (log.length + 1) } = .ok
          { entries := phase'.entries plan
            recordCount := log.length + 1
            nextSequence := UInt64.ofNat (log.length + 1) + 1 } := by
        rw [List.foldlM_cons, hrecord]
        rfl
      rw [List.length_append, List.length_singleton, UInt64.ofNat_add (log.length + 1) 1]
      exact hone

/-- The summary of a trace lists the compensation while it goes on. -/
theorem scan_trace_file {log : List Log.Record} {phase : Phase} (h : Trace plan log phase) :
    Log.scan (Log.file log) = .ok
      { recordCount := log.length
        nextSequence := UInt64.ofNat (log.length + 1)
        active := if (phase.entry plan).active then [phase.active plan] else [] } := by
  rw [Log.scan_file (trace_valid h), scan_trace h]
  have hactive : ∀ i, (phase.entries plan i).active = ((phase.entry plan).active && i == 0) := by
    intro i
    by_cases hi : i = 0
    · subst hi
      simp [Phase.entries]
    · simp [Phase.entries, hi]
  have hsummary : Log.ScanState.summary
      { entries := phase.entries plan
        recordCount := log.length
        nextSequence := UInt64.ofNat (log.length + 1) } =
      { recordCount := log.length
        nextSequence := UInt64.ofNat (log.length + 1)
        active := if (phase.entry plan).active then [phase.active plan] else [] } := by
    simp only [Log.ScanState.summary, hactive]
    cases phase with
    | fresh => rfl
    | finished _ _ => rfl
    | ready n => rfl
    | prepared n q => rfl
    | sent n q => rfl
    | failed n q o => rfl
  exact congrArg Except.ok hsummary

/-! ## What a log says -/

/-- The kinds that close a delivery without success. -/
def IsFailure (kind : Log.Kind) : Prop := kind = .stepFailed ∨ kind = .stepUnknown

/-- The kinds that close a delivery. -/
def Closes (kind : Log.Kind) : Prop := kind = .stepSucceeded ∨ IsFailure kind

/-- The steps that are undone. -/
def succeededCount (log : List Log.Record) : Nat := log.countP (·.kind = .stepSucceeded)

/-- The ordinals in the records of one kind, in order. -/
def ordinals (kind : Log.Kind) (log : List Log.Record) : List Nat :=
  (log.filter (·.kind = kind)).map (·.ordinal.toNat)

def Failed (log : List Log.Record) : Prop := ∃ r ∈ log, IsFailure r.kind

/-- Nothing is delivered behind a failure. -/
def StopsAtFailure (log : List Log.Record) : Prop :=
  ∀ before r after, log = before ++ r :: after → IsFailure r.kind →
    ∀ s ∈ after, s.kind ≠ .deliveryPrepared ∧ s.kind ≠ .deliverySent

section Snoc

variable (log : List Log.Record) (r : Log.Record)

theorem succeededCount_snoc : succeededCount (log ++ [r]) =
    succeededCount log + if r.kind = .stepSucceeded then 1 else 0 := by
  by_cases h : r.kind = .stepSucceeded <;> simp [succeededCount, h]

theorem ordinals_snoc (kind : Log.Kind) : ordinals kind (log ++ [r]) =
    ordinals kind log ++ if r.kind = kind then [r.ordinal.toNat] else [] := by
  by_cases h : r.kind = kind <;> simp [ordinals, List.filter_append, h]

theorem failed_snoc : Failed (log ++ [r]) ↔ Failed log ∨ IsFailure r.kind := by
  constructor
  · intro ⟨s, hs, hfailure⟩
    rcases List.mem_append.mp hs with hs | hs
    · exact .inl ⟨s, hs, hfailure⟩
    · exact .inr (List.mem_singleton.mp hs ▸ hfailure)
  · intro h
    rcases h with ⟨s, hs, hfailure⟩ | hfailure
    · exact ⟨s, List.mem_append_left _ hs, hfailure⟩
    · exact ⟨r, by simp, hfailure⟩

variable {log r}

/-- A record of a longer log is the new one or stands in front of it. -/
theorem snoc_split {before after : List Log.Record} {p : Log.Record}
    (h : log ++ [r] = before ++ p :: after) :
    (p = r ∧ before = log ∧ after = []) ∨
      ∃ more, after = more ++ [r] ∧ log = before ++ p :: more := by
  induction after using List.reverseRecOn with
  | nil =>
      obtain ⟨hlog, hr⟩ := List.append_inj' h rfl
      exact .inl ⟨(List.cons.inj hr).1.symm, hlog.symm, rfl⟩
  | append_singleton more s _ =>
      rw [← List.cons_append, ← List.append_assoc] at h
      obtain ⟨hlog, hr⟩ := List.append_inj' h rfl
      exact .inr ⟨more, by rw [(List.cons.inj hr).1], hlog⟩

end Snoc

/-! ## What the phase says of the log -/

/-- The steps that are left in a phase. -/
def Phase.left (plan : Execution) : Phase → Nat
  | .fresh => plan.remaining
  | .ready n => n
  | .prepared n _ => n
  | .sent n _ => n
  | .failed n _ _ => n
  | .finished n _ => n

def Phase.Open : Phase → UInt64 → Prop
  | .prepared _ q, requestId => q = requestId
  | .sent _ q, requestId => q = requestId
  | _, _ => False

def Phase.Failed : Phase → Prop
  | .failed _ _ _ => True
  | .finished _ o => o ≠ .success
  | _ => False

theorem advances_left {phase phase' : Phase} {r : Log.Record} (h : Advances plan phase r phase') :
    (phase'.left plan + if r.kind = .stepSucceeded then 1 else 0) = phase.left plan := by
  cases h with
  | started kind => simp [kind, Phase.left]
  | prepared kind => simp [kind, Phase.left]
  | sent kind => simp [kind, Phase.left]
  | succeeded kind => simp [kind, Phase.left]
  | notSent kind => simp [kind, Phase.left]
  | appError kind => simp [kind, Phase.left]
  | unknown kind => simp [kind, Phase.left]
  | completed kind => simp [kind, Phase.left]
  | closed kind => simp [kind, Phase.left]

/-- The steps undone and the steps left are the steps of the plan. -/
theorem trace_left {log : List Log.Record} {phase : Phase} (h : Trace plan log phase) :
    succeededCount log + phase.left plan = plan.remaining := by
  induction h with
  | nil => simp [succeededCount, Phase.left]
  | snoc _ _ advances _ _ ih =>
      have hleft := advances_left advances
      rw [succeededCount_snoc]
      omega

theorem advances_failed {phase phase' : Phase} {r : Log.Record}
    (h : Advances plan phase r phase')
    (hphase : ∀ n q o, phase = .failed n q o → o ≠ .success ∧ o ≠ .none) :
    (phase'.Failed ↔ phase.Failed ∨ IsFailure r.kind) ∧
      ∀ n q o, phase' = .failed n q o → o ≠ .success ∧ o ≠ .none := by
  unfold IsFailure
  cases h with
  | started kind => simp [kind, Phase.Failed]
  | prepared kind => simp [kind, Phase.Failed]
  | sent kind => simp [kind, Phase.Failed]
  | succeeded kind => simp [kind, Phase.Failed]
  | notSent kind =>
      refine ⟨by simp [kind, Phase.Failed], fun n q o h => ?_⟩
      cases h
      exact ⟨by decide, by decide⟩
  | appError kind =>
      refine ⟨by simp [kind, Phase.Failed], fun n q o h => ?_⟩
      cases h
      exact ⟨by decide, by decide⟩
  | unknown kind =>
      refine ⟨by simp [kind, Phase.Failed], fun n q o h => ?_⟩
      cases h
      exact ⟨by decide, by decide⟩
  | completed kind => simp [kind, Phase.Failed]
  | @closed _ n q o kind =>
      have ho : o ≠ .success := (hphase n q o rfl).1
      simp [kind, Phase.Failed, ho]

/-- The phase has failed when a failure is on record. -/
theorem trace_failed {log : List Log.Record} {phase : Phase} (h : Trace plan log phase) :
    (Failed log ↔ phase.Failed) ∧
      ∀ n q o, phase = .failed n q o → o ≠ .success ∧ o ≠ .none := by
  induction h with
  | nil =>
      refine ⟨⟨fun hfailed => ?_, False.elim⟩, fun n q o h => by cases h⟩
      obtain ⟨r, hr, -⟩ := hfailed
      cases hr
  | snoc _ _ advances _ _ ih =>
      obtain ⟨hfailed, hphase⟩ := ih
      obtain ⟨hfailed', hphase'⟩ := advances_failed advances hphase
      rw [failed_snoc, hfailed, hfailed']
      exact ⟨Iff.rfl, hphase'⟩

/-- In a phase that has failed nothing is prepared or sent. -/
theorem advances_quiet {phase phase' : Phase} {r : Log.Record} (h : Advances plan phase r phase')
    (hfailed : phase.Failed) : r.kind ≠ .deliveryPrepared ∧ r.kind ≠ .deliverySent := by
  cases h with
  | started => exact hfailed.elim
  | prepared => exact hfailed.elim
  | sent => exact hfailed.elim
  | succeeded => exact hfailed.elim
  | notSent => exact hfailed.elim
  | appError => exact hfailed.elim
  | unknown => exact hfailed.elim
  | completed => exact hfailed.elim
  | closed kind => simp [kind]

/-- **Nothing is delivered behind a failure.** -/
theorem trace_stops {log : List Log.Record} {phase : Phase} (h : Trace plan log phase) :
    StopsAtFailure log := by
  induction h with
  | nil => exact fun before r after h => by simp at h
  | @snoc log phase phase' r hbefore _ advances _ _ ih =>
      intro before s after hlog hfailure t ht
      rcases snoc_split hlog with ⟨-, -, rfl⟩ | ⟨more, rfl, hold⟩
      · cases ht
      · rcases List.mem_append.mp ht with ht | ht
        · exact ih before s more hold hfailure t ht
        · rw [List.mem_singleton.mp ht]
          have hfailed : Failed log := ⟨s, by rw [hold]; simp, hfailure⟩
          exact advances_quiet advances ((trace_failed hbefore).1.mp hfailed)

/-! ## Open deliveries -/

/-- The steps whose delivery is on record are above those that are left. -/
def Phase.Above (plan : Execution) (phase : Phase) (kind : Log.Kind) (ordinal : Nat) : Prop :=
  match phase with
  | .fresh => False
  | .ready n => n < ordinal
  | .prepared n _ => if kind = .deliverySent then n < ordinal else n ≤ ordinal
  | _ => phase.left plan ≤ ordinal

/-- A record that prepares or sends a delivery goes below those before it. -/
theorem advances_above {phase phase' : Phase} {r : Log.Record} {kind : Log.Kind} {ordinal : Nat}
    (h : Advances plan phase r phase') (habove : phase.Above plan kind ordinal) :
    phase'.Above plan kind ordinal ∧
      (r.kind = kind → kind = .deliveryPrepared ∨ kind = .deliverySent →
        r.ordinal.toNat < ordinal) := by
  have hle : ∀ n, (UInt16.ofNat n).toNat ≤ n := fun n => by
    rw [UInt16.toNat_ofNat']
    exact Nat.mod_le _ _
  cases h with
  | started => exact habove.elim
  | @prepared _ n q hkind names =>
      have hlt : n + 1 < ordinal := habove
      have hordinal := hle (n + 1)
      rw [← names.ordinal] at hordinal
      refine ⟨?_, fun _ _ => by omega⟩
      simp only [Phase.Above]
      split <;> omega
  | @sent _ n q hkind names =>
      have hordinal := hle n
      rw [← names.ordinal] at hordinal
      simp only [Phase.Above] at habove
      by_cases hsent : kind = .deliverySent
      · rw [if_pos hsent] at habove
        exact ⟨Nat.le_of_lt habove, fun _ _ => by omega⟩
      · rw [if_neg hsent] at habove
        exact ⟨habove, fun hk => absurd (hk.symm.trans hkind) hsent⟩
  | @succeeded _ n q hkind =>
      have hle : n + 1 ≤ ordinal := habove
      refine ⟨by show n < ordinal; omega, fun hk hdelivery => ?_⟩
      rw [← hk, hkind] at hdelivery
      rcases hdelivery with hdelivery | hdelivery <;> cases hdelivery
  | @notSent _ n q hkind =>
      refine ⟨?_, fun hk hdelivery => ?_⟩
      · simp only [Phase.Above] at habove
        show n ≤ ordinal
        split at habove <;> omega
      · rw [← hk, hkind] at hdelivery
        rcases hdelivery with hdelivery | hdelivery <;> cases hdelivery
  | appError hkind =>
      refine ⟨habove, fun hk hdelivery => ?_⟩
      rw [← hk, hkind] at hdelivery
      rcases hdelivery with hdelivery | hdelivery <;> cases hdelivery
  | unknown hkind =>
      refine ⟨habove, fun hk hdelivery => ?_⟩
      rw [← hk, hkind] at hdelivery
      rcases hdelivery with hdelivery | hdelivery <;> cases hdelivery
  | completed hkind =>
      refine ⟨Nat.zero_le _, fun hk hdelivery => ?_⟩
      rw [← hk, hkind] at hdelivery
      rcases hdelivery with hdelivery | hdelivery <;> cases hdelivery
  | closed hkind =>
      refine ⟨habove, fun hk hdelivery => ?_⟩
      rw [← hk, hkind] at hdelivery
      rcases hdelivery with hdelivery | hdelivery <;> cases hdelivery

/-- The delivery that a record prepares or sends is the one of the phase. -/
theorem advances_ordinal {phase phase' : Phase} {r : Log.Record}
    (h : Advances plan phase r phase') (hleft : phase.left plan < 2 ^ 16)
    (hkind : r.kind = .deliveryPrepared ∨ r.kind = .deliverySent) :
    phase'.Above plan r.kind r.ordinal.toNat := by
  have hnames : ∀ {n q}, Names plan n q r → n < 2 ^ 16 → r.ordinal.toNat = n := by
    intro n q names hn
    rw [names.ordinal, UInt16.toNat_ofNat', Nat.mod_eq_of_lt hn]
  cases h with
  | prepared kind names =>
      rw [hnames names hleft, kind]
      exact Nat.le_refl _
  | sent kind names =>
      rw [hnames names hleft]
      exact Nat.le_refl _
  | started kind => rcases hkind with hkind | hkind <;> cases kind.symm.trans hkind
  | succeeded kind => rcases hkind with hkind | hkind <;> cases kind.symm.trans hkind
  | notSent kind => rcases hkind with hkind | hkind <;> cases kind.symm.trans hkind
  | appError kind => rcases hkind with hkind | hkind <;> cases kind.symm.trans hkind
  | unknown kind => rcases hkind with hkind | hkind <;> cases kind.symm.trans hkind
  | completed kind => rcases hkind with hkind | hkind <;> cases kind.symm.trans hkind
  | closed kind => rcases hkind with hkind | hkind <;> cases kind.symm.trans hkind

/-- **Deliveries are prepared, and sent, in descending order.** -/
theorem trace_descends {kind : Log.Kind} {log : List Log.Record} {phase : Phase}
    (hplan : plan.remaining < 2 ^ 16)
    (hkind : kind = .deliveryPrepared ∨ kind = .deliverySent) (h : Trace plan log phase) :
    (ordinals kind log).Pairwise (· > ·) ∧ ∀ o ∈ ordinals kind log, phase.Above plan kind o := by
  induction h with
  | nil => exact ⟨.nil, fun o ho => by cases ho⟩
  | @snoc log phase phase' r before _ advances _ _ ih =>
      obtain ⟨hpairwise, habove⟩ := ih
      have hleft := trace_left before
      rw [ordinals_snoc]
      split
      · rename_i hr
        rw [← hr] at hkind
        refine ⟨List.pairwise_append.mpr ⟨hpairwise, List.pairwise_singleton .., ?_⟩, ?_⟩
        · intro o ho o' ho'
          rw [List.mem_singleton.mp ho']
          exact (advances_above advances (habove o ho)).2 hr (hr ▸ hkind)
        · intro o ho
          rcases List.mem_append.mp ho with ho | ho
          · exact (advances_above advances (habove o ho)).1
          · rw [List.mem_singleton.mp ho, ← hr]
            exact advances_ordinal advances (by omega) hkind
      · rw [List.append_nil]
        exact ⟨hpairwise, fun o ho => (advances_above advances (habove o ho)).1⟩

/-! ## Requests -/

end Hermas.Saga
