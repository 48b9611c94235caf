import Hermas.Base.Reach
import Hermas.Saga.Recover
import Hermas.Saga.Trace

/-!
# The driver keeps a trace

Every call of the driver moves the plan and appends a record, or is refused and does
neither. The driver is in step with the phase of its log: the state of the plan, the
steps that are left and the open request say the same. Each call keeps this, so that
the log is a trace whatever the calls are and in whatever order they come.

One call looks at a step before it looks at the state. `accept_result` makes its record
of the step in front of the steps that are left, which is outside the plan when none is.
-/

namespace Hermas.Saga

/-- The plan of an execution that failed, as a driver is given it. -/
structure Sound (plan : Execution) : Prop where
  completed : plan.remaining ≤ plan.stepCount
  bounded : plan.stepCount ≤ maxSteps
  ordinals : ∀ n, n < plan.remaining → (plan.step (n + 1)).ordinal = UInt16.ofNat (n + 1)
  ready : plan.state = .ready → plan.remaining ≠ 0

/-- The execution is that of the plan, however far it is. -/
structure Follows (plan execution : Execution) : Prop where
  executionId : execution.executionId = plan.executionId
  workflowId : execution.workflowId = plan.workflowId
  imageFingerprint : execution.imageFingerprint = plan.imageFingerprint
  originalOutcome : execution.originalOutcome = plan.originalOutcome
  steps : execution.steps = plan.steps

/-- The log is a trace that has come to a phase. -/
structure LogAt (plan : Execution) (log : Log.Writer) (phase : Phase) : Prop where
  trace : Trace plan log.written phase
  sequence : log.nextSequence = UInt64.ofNat (log.written.length + 1)

/-- A started driver with a plan that has so many steps left. -/
structure Holds (plan : Execution) (driver : Driver) (state : State) (left : Nat) : Prop where
  follows : Follows plan driver.execution
  started : driver.started = true
  state : driver.execution.state = state
  remaining : driver.execution.remaining = left
  pending : left ≠ 0

/-- The driver is in step with the phase of its log. -/
def InStep (plan : Execution) (driver : Driver) : Phase → Prop
  | .fresh => driver.started = false ∧ driver.execution.remaining ≤ plan.remaining ∧
      (driver.execution.state = .empty ∨ driver.execution.state = .complete)
  | .ready n => Holds plan driver .ready n
  | .prepared n q => Holds plan driver .prepared n ∧ driver.execution.currentRequestId = q
  | .sent n q => Holds plan driver .sent n ∧ driver.execution.currentRequestId = q
  | .failed _ _ _ => False
  | .finished _ _ => driver.execution.remaining ≤ plan.remaining ∧
      (driver.execution.state = .complete ∨ driver.execution.state = .blocked)

/-- A call has left a trace behind, and a driver in step with it unless the log has failed. -/
def Kept (plan : Execution) (out : Driver.Outcome) : Prop :=
  ∃ phase, LogAt plan out.2.2 phase ∧ (out.1 ≠ .logError → InStep plan out.2.1 phase)

variable {plan : Execution} {driver : Driver} {log : Log.Writer} {phase : Phase}

theorem left_le (h : LogAt plan log phase) : phase.left plan ≤ plan.remaining := by
  have hleft := trace_left h.trace
  omega

/-! ## Appending -/

theorem append_logAt {phase' : Phase} {log' : Log.Writer} {r : Log.Record}
    (h : LogAt plan log phase)
    (howned : Owned plan { r with sequence := log.nextSequence })
    (hadvances : Advances plan phase { r with sequence := log.nextSequence } phase')
    (happend : log.append r = .ok log') : LogAt plan log' phase' := by
  obtain ⟨hwritten, hvalid, hnext⟩ := Log.append_ok happend
  refine ⟨?_, ?_⟩
  · rw [hwritten]
    exact .snoc h.trace howned hadvances h.sequence hvalid
  · rw [hnext, hwritten, h.sequence, List.length_append, List.length_singleton,
      UInt64.ofNat_add (log.written.length + 1) 1]
    rfl

/-- A record that advances the phase keeps the trace, and what follows may rely on it. -/
theorem appendRecord_kept {phase' : Phase} {r : Log.Record} {next : Log.Writer → Driver.Outcome}
    (h : LogAt plan log phase)
    (howned : Owned plan { r with sequence := log.nextSequence })
    (hadvances : Advances plan phase { r with sequence := log.nextSequence } phase')
    (hnext : ∀ log', LogAt plan log' phase' → Kept plan (next log')) :
    Kept plan (driver.appendRecord log r next) := by
  unfold Driver.appendRecord
  split
  · exact ⟨phase, h, fun hne => absurd rfl hne⟩
  · rename_i log' happend
    exact hnext log' (append_logAt h howned hadvances happend)

theorem record_owned (driver : Driver) (h : Follows plan driver.execution) (kind : Log.Kind)
    (outcome : Outcome) (action : Bool) (sequence : UInt64) :
    Owned plan { driver.record kind outcome action with sequence } :=
  ⟨h.executionId, h.workflowId, h.imageFingerprint⟩

theorem record_names (driver : Driver) (hplan : Sound plan) (h : Follows plan driver.execution) {n : Nat}
    (hremaining : driver.execution.remaining = n) (hpos : n ≠ 0) (hle : n ≤ plan.remaining)
    (kind : Log.Kind) (outcome : Outcome) (sequence : UInt64) :
    Names plan n driver.execution.currentRequestId
      { driver.record kind outcome true with sequence } := by
  have hstep : driver.execution.step driver.execution.remaining = plan.step n := by
    rw [Execution.step, h.steps, hremaining]
    rfl
  have hordinal : (plan.step n).ordinal = UInt16.ofNat n := by
    have hlt := hplan.ordinals (n - 1) (by omega)
    rwa [Nat.sub_add_cancel (by omega)] at hlt
  exact ⟨rfl, congrArg Step.forwardNode hstep, congrArg Step.compensationAppId hstep,
    congrArg Step.compensationActionId hstep, (congrArg Step.ordinal hstep).trans hordinal⟩

/-! ## The calls -/

/-- A call that changes nothing keeps what was there. -/
theorem kept_refused {result : Result} (hlog : LogAt plan log phase)
    (h : InStep plan driver phase) : Kept plan (result, driver, log) :=
  ⟨phase, hlog, fun _ => h⟩

/-- The phase of a driver whose plan is in a given state. -/
theorem phase_of_prepared (h : InStep plan driver phase)
    (hstate : driver.execution.state = .prepared) : ∃ n q, phase = .prepared n q := by
  cases phase with
  | fresh => rcases h.2.2 with hs | hs <;> cases hstate.symm.trans hs
  | ready n => cases hstate.symm.trans h.state
  | prepared n q => exact ⟨n, q, rfl⟩
  | sent n q => cases hstate.symm.trans h.1.state
  | failed _ _ _ => exact h.elim
  | finished _ _ => rcases h.2 with hs | hs <;> cases hstate.symm.trans hs

theorem phase_of_sent (h : InStep plan driver phase) (hstate : driver.execution.state = .sent) :
    ∃ n q, phase = .sent n q := by
  cases phase with
  | fresh => rcases h.2.2 with hs | hs <;> cases hstate.symm.trans hs
  | ready n => cases hstate.symm.trans h.state
  | prepared n q => cases hstate.symm.trans h.1.state
  | sent n q => exact ⟨n, q, rfl⟩
  | failed _ _ _ => exact h.elim
  | finished _ _ => rcases h.2 with hs | hs <;> cases hstate.symm.trans hs

theorem phase_of_ready (h : InStep plan driver phase) (hstate : driver.execution.state = .ready) :
    ∃ n, phase = .ready n := by
  cases phase with
  | fresh => rcases h.2.2 with hs | hs <;> cases hstate.symm.trans hs
  | ready n => exact ⟨n, rfl⟩
  | prepared n q => cases hstate.symm.trans h.1.state
  | sent n q => cases hstate.symm.trans h.1.state
  | failed _ _ _ => exact h.elim
  | finished _ _ => rcases h.2 with hs | hs <;> cases hstate.symm.trans hs

/-- `hermas_saga_driver_mark_sent` -/
theorem markSent_kept (hplan : Sound plan) (hlog : LogAt plan log phase)
    (h : InStep plan driver phase) : Kept plan (driver.markSent log) := by
  unfold Driver.markSent
  cases hmark : markSent driver.execution with
  | error e => exact kept_refused hlog h
  | ok execution =>
      unfold markSent at hmark
      split at hmark
      · cases hmark
      rename_i hstate
      cases hmark
      obtain ⟨n, q, rfl⟩ := phase_of_prepared h (not_not.mp hstate)
      obtain ⟨hholds, hrequest⟩ := h
      have hfollows : Follows plan { driver.execution with state := .sent } :=
        ⟨hholds.follows.1, hholds.follows.2, hholds.follows.3, hholds.follows.4, hholds.follows.5⟩
      have hnames := record_names ({ driver with
        execution := { driver.execution with state := .sent } }) hplan hfollows
        hholds.remaining hholds.pending (left_le hlog) .deliverySent .none log.nextSequence
      refine appendRecord_kept hlog (record_owned _ hfollows ..)
        (.sent rfl (hrequest ▸ hnames)) fun log' hlog' => ⟨_, hlog', fun _ => ?_⟩
      exact ⟨⟨hfollows, hholds.started, rfl, hholds.remaining, hholds.pending⟩, hrequest⟩

/-- `finish_driver`, behind the plan's own move to `blocked`. -/
theorem finish_kept {n : Nat} {q : UInt64} {kind : Log.Kind} {outcome : Outcome}
    (hlog : LogAt plan log phase) (hfollows : Follows plan driver.execution)
    (hremaining : driver.execution.remaining ≤ plan.remaining)
    (hstate : driver.execution.state = .blocked)
    (hadvances : Advances plan phase
      { driver.record kind outcome true with sequence := log.nextSequence } (.failed n q outcome)) :
    Kept plan (driver.finish log kind outcome) := by
  unfold Driver.finish
  refine appendRecord_kept hlog (record_owned _ hfollows ..) hadvances fun log' hlog' => ?_
  refine appendRecord_kept hlog' (record_owned _ hfollows ..) (.closed rfl rfl rfl) fun _ hlog => ?_
  exact ⟨_, hlog, fun _ => ⟨hremaining, .inr hstate⟩⟩

/-- `hermas_saga_driver_mark_not_sent` -/
theorem markNotSent_kept (hplan : Sound plan) (hlog : LogAt plan log phase)
    (h : InStep plan driver phase) : Kept plan (driver.markNotSent log) := by
  unfold Driver.markNotSent
  cases hmark : markNotSent driver.execution with
  | error e => exact kept_refused hlog h
  | ok execution =>
      unfold markNotSent at hmark
      split at hmark
      · cases hmark
      rename_i hstate
      cases hmark
      obtain ⟨n, q, rfl⟩ := phase_of_prepared h (not_not.mp hstate)
      obtain ⟨hholds, hrequest⟩ := h
      have hfollows : Follows plan
          { driver.execution with compensationOutcome := .notSent, state := .blocked } :=
        ⟨hholds.follows.1, hholds.follows.2, hholds.follows.3, hholds.follows.4, hholds.follows.5⟩
      have hnames := record_names ({ driver with
        execution := { driver.execution with compensationOutcome := .notSent, state := .blocked } })
        hplan hfollows hholds.remaining hholds.pending (left_le hlog) .stepFailed .notSent
        log.nextSequence
      exact finish_kept hlog hfollows (hholds.remaining ▸ left_le hlog) rfl (.notSent rfl rfl (hrequest ▸ hnames))

/-- `hermas_saga_driver_mark_unknown` -/
theorem markUnknown_kept (hplan : Sound plan) (hlog : LogAt plan log phase)
    (h : InStep plan driver phase) : Kept plan (driver.markUnknown log) := by
  unfold Driver.markUnknown
  cases hmark : markUnknown driver.execution with
  | error e => exact kept_refused hlog h
  | ok execution =>
      unfold markUnknown at hmark
      split at hmark
      · cases hmark
      rename_i hstate
      cases hmark
      obtain ⟨n, q, rfl⟩ := phase_of_sent h (not_not.mp hstate)
      obtain ⟨hholds, hrequest⟩ := h
      have hfollows : Follows plan
          { driver.execution with compensationOutcome := .unknown, state := .blocked } :=
        ⟨hholds.follows.1, hholds.follows.2, hholds.follows.3, hholds.follows.4, hholds.follows.5⟩
      have hnames := record_names ({ driver with
        execution := { driver.execution with compensationOutcome := .unknown, state := .blocked } })
        hplan hfollows hholds.remaining hholds.pending (left_le hlog) .stepUnknown .unknown
        log.nextSequence
      exact finish_kept hlog hfollows (hholds.remaining ▸ left_le hlog) rfl (.unknown rfl rfl (hrequest ▸ hnames))

/-- What `hermas_saga_prepare` does when it returns OK. -/
theorem prepare_ok {image : Image} {store : Bytes} {tokenCapacity : Nat}
    {execution execution' : Execution} {invocation : Frame}
    (h : prepare image store tokenCapacity execution = .ok (invocation, execution')) :
    execution.state = .ready ∧ execution.nextRequestId ≠ uint64Max ∧
      execution' = { execution with
        currentRequestId := execution.nextRequestId
        nextRequestId := execution.nextRequestId + 1
        state := .prepared } := by
  unfold prepare at h
  split at h
  · cases h
  rename_i hstate
  split at h
  · cases h
  rename_i hid
  simp only [Except.map] at h
  split at h
  · cases h
  · cases h
    exact ⟨not_not.mp (not_or.mp hstate).1, (not_or.mp hid).2, rfl⟩

/-- `hermas_saga_driver_prepare` -/
theorem prepare_kept {image : Image} {store : Bytes} {tokenCapacity : Nat} (hplan : Sound plan)
    (hlog : LogAt plan log phase) (h : InStep plan driver phase) :
    Kept plan (driver.prepare image store tokenCapacity log).2 := by
  unfold Driver.prepare
  split
  · exact kept_refused hlog h
  split
  · exact kept_refused hlog h
  · rename_i invocation execution hprepare
    obtain ⟨hstate, hid, rfl⟩ := prepare_ok hprepare
    obtain ⟨n, rfl⟩ := phase_of_ready h hstate
    have hholds : Holds plan driver .ready n := h
    have hfollows : Follows plan { driver.execution with
        currentRequestId := driver.execution.nextRequestId
        nextRequestId := driver.execution.nextRequestId + 1
        state := .prepared } :=
      ⟨hholds.follows.1, hholds.follows.2, hholds.follows.3, hholds.follows.4, hholds.follows.5⟩
    have hnames := record_names ({ driver with
      execution := { driver.execution with
        currentRequestId := driver.execution.nextRequestId
        nextRequestId := driver.execution.nextRequestId + 1
        state := .prepared } })
      hplan hfollows hholds.remaining hholds.pending (left_le hlog) .deliveryPrepared .none
      log.nextSequence
    obtain ⟨m, rfl⟩ := Nat.exists_eq_succ_of_ne_zero hholds.pending
    refine appendRecord_kept hlog (record_owned _ hfollows ..) (.prepared rfl hnames hid)
      fun log' hlog' => ⟨_, hlog', fun _ => ?_⟩
    exact ⟨⟨hfollows, hholds.started, rfl, hholds.remaining, hholds.pending⟩, rfl⟩

/-- What `hermas_saga_accept_result` does when it returns OK. -/
theorem acceptResult_ok {image : Image} {execution execution' : Execution} {result : Frame}
    (h : acceptResult image execution result = .ok execution') :
    execution.state = .sent ∧
      ((result.outcome = .appError ∧
          execution' = { execution with compensationOutcome := .appError, state := .blocked }) ∨
        (result.outcome = .success ∧
          execution' = { execution with
            compensationOutcome := .success
            remaining := execution.remaining - 1
            state := if execution.remaining - 1 = 0 then .complete else .ready })) := by
  unfold acceptResult at h
  split at h
  · cases h
  rename_i hstate
  refine ⟨not_not.mp (not_or.mp hstate).1, ?_⟩
  simp only at h
  generalize (if result.outcome = .success then (execution.step execution.remaining).successType
    else (execution.step execution.remaining).errorType) = expectedType at h
  split at h
  · cases h
  rename_i hchecks
  split at h
  · rename_i houtcome
    cases h
    exact .inl ⟨houtcome, rfl⟩
  · rename_i houtcome
    cases h
    refine .inr ⟨?_, rfl⟩
    simp only [not_or, not_and, not_not] at hchecks
    by_contra hne
    exact houtcome (hchecks.2.2.2.2.2.1 hne)

/-- `hermas_saga_driver_accept_result` -/
theorem acceptResult_kept {image : Image} {result : Frame} (hplan : Sound plan)
    (hlog : LogAt plan log phase) (h : InStep plan driver phase) :
    Kept plan (driver.acceptResult image log result) := by
  unfold Driver.acceptResult
  simp only
  split
  · exact kept_refused hlog h
  rename_i execution haccept
  obtain ⟨hstate, hout⟩ := acceptResult_ok haccept
  obtain ⟨n, q, rfl⟩ := phase_of_sent h hstate
  obtain ⟨hholds, hrequest⟩ := h
  have hnames := fun kind outcome => record_names _ hplan hholds.follows hholds.remaining
    hholds.pending (left_le hlog) kind outcome log.nextSequence
  rw [hrequest] at hnames
  have hf := hholds.follows
  have hleft := left_le hlog
  rcases hout with ⟨houtcome, rfl⟩ | ⟨houtcome, rfl⟩
  · -- the compensation failed, and its end is put on record at once
    rw [if_neg (by rw [houtcome]; decide), houtcome]
    refine appendRecord_kept hlog (record_owned _ hf ..)
      (.appError rfl rfl (hnames _ _)) fun log' hlog' => ?_
    rw [if_pos (.inr rfl)]
    refine appendRecord_kept hlog' ?_ (.closed rfl rfl rfl) fun _ hlog => ?_
    · exact record_owned ({ driver with execution := { driver.execution with
        compensationOutcome := .appError, state := .blocked } })
        ⟨hf.1, hf.2, hf.3, hf.4, hf.5⟩ ..
    · exact ⟨_, hlog, fun _ => ⟨hholds.remaining ▸ hleft, .inr rfl⟩⟩
  · rw [if_pos houtcome, houtcome]
    obtain ⟨m, rfl⟩ := Nat.exists_eq_succ_of_ne_zero hholds.pending
    have hremaining : driver.execution.remaining - 1 = m := by
      rw [hholds.remaining]
      rfl
    refine appendRecord_kept hlog (record_owned _ hf ..)
      (.succeeded rfl (hnames _ _)) fun log' hlog' => ?_
    by_cases hm : m = 0
    · -- the last step is undone
      subst hm
      simp only [hremaining, if_true, true_or]
      refine appendRecord_kept hlog' ?_ (.completed rfl rfl rfl) fun _ hlog => ?_
      · exact record_owned ({ driver with execution := { driver.execution with
          compensationOutcome := .success, remaining := 0, state := .complete } })
          ⟨hf.1, hf.2, hf.3, hf.4, hf.5⟩ ..
      · exact ⟨_, hlog, fun _ => ⟨Nat.zero_le _, .inl rfl⟩⟩
    · simp only [hremaining, if_neg hm]
      rw [if_neg (by simp)]
      exact ⟨_, hlog', fun _ => ⟨⟨hf.1, hf.2, hf.3, hf.4, hf.5⟩, hholds.started, rfl, rfl, hm⟩⟩

/-- `hermas_saga_driver_begin` on an empty log. -/
theorem start_kept (hplan : Sound plan) (hlog : LogAt plan log .fresh)
    (h : InStep plan driver .fresh) : Kept plan (driver.start plan log false) := by
  unfold Driver.start
  split
  · exact kept_refused hlog h
  rename_i hstate
  simp only
  split
  · -- there is nothing to undo
    rename_i hcomplete
    have hcomplete : plan.state = .complete := by simpa using hcomplete
    exact ⟨.fresh, hlog, fun _ => ⟨rfl, Nat.le_refl _, .inr hcomplete⟩⟩
  · rename_i hactive
    have hready : plan.state = .ready := by
      by_contra hne
      exact hstate ⟨hne, fun hc => hactive (.inl hc)⟩
    have hfollows : Follows plan plan := ⟨rfl, rfl, rfl, rfl, rfl⟩
    refine appendRecord_kept hlog
      (record_owned { execution := plan, started := false } hfollows ..)
      (.started rfl rfl rfl rfl) fun log' hlog' => ⟨_, hlog', fun _ => ?_⟩
    exact ⟨hfollows, rfl, hready, rfl, hplan.ready hready⟩

/-! ## Calls in any order -/

/-- A call of the driver. -/
inductive Call where
  | start (resumeExisting : Bool)
  | prepare (tokenCapacity : Nat)
  | markSent
  | markNotSent
  | markUnknown
  | acceptResult (result : Frame)

/-- A call, for a plan whose tokens are in a store. -/
def Call.run (image : Image) (store : Bytes) (plan : Execution) (driver : Driver)
    (log : Log.Writer) : Call → Driver.Outcome
  | .start resumeExisting => driver.start plan log resumeExisting
  | .prepare tokenCapacity => (driver.prepare image store tokenCapacity log).2
  | .markSent => driver.markSent log
  | .markNotSent => driver.markNotSent log
  | .markUnknown => driver.markUnknown log
  | .acceptResult result => driver.acceptResult image log result

/-- The index in `steps[remaining - 1u]`, which is computed in 32 bits. -/
def Execution.stepIndex (execution : Execution) : Nat :=
  (execution.remaining + (2 ^ 32 - 1)) % 2 ^ 32

/-- The indices at which a call reads the array of steps. -/
def Call.reads (driver : Driver) : Call → List Nat
  | .start _ => []
  | .prepare _ =>
      let execution := driver.execution
      if driver.started ∧ execution.state = .ready ∧ execution.remaining ≠ 0 ∧
          execution.nextRequestId ≠ 0 ∧ execution.nextRequestId ≠ uint64Max then
        [execution.stepIndex]
      else []
  | .markSent => if driver.execution.state = .prepared then [driver.execution.stepIndex] else []
  | .markNotSent => if driver.execution.state = .prepared then [driver.execution.stepIndex] else []
  | .markUnknown => if driver.execution.state = .sent then [driver.execution.stepIndex] else []
  -- the durable record is made of the step before the state is looked at
  | .acceptResult _ => [driver.execution.stepIndex]

/-- The states in which a call may be made. -/
def Call.Allowed (plan : Execution) (driver : Driver) : Call → Prop
  | .start _ => plan.state = .ready ∨ plan.state = .complete
  | .prepare _ => driver.started = true ∧ driver.execution.state = .ready
  | .markSent => driver.execution.state = .prepared
  | .markNotSent => driver.execution.state = .prepared
  | .markUnknown => driver.execution.state = .sent
  | .acceptResult _ => driver.execution.state = .sent

/-- A driver and its log; the driver is cleared memory before it is started. -/
structure DriverState where
  driver : Driver := {}
  log : Log.Writer := { nextSequence := 1 }

/-- What a call leaves behind. -/
def DriverState.after (image : Image) (store : Bytes) (plan : Execution) (s : DriverState)
    (call : Call) : DriverState :=
  let out := call.run image store plan s.driver s.log
  { driver := out.2.1, log := out.2.2 }

/-- Calls in any order, with every append succeeding. -/
def driverSystem (image : Image) (store : Bytes) (plan : Execution) :
    System DriverState Call where
  Init s := s = {}
  Step s call s' :=
    (call.run image store plan s.driver s.log).1 ≠ .logError ∧ s' = s.after image store plan call

/-- A driver is started once and anew, and a result is given to it only while steps are left. -/
def Proper (s : DriverState) : Call → Prop
  | .start resumeExisting => s.log.written = [] ∧ resumeExisting = false
  | .acceptResult _ => s.driver.execution.remaining ≠ 0
  | _ => True

instance (s : DriverState) (call : Call) : Decidable (Proper s call) := by
  cases call <;> simp only [Proper] <;> infer_instance

/-- What the driver promises in every state. -/
structure ProtocolKept (image : Image) (store : Bytes) (plan : Execution) (s : DriverState) :
    Prop where
  /-- The scanner accepts the log. -/
  accepted : ∃ summary, Log.scan (Log.file s.log.written) = .ok summary
  /-- Compensations are prepared and sent in strictly descending order. -/
  descending : (ordinals .deliveryPrepared s.log.written).Pairwise (· > ·) ∧
    (ordinals .deliverySent s.log.written).Pairwise (· > ·)
  /-- Nothing is delivered behind a failed or lost compensation. -/
  stops : StopsAtFailure s.log.written
  /-- A call in a state that does not allow it is refused and changes nothing. -/
  refused : ∀ call : Call, ¬ call.Allowed plan s.driver →
    (call.run image store plan s.driver s.log).1 ≠ .ok ∧
      (call.run image store plan s.driver s.log).2 = (s.driver, s.log)
  /-- No call reads outside the steps of the plan. -/
  inside : ∀ call : Call, Proper s call → ∀ i ∈ call.reads s.driver, i < plan.stepCount

/-- The log is a trace, and the driver is in step with it. -/
structure Attuned (plan : Execution) (s : DriverState) : Prop where
  phase : ∃ phase, LogAt plan s.log phase ∧ InStep plan s.driver phase

theorem attuned_init (plan : Execution) : Attuned plan {} :=
  ⟨.fresh, ⟨.nil, rfl⟩, rfl, Nat.zero_le _, .inl rfl⟩

theorem trace_fresh {phase : Phase} (h : Trace plan [] phase) : phase = .fresh := by
  generalize hlog : ([] : List Log.Record) = log at h
  cases h with
  | nil => rfl
  | snoc => simp at hlog

theorem call_kept (image : Image) (store : Bytes) {s : DriverState} {call : Call}
    (hplan : Sound plan) (h : Attuned plan s) (hproper : Proper s call) :
    Kept plan (call.run image store plan s.driver s.log) := by
  obtain ⟨phase, hlog, hstep⟩ := h
  cases call with
  | start resumeExisting =>
      obtain ⟨hempty, rfl⟩ := hproper
      have hphase : phase = .fresh := by
        have htrace := hlog.trace
        rw [hempty] at htrace
        exact trace_fresh htrace
      subst hphase
      exact start_kept hplan hlog hstep
  | prepare tokenCapacity => exact prepare_kept hplan hlog hstep
  | markSent => exact markSent_kept hplan hlog hstep
  | markNotSent => exact markNotSent_kept hplan hlog hstep
  | markUnknown => exact markUnknown_kept hplan hlog hstep
  | acceptResult result => exact acceptResult_kept hplan hlog hstep

theorem attuned_step {image : Image} {store : Bytes} {s s' : DriverState} {call : Call}
    (hplan : Sound plan) (h : Attuned plan s) (hproper : Proper s call)
    (hs : (driverSystem image store plan).Step s call s') : Attuned plan s' := by
  obtain ⟨hresult, rfl⟩ := hs
  obtain ⟨phase, hlog, hstep⟩ := call_kept image store hplan h hproper
  exact ⟨phase, hlog, hstep hresult⟩

theorem attuned_reachable {image : Image} {store : Bytes} {s : DriverState}
    (hplan : Sound plan) (h : (driverSystem image store plan).ReachWhere Proper s) :
    Attuned plan s :=
  h.invariant (fun s hs => by rw [show s = {} from hs]; exact attuned_init plan)
    fun _ _ _ hs hproper hstep => attuned_step hplan hs hproper hstep

/-! ## What a driver promises -/

/-- A call that is not allowed is refused before anything is written. -/
theorem call_refused {image : Image} {store : Bytes} {driver : Driver} {log : Log.Writer}
    {call : Call} (h : ¬ call.Allowed plan driver) :
    (call.run image store plan driver log).1 ≠ .ok ∧
      (call.run image store plan driver log).2 = (driver, log) := by
  cases call with
  | start resumeExisting =>
      have hstate : plan.state ≠ .ready ∧ plan.state ≠ .complete := not_or.mp h
      simp [Call.run, Driver.start, if_pos hstate]
  | prepare tokenCapacity =>
      simp only [Call.run, Driver.prepare]
      split
      · exact ⟨by simp, rfl⟩
      · rename_i hstarted
        have hstate : driver.execution.state ≠ .ready := fun hs => h ⟨not_not.mp hstarted, hs⟩
        have hprepare : prepare image store tokenCapacity driver.execution =
            .error .invalidState := if_pos (.inl hstate)
        simp [hprepare]
  | markSent =>
      have hmark : markSent driver.execution = .error .invalidState := if_pos h
      simp [Call.run, Driver.markSent, hmark]
  | markNotSent =>
      have hmark : markNotSent driver.execution = .error .invalidState := if_pos h
      simp [Call.run, Driver.markNotSent, hmark]
  | markUnknown =>
      have hmark : markUnknown driver.execution = .error .invalidState := if_pos h
      simp [Call.run, Driver.markUnknown, hmark]
  | acceptResult result =>
      have haccept : acceptResult image driver.execution result = .error .invalidState :=
        if_pos (.inl h)
      simp [Call.run, Driver.acceptResult, haccept]

/-- The steps that are left in a driver are steps of its plan. -/
theorem inStep_remaining (hlog : LogAt plan log phase) (h : InStep plan driver phase) :
    driver.execution.remaining ≤ plan.remaining := by
  have hleft := left_le hlog
  cases phase with
  | fresh => exact h.2.1
  | ready n => rw [h.remaining]; exact hleft
  | prepared n q => rw [h.1.remaining]; exact hleft
  | sent n q => rw [h.1.remaining]; exact hleft
  | failed _ _ _ => exact h.elim
  | finished _ _ => exact h.1

/-- The index is inside the plan exactly when steps are left. -/
theorem stepIndex_lt {execution : Execution} (hremaining : execution.remaining ≤ plan.stepCount)
    (hbound : plan.stepCount ≤ maxSteps) :
    execution.stepIndex < plan.stepCount ↔ execution.remaining ≠ 0 := by
  have hmax : maxSteps < 2 ^ 32 - 1 := by decide
  unfold Execution.stepIndex
  by_cases hzero : execution.remaining = 0
  · rw [hzero, Nat.zero_add, Nat.mod_eq_of_lt (by omega)]
    omega
  · rw [show execution.remaining + (2 ^ 32 - 1) = execution.remaining - 1 + 2 ^ 32 by omega,
      Nat.add_mod_right, Nat.mod_eq_of_lt (by omega)]
    omega

/-- The calls that look at the state first read inside the plan. -/
theorem reads_inside {call : Call} {s : DriverState} (hplan : Sound plan) (h : Attuned plan s)
    (hproper : Proper s call) : ∀ i ∈ call.reads s.driver, i < plan.stepCount := by
  obtain ⟨phase, hlog, hstep⟩ := h
  have hremaining := inStep_remaining hlog hstep
  have hcompleted := hplan.completed
  have hindex : s.driver.execution.remaining ≠ 0 →
      s.driver.execution.stepIndex < plan.stepCount := fun hne =>
    (stepIndex_lt (by omega) hplan.bounded).mpr hne
  have hprepared : s.driver.execution.state = .prepared → s.driver.execution.remaining ≠ 0 := by
    intro hstate
    obtain ⟨n, q, rfl⟩ := phase_of_prepared hstep hstate
    rw [hstep.1.remaining]
    exact hstep.1.pending
  have hsent : s.driver.execution.state = .sent → s.driver.execution.remaining ≠ 0 := by
    intro hstate
    obtain ⟨n, q, rfl⟩ := phase_of_sent hstep hstate
    rw [hstep.1.remaining]
    exact hstep.1.pending
  intro i hi
  cases call with
  | start resumeExisting => cases hi
  | prepare tokenCapacity =>
      simp only [Call.reads] at hi
      split at hi
      · rename_i hchecks
        rw [List.mem_singleton.mp hi]
        exact hindex hchecks.2.2.1
      · cases hi
  | markSent =>
      simp only [Call.reads] at hi
      split at hi
      · rename_i hstate
        rw [List.mem_singleton.mp hi]
        exact hindex (hprepared hstate)
      · cases hi
  | markNotSent =>
      simp only [Call.reads] at hi
      split at hi
      · rename_i hstate
        rw [List.mem_singleton.mp hi]
        exact hindex (hprepared hstate)
      · cases hi
  | markUnknown =>
      simp only [Call.reads] at hi
      split at hi
      · rename_i hstate
        rw [List.mem_singleton.mp hi]
        exact hindex (hsent hstate)
      · cases hi
  | acceptResult result =>
      rw [List.mem_singleton.mp hi]
      exact hindex hproper

/-- **The driver's protocol.** Whatever the calls and their order, as long as the driver is started
once and results are given to it only while steps are left: the log is one that the scanner
accepts, compensations are delivered last step first and none behind a failure, a call that comes
too early or too late changes nothing, and no call reads outside the plan. -/
theorem driver_protocol {image : Image} {store : Bytes} {s : DriverState} (hplan : Sound plan)
    (h : (driverSystem image store plan).ReachWhere Proper s) :
    ProtocolKept image store plan s := by
  have hattuned := attuned_reachable hplan h
  obtain ⟨phase, hlog, -⟩ := hattuned.phase
  have hbound : plan.remaining < 2 ^ 16 := by
    have hmax : maxSteps < 2 ^ 16 := by decide
    have hcompleted := hplan.completed
    have hbounded := hplan.bounded
    omega
  exact ⟨⟨_, scan_trace_file hlog.trace⟩,
    ⟨(trace_descends hbound (.inl rfl) hlog.trace).1,
      (trace_descends hbound (.inr rfl) hlog.trace).1⟩,
    trace_stops hlog.trace, fun call hcall => call_refused hcall,
    fun call hproper => reads_inside hplan hattuned hproper⟩

/-! ## The plans that drivers are given -/

/-- What every plan has that the recovery returns. -/
theorem recoverPlan_shape {image : Image} {tokens : Bytes} {recovery : Recovery}
    (h : recoverPlan image tokens recovery = .ok plan) :
    plan.steps = recovery.execution.steps ∧ plan.stepCount = recovery.execution.stepCount ∧
      plan.remaining ≤ recovery.execution.remaining ∧
      plan.state = if plan.remaining = 0 then .complete else .ready := by
  unfold recoverPlan at h
  simp only at h
  split at h
  · cases h
  split at h
  · cases h
  split at h
  · cases h
    exact ⟨rfl, rfl, Nat.zero_le _, rfl⟩
  split at h
  · cases h
  unfold Except.map at h
  split at h
  · cases h
  · cases h
    exact ⟨rfl, rfl, Nat.le_refl _, rfl⟩

/-- Steps with the same declaration have the same ordinal. -/
theorem sound_steps (plan : Execution) {image : Image} {origin : Execution}
    (hloaded : Loaded image.tables.regions origin)
    (hsteps : ∀ i, (plan.steps i).declaration = (origin.steps i).declaration)
    (hcompleted : plan.remaining ≤ origin.stepCount) {n : Nat} (hn : n < plan.remaining) :
    (plan.step (n + 1)).ordinal = UInt16.ofNat (n + 1) := by
  have hbounded := hloaded.bounded
  have hval : (Fin.ofNat maxSteps n).val = n := Nat.mod_eq_of_lt (by omega)
  have hordinal := hloaded.ordinal (i := Fin.ofNat maxSteps n) (by omega)
  have hdeclared := congrArg Step.ordinal (hsteps (Fin.ofNat maxSteps n))
  have hsame : (plan.step (n + 1)).ordinal = (origin.steps (Fin.ofNat maxSteps n)).ordinal :=
    hdeclared
  rw [hval] at hordinal
  rw [hsame, ← hordinal, UInt16.ofNat_toNat]

/-- A recovered plan is sound. -/
theorem recover_sound {image : Image} {imageFingerprint executionId : UInt64}
    {workflowId : UInt32} {journal tokens : Bytes}
    (h : recover image imageFingerprint journal tokens executionId workflowId = .ok plan) :
    Sound plan := by
  obtain ⟨origin, recovery, hload, hrecovers, hplan⟩ := recover_ok h
  obtain ⟨hloaded, -, -⟩ := loaded_loadSteps rfl hload
  obtain ⟨hsteps, hcount, hremaining, hstate⟩ := recoverPlan_shape hplan
  have hcompleted := hrecovers.completed
  have hbounded := hloaded.bounded
  have hcountEq := hrecovers.stepCount
  refine ⟨by omega, by omega, fun n hn => ?_, fun hready hzero => ?_⟩
  · refine sound_steps plan hloaded (fun i => ?_) (by omega) hn
    rw [hsteps]
    exact hrecovers.steps i
  · rw [if_pos hzero] at hstate
    cases hready.symm.trans hstate

/-- A plan that is begun at once is sound. -/
theorem beginLive_sound {image : Image} {store : Bytes} {imageFingerprint executionId : UInt64}
    {workflowId : UInt32} {originalOutcome : Outcome} {ids : Fin maxSteps → UInt64}
    {completedSteps : Nat} {nextRequestId : UInt64}
    (h : beginLive image store imageFingerprint executionId workflowId originalOutcome ids
      completedSteps nextRequestId = .ok plan) : Sound plan := by
  unfold beginLive at h
  split at h
  · cases h
  rename_i harguments
  split at h
  · cases h
  rename_i origin hload
  split at h
  · cases h
  rename_i hcount
  obtain ⟨hloaded, -, -⟩ := loaded_loadSteps rfl hload
  unfold Except.map at h
  split at h
  · cases h
  rename_i execution hrun
  cases h
  -- each round fills in one forward request
  have hkept : execution.remaining = completedSteps ∧ execution.stepCount = origin.stepCount ∧
      ∀ i, (execution.steps i).declaration = (origin.steps i).declaration := by
    refine foldlM_invariant
      (P := fun e => e.remaining = completedSteps ∧ e.stepCount = origin.stepCount ∧
        ∀ i, (e.steps i).declaration = (origin.steps i).declaration) ?_
      ⟨rfl, rfl, fun _ => rfl⟩ hrun
    intro e index e' he hround
    obtain ⟨hremaining, hsteps, hsame⟩ := he
    unfold beginStep at hround
    split at hround
    · cases hround
    unfold Except.map at hround
    simp only at hround
    split at hround
    · cases hround
    · cases hround
      refine ⟨hremaining, hsteps, fun i => ?_⟩
      rw [← hsame i]
      by_cases hi : i = index
      · subst hi
        simp only [Function.update_self]
        rfl
      · simp only [Function.update_of_ne hi]
  obtain ⟨hremaining, hsteps, hsame⟩ := hkept
  have hbounded := hloaded.bounded
  refine ⟨?_, ?_, fun n hn => ?_, fun _ => ?_⟩
  · show execution.remaining ≤ execution.stepCount
    omega
  · show execution.stepCount ≤ maxSteps
    omega
  · exact sound_steps { execution with state := .ready } hloaded hsame
      (by show execution.remaining ≤ _; omega) hn
  · show execution.remaining ≠ 0
    rw [hremaining]
    exact (not_or.mp (not_or.mp (not_or.mp harguments).2).2).1

/-! ## A result too late -/

/-- The plan of the saga that failed at its second step. -/
def twoStepsPlan : Execution :=
  (recover twoSteps 7 secondFailedFile firstTokenFile 1 1).toOption.getD {}

set_option maxRecDepth 20000 in
theorem twoStepsPlan_recovered :
    recover twoSteps 7 secondFailedFile firstTokenFile 1 1 = .ok twoStepsPlan := by
  have hsome : (recover twoSteps 7 secondFailedFile firstTokenFile 1 1).toOption.isSome = true := by
    decide +kernel
  unfold twoStepsPlan
  cases h : recover twoSteps 7 secondFailedFile firstTokenFile 1 1 with
  | error e =>
      rw [h] at hsome
      cases hsome
  | ok plan => rfl

/-- What the compensation of the first step returns. -/
def undone : Frame where
  kind := .result
  executionId := 1
  requestId := 3
  appId := 1
  actionId := 3
  sourceType := 1
  destinationType := 1
  outcome := .success
  payload := [1]

/-- The calls that undo the first step. -/
def undoCalls : List Call := [.start false, .prepare 4096, .markSent, .acceptResult undone]

section Calls

variable (image : Image) (store : Bytes) (plan : Execution)

/-- Calls one after another. -/
def DriverState.afterAll : DriverState → List Call → DriverState
  | s, [] => s
  | s, call :: calls => (s.after image store plan call).afterAll calls

/-- Each of the calls is proper, and its append succeeds. -/
def DriverState.accepts : DriverState → List Call → Bool
  | _, [] => true
  | s, call :: calls => decide (Proper s call) &&
      (call.run image store plan s.driver s.log).1 != .logError &&
      (s.after image store plan call).accepts calls

theorem reach_afterAll {calls : List Call} : ∀ {s : DriverState},
    (driverSystem image store plan).ReachWhere Proper s →
    s.accepts image store plan calls = true →
    (driverSystem image store plan).ReachWhere Proper (s.afterAll image store plan calls) := by
  induction calls with
  | nil => exact fun h _ => h
  | cons call calls ih =>
      intro s h haccepts
      simp only [DriverState.accepts, Bool.and_eq_true, decide_eq_true_eq, bne_iff_ne] at haccepts
      obtain ⟨⟨hproper, hresult⟩, hrest⟩ := haccepts
      exact ih (.step h hproper ⟨hresult, rfl⟩) hrest

end Calls

/-- The driver behind the calls that undo the first step. -/
def firstUndone : DriverState :=
  DriverState.afterAll twoSteps firstTokenFile twoStepsPlan {} undoCalls

set_option maxRecDepth 20000 in
theorem firstUndone_reached :
    (driverSystem twoSteps firstTokenFile twoStepsPlan).ReachWhere Proper firstUndone :=
  reach_afterAll _ _ _ (.init rfl) (by decide +kernel)

theorem driver_protocol_twoSteps :
    ProtocolKept twoSteps firstTokenFile twoStepsPlan firstUndone :=
  driver_protocol (recover_sound twoStepsPlan_recovered) firstUndone_reached

set_option maxRecDepth 20000 in
/-- Behind the last step another result is refused, but not before the driver has looked at the
step in front of the first one. -/
theorem driver_reads_outside :
    (driverSystem twoSteps firstTokenFile twoStepsPlan).Reach firstUndone ∧
      ¬ (Call.acceptResult undone).Allowed twoStepsPlan firstUndone.driver ∧
      ¬ ∀ i ∈ (Call.acceptResult undone).reads firstUndone.driver, i < twoStepsPlan.stepCount := by
  have hstate : firstUndone.driver.execution.state = .complete ∧
      firstUndone.driver.execution.stepIndex = 4294967295 ∧ twoStepsPlan.stepCount = 2 := by
    decide +kernel
  obtain ⟨hcomplete, hindex, hcount⟩ := hstate
  refine ⟨firstUndone_reached.reach, fun hallowed => ?_, fun hinside => ?_⟩
  · cases hcomplete.symm.trans hallowed
  · have hread := hinside firstUndone.driver.execution.stepIndex (List.mem_singleton.mpr rfl)
    omega

end Hermas.Saga
