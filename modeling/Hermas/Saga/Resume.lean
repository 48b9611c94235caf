import Hermas.Saga.Driver

/-!
# Resuming a compensation

After a crash the plan is recovered once more and reconciled with what is on record in
the saga log. The reconciliation walks the log and takes over the steps that are left;
a delivery that is open may have happened and must not be repeated, so the plan is
ready only when none is. A resumed driver appends to the same log, which then is a
trace as if there had been no crash, and so the law holds again at the next one.
-/

namespace Hermas.Saga

/-! ## Reconciliation -/

/-- What the loop of `hermas_saga_reconcile` carries along. -/
structure Reconciliation where
  started : Bool := false
  finished : Bool := false
  finishedOutcome : Outcome := .none
  initialOrdinal : UInt16 := 0
  largestRequest : UInt64

/-- The loop body of `hermas_saga_reconcile` behind `decode`. -/
def reconcileRecord (execution : Execution) (state : Reconciliation) (record : Log.Record) :
    Option Reconciliation :=
  if record.executionId ≠ execution.executionId then some state
  else if record.workflowId ≠ execution.workflowId ∨
      record.imageFingerprint ≠ execution.imageFingerprint then
    none
  else if record.kind = .started ∧
      (state.started ∨ record.outcome ≠ execution.originalOutcome) then
    none
  else if record.kind ≠ .started ∧ (¬ state.started ∨ state.finished) then none
  else some {
    started := true
    finished := state.finished || record.kind == .finished
    finishedOutcome :=
      if record.kind = .finished then record.outcome else state.finishedOutcome
    initialOrdinal := if record.kind = .started then record.ordinal else state.initialOrdinal
    largestRequest :=
      if state.largestRequest < record.requestId then record.requestId else state.largestRequest }

def reconcileBytes (execution : Execution) (state : Reconciliation) (record : Bytes) :
    Option Reconciliation :=
  (Log.decode record).toOption.bind (reconcileRecord execution state)

/-- `hermas_saga_reconcile` behind its loop. -/
def reconcilePlan (summary : Log.Summary) (state : Reconciliation) (execution : Execution) :
    Result × Execution :=
  if ¬ state.started then (.ok, execution)
  else if state.initialOrdinal.toNat ≠ execution.remaining ∨ state.largestRequest = uint64Max then
    (.inconsistentHistory, execution)
  else
    let execution := { execution with nextRequestId := state.largestRequest + 1 }
    if state.finished then
      let success := state.finishedOutcome = .success
      (.ok, { execution with
        remaining := if success then 0 else execution.remaining
        compensationOutcome := state.finishedOutcome
        state := if success then .complete else .blocked })
    else
      match summary.active.find? (·.executionId == execution.executionId) with
      | none => (.inconsistentHistory, execution)
      | some active =>
          if execution.remaining < active.nextOrdinal.toNat then (.inconsistentHistory, execution)
          else
            let execution := { execution with remaining := active.nextOrdinal.toNat }
            if active.hasOpenDelivery then
              (.unsafeHistory,
                { execution with compensationOutcome := .unknown, state := .blocked })
            else if active.terminalOutcome ≠ .none then
              (.ok, { execution with
                compensationOutcome := active.terminalOutcome, state := .blocked })
            else
              (.ok, { execution with
                state := if execution.remaining = 0 then .complete else .ready })

/-- `hermas_saga_reconcile` -/
def reconcile (execution : Execution) (sagaLog : Bytes) : Result × Execution :=
  if execution.state ≠ .ready ∧ execution.state ≠ .complete then (.invalidState, execution)
  else
    match Log.scan sagaLog with
    | .error _ => (.inconsistentHistory, execution)
    | .ok summary =>
        match (sagaLog.records Log.recordSize (sagaLog.length / Log.recordSize)).foldlM
            (reconcileBytes execution) { largestRequest := execution.nextRequestId - 1 } with
        | none => (.inconsistentHistory, execution)
        | some state => reconcilePlan summary state execution

variable {plan : Execution}

/-! ## What the reconciliation makes of a trace -/

def Phase.Ended : Phase → Prop
  | .finished _ _ => True
  | _ => False

/-- What the loop has taken from the log of a compensation that has come to a phase. -/
structure Tells (plan : Execution) (log : List Log.Record) (phase : Phase)
    (state : Reconciliation) : Prop where
  started : state.started = true ↔ phase ≠ .fresh
  finished : state.finished = true ↔ phase.Ended
  outcome : ∀ n o, phase = .finished n o → state.finishedOutcome = o
  initial : phase ≠ .fresh → state.initialOrdinal = UInt16.ofNat plan.remaining
  largest : ∀ r ∈ log, r.requestId ≤ state.largestRequest
  base : plan.nextRequestId - 1 ≤ state.largestRequest
  /-- The largest request is one of the log or in front of it. -/
  attained : state.largestRequest = plan.nextRequestId - 1 ∨
    ∃ r ∈ log, state.largestRequest = r.requestId

/-- A recovered plan is ready when it has steps left, and then it has a next request. -/
structure Recovered (plan : Execution) : Prop where
  sound : Sound plan
  state : plan.state = if plan.remaining = 0 then .complete else .ready
  request : plan.remaining ≠ 0 → plan.nextRequestId ≠ 0

theorem Recovered.active (h : Recovered plan) : plan.state = .ready ∨ plan.state = .complete := by
  rw [h.state]
  split
  · exact .inr rfl
  · exact .inl rfl

/-- What survives a crash is the log; the driver is there while the daemon runs and the plan has
something to undo. -/
structure Life where
  driver : Option Driver
  log : Log.Writer

/-- A restart on the records of the log: the file is scanned, the plan reconciled with it, and a
driver begun that goes on with it, or starts it. -/
def Life.resume (plan : Execution) (records : List Log.Record) : Life :=
  match Log.scan (Log.file records) with
  | .error _ => { driver := none, log := { written := records, nextSequence := 0 } }
  | .ok summary =>
      let log : Log.Writer := { written := records, nextSequence := summary.nextSequence }
      let reconciled := reconcile plan (Log.file records)
      if reconciled.1 = .ok ∧ reconciled.2.state = .ready then
        let out := Driver.start {} reconciled.2 log (!records.isEmpty)
        { driver := if out.1 = .ok then some out.2.1 else none, log := out.2.2 }
      else { driver := none, log }

/-- What happens to a compensation. -/
inductive Event where
  | call (call : Call)
  /-- A crash that so many records survive, and the restart behind it. -/
  | crash (kept : Nat)

/-- One event. A driver whose log fails is not used again. -/
def Life.after (image : Image) (tokens : Bytes) (plan : Execution) (s : Life) : Event → Life
  | .call call =>
      match s.driver with
      | none => s
      | some driver =>
          let out := call.run image tokens plan driver s.log
          { driver := if out.1 = .logError then none else some out.2.1, log := out.2.2 }
  | .crash kept => Life.resume plan (s.log.written.take kept)

end Hermas.Saga
