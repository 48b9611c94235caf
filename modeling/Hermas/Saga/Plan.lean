import Hermas.Runtime.Sequential
import Hermas.Base.Table
import Hermas.Saga.Log
import Hermas.Saga.Token

/-!
# The plan of a compensation

A saga that fails is undone step by step, last step first. The plan holds the
steps of the image with the forward requests that succeeded; each is undone by a
delivery that carries the token kept for it. The driver puts the plan's every move
on record in the saga log.
-/

namespace Hermas.Saga

open Image (Node)

instance : NeZero maxSteps := ⟨by decide⟩

inductive Result where
  | ok | invalidArgument | invalidImage | notSaga | inconsistentHistory | unsafeHistory
  | missingToken | duplicateToken | invalidToken | bufferTooSmall | invalidState
  | unexpectedResult | requestIdExhausted | logError
  deriving DecidableEq, Repr

/-- `hermas_saga_state` -/
inductive State where
  | empty | ready | prepared | sent | complete | blocked
  deriving DecidableEq, Repr

/-- `hermas_saga_step` -/
structure Step where
  forwardRequestId : UInt64 := 0
  forwardNode : UInt16 := 0
  compensationAppId : UInt16 := 0
  compensationActionId : UInt16 := 0
  sourceType : UInt16 := 0
  destinationType : UInt16 := 0
  successType : UInt16 := 0
  errorType : UInt16 := 0
  ordinal : UInt16 := 0
  deriving DecidableEq, Repr

/-- `hermas_saga_execution`. Where its tokens are is an argument of the functions that look
them up. -/
structure Execution where
  executionId : UInt64 := 0
  workflowId : UInt32 := 0
  imageFingerprint : UInt64 := 0
  nextRequestId : UInt64 := 0
  currentRequestId : UInt64 := 0
  originalOutcome : Outcome := .none
  compensationOutcome : Outcome := .none
  stepCount : Nat := 0
  completedSteps : Nat := 0
  remaining : Nat := 0
  state : State := .empty
  steps : Fin maxSteps → Step := fun _ => {}
  deriving DecidableEq

/-- `steps[number - 1]`; steps are numbered from 1. -/
def Execution.step (execution : Execution) (number : Nat) : Step :=
  execution.steps (Fin.ofNat maxSteps (number - 1))

/-- A saga step region and the outcome region behind it. -/
def readStep (region outcome : Image.Region) (forwardRequestId : UInt64) : Step where
  forwardRequestId
  forwardNode := region.readU16 2
  compensationAppId := region.readU16 4
  compensationActionId := region.readU16 6
  sourceType := region.readU16 8
  destinationType := region.readU16 10
  successType := outcome.readU16 4
  errorType := outcome.readU16 6
  ordinal := region.readU16 12

/-- The loop of `load_steps` -/
def loadRegions : List Image.Region → Execution → Option Execution
  | [], execution => if execution.stepCount = 0 then none else some execution
  | region :: rest, execution =>
      if region.readU8 0 ≠ 3 then loadRegions rest execution
      else
        let ordinal := region.readU16 12
        match rest with
        | [] => none
        | outcome :: _ =>
            if ordinal = 0 ∨ maxSteps < ordinal.toNat ∨ outcome.readU8 0 ≠ 4 ∨
                outcome.readU16 2 ≠ region.readU16 2 then
              none
            else
              let index : Fin maxSteps := Fin.ofNat maxSteps (ordinal.toNat - 1)
              loadRegions rest { execution with
                steps := Function.update execution.steps index
                  (readStep region outcome (execution.steps index).forwardRequestId)
                stepCount := execution.stepCount + 1 }

variable (image : Image)

/-- `load_steps` -/
def loadSteps (execution : Execution) : Option Execution :=
  loadRegions image.tables.regions execution

/-- `validate_token`: the token that the step needs, out of the store. -/
def validateToken (store : Bytes) (execution : Execution) (step : Step) (capacity : Nat) :
    Except Result Compensation.Record :=
  match Compensation.find store
    { executionId := execution.executionId
      workflowId := execution.workflowId
      requestId := step.forwardRequestId
      nodeId := step.forwardNode
      imageFingerprint := execution.imageFingerprint } capacity with
  | .error .duplicateToken => .error .duplicateToken
  | .error .bufferTooSmall => .error .bufferTooSmall
  | .error _ => .error .invalidToken
  | .ok none => .error .missingToken
  | .ok (some record) =>
      if record.compensationAppId ≠ step.compensationAppId ∨
          record.compensationActionId ≠ step.compensationActionId ∨
          record.sourceType ≠ step.sourceType ∨ record.destinationType ≠ step.destinationType ∨
          ¬ image.validateValue step.destinationType record.token then
        .error .invalidToken
      else .ok record

/-- One round of the loop of `hermas_saga_begin_live` -/
def beginStep (store : Bytes) (forwardRequestIds : Fin maxSteps → UInt64)
    (execution : Execution) (index : Fin maxSteps) : Except Result Execution :=
  if forwardRequestIds index = 0 ∨ execution.nextRequestId ≤ forwardRequestIds index then
    .error .inconsistentHistory
  else
    let execution := { execution with
      steps := Function.update execution.steps index
        { execution.steps index with forwardRequestId := forwardRequestIds index } }
    (validateToken image store execution (execution.steps index) Protocol.maxPayloadSize).map
      fun _ => execution

/-- `hermas_saga_begin_live` -/
def beginLive (store : Bytes) (imageFingerprint : UInt64) (executionId : UInt64)
    (workflowId : UInt32) (originalOutcome : Outcome) (forwardRequestIds : Fin maxSteps → UInt64)
    (completedSteps : Nat) (nextRequestId : UInt64) : Except Result Execution :=
  if executionId = 0 ∨ workflowId = 0 ∨ completedSteps = 0 ∨ maxSteps < completedSteps ∨
      nextRequestId = 0 ∨ nextRequestId = uint64Max ∨
      (originalOutcome ≠ .appError ∧ originalOutcome ≠ .notSent) then
    .error .invalidArgument
  else
    match loadSteps image
      { executionId, workflowId, imageFingerprint, originalOutcome, nextRequestId } with
    | none => .error .notSaga
    | some execution =>
        if execution.stepCount < completedSteps then .error .notSaga
        else
          (((List.finRange maxSteps).take completedSteps).foldlM
            (beginStep image store forwardRequestIds)
            { execution with remaining := completedSteps, completedSteps }).map
            fun execution => { execution with state := .ready }

theorem beginLive_ready {image : Image} {store : Bytes} {imageFingerprint : UInt64}
    {executionId : UInt64} {workflowId : UInt32} {originalOutcome : Outcome}
    {forwardRequestIds : Fin maxSteps → UInt64} {completedSteps : Nat} {nextRequestId : UInt64}
    {plan : Execution} (h : beginLive image store imageFingerprint executionId workflowId
      originalOutcome forwardRequestIds completedSteps nextRequestId = .ok plan) :
    plan.state = .ready := by
  unfold beginLive at h
  split at h
  · cases h
  split at h
  · cases h
  split at h
  · cases h
  · unfold Except.map at h
    split at h
    · cases h
    · cases h
      rfl

/-- `hermas_saga_prepare` -/
def prepare (store : Bytes) (tokenCapacity : Nat) (execution : Execution) :
    Except Result (Frame × Execution) :=
  if execution.state ≠ .ready ∨ execution.remaining = 0 then .error .invalidState
  else if execution.nextRequestId = 0 ∨ execution.nextRequestId = uint64Max then
    .error .requestIdExhausted
  else
    let step := execution.step execution.remaining
    (validateToken image store execution step tokenCapacity).map fun token =>
      ({ kind := .invoke
         executionId := execution.executionId
         requestId := execution.nextRequestId
         appId := step.compensationAppId
         actionId := step.compensationActionId
         sourceType := step.sourceType
         destinationType := step.destinationType
         payload := token.token },
       { execution with
         currentRequestId := execution.nextRequestId
         nextRequestId := execution.nextRequestId + 1
         state := .prepared })

/-- `hermas_saga_mark_sent` -/
def markSent (execution : Execution) : Except Result Execution :=
  if execution.state ≠ .prepared then .error .invalidState
  else .ok { execution with state := .sent }

/-- `hermas_saga_mark_not_sent` -/
def markNotSent (execution : Execution) : Except Result Execution :=
  if execution.state ≠ .prepared then .error .invalidState
  else .ok { execution with compensationOutcome := .notSent, state := .blocked }

/-- `hermas_saga_mark_unknown` -/
def markUnknown (execution : Execution) : Except Result Execution :=
  if execution.state ≠ .sent then .error .invalidState
  else .ok { execution with compensationOutcome := .unknown, state := .blocked }

/-- `hermas_saga_accept_result` -/
def acceptResult (execution : Execution) (result : Frame) : Except Result Execution :=
  if execution.state ≠ .sent ∨ execution.remaining = 0 then .error .invalidState
  else
    let step := execution.step execution.remaining
    let expectedType := if result.outcome = .success then step.successType else step.errorType
    if result.kind ≠ .result ∨ result.executionId ≠ execution.executionId ∨
        result.requestId ≠ execution.currentRequestId ∨
        result.appId ≠ step.compensationAppId ∨ result.actionId ≠ step.compensationActionId ∨
        (result.outcome ≠ .success ∧ result.outcome ≠ .appError) ∨
        result.sourceType ≠ expectedType ∨ result.destinationType ≠ expectedType ∨
        ¬ image.validateValue expectedType result.payload then
      .error .unexpectedResult
    else if result.outcome = .appError then
      .ok { execution with compensationOutcome := .appError, state := .blocked }
    else
      .ok { execution with
        compensationOutcome := .success
        remaining := execution.remaining - 1
        state := if execution.remaining - 1 = 0 then .complete else .ready }

/-! ## The driver -/

/-- `hermas_saga_driver`. Its log is an argument of the functions that write to it. -/
structure Driver where
  execution : Execution := {}
  started : Bool := false
  deriving DecidableEq

namespace Driver

/-- What a call of the driver leaves behind. -/
abbrev Outcome := Result × Driver × Log.Writer

/-- `driver_record` -/
def record (driver : Driver) (kind : Log.Kind) (outcome : Hermas.Outcome) (action : Bool) :
    Log.Record :=
  let execution := driver.execution
  let step := execution.step execution.remaining
  { kind
    outcome
    executionId := execution.executionId
    workflowId := execution.workflowId
    imageFingerprint := execution.imageFingerprint
    requestId := if action then execution.currentRequestId else 0
    forwardNode := if action then step.forwardNode else 0
    appId := if action then step.compensationAppId else 0
    actionId := if action then step.compensationActionId else 0
    ordinal := if action then step.ordinal
      else if kind = .started then UInt16.ofNat execution.remaining else 0 }

/-- Append a record and go on, or report the log's failure. -/
def appendRecord (driver : Driver) (log : Log.Writer) (record : Log.Record)
    (next : Log.Writer → Driver.Outcome) : Driver.Outcome :=
  match log.append record with
  | .error _ => (.logError, driver, log)
  | .ok log => next log

/-- `hermas_saga_driver_begin` on a driver that is overwritten. -/
def start (driver : Driver) (execution : Execution) (log : Log.Writer) (resumeExisting : Bool) :
    Driver.Outcome :=
  if execution.state ≠ .ready ∧ execution.state ≠ .complete then (.invalidArgument, driver, log)
  else
    let driver : Driver := { execution, started := resumeExisting }
    if execution.state = .complete ∨ driver.started then (.ok, driver, log)
    else
      driver.appendRecord log (driver.record .started execution.originalOutcome false) fun log =>
        (.ok, { driver with started := true }, log)

/-- `hermas_saga_driver_prepare`, with the invocation it fills in. -/
def prepare (image : Image) (store : Bytes) (tokenCapacity : Nat) (driver : Driver)
    (log : Log.Writer) : Option Frame × Driver.Outcome :=
  if ¬ driver.started then (none, .invalidState, driver, log)
  else
    match Saga.prepare image store tokenCapacity driver.execution with
    | .error e => (none, e, driver, log)
    | .ok (invocation, execution) =>
        let driver := { driver with execution }
        (some invocation, driver.appendRecord log (driver.record .deliveryPrepared .none true)
          fun log => (.ok, driver, log))

/-- `hermas_saga_driver_mark_sent` -/
def markSent (driver : Driver) (log : Log.Writer) : Driver.Outcome :=
  match Saga.markSent driver.execution with
  | .error e => (e, driver, log)
  | .ok execution =>
      let driver := { driver with execution }
      driver.appendRecord log (driver.record .deliverySent .none true) fun log => (.ok, driver, log)

/-- `finish_driver` -/
def finish (driver : Driver) (log : Log.Writer) (kind : Log.Kind) (outcome : Hermas.Outcome) :
    Driver.Outcome :=
  driver.appendRecord log (driver.record kind outcome true) fun log =>
    driver.appendRecord log (driver.record .finished outcome false) fun log => (.ok, driver, log)

/-- `hermas_saga_driver_mark_not_sent` -/
def markNotSent (driver : Driver) (log : Log.Writer) : Driver.Outcome :=
  match Saga.markNotSent driver.execution with
  | .error e => (e, driver, log)
  | .ok execution => finish { driver with execution } log .stepFailed .notSent

/-- `hermas_saga_driver_mark_unknown` -/
def markUnknown (driver : Driver) (log : Log.Writer) : Driver.Outcome :=
  match Saga.markUnknown driver.execution with
  | .error e => (e, driver, log)
  | .ok execution => finish { driver with execution } log .stepUnknown .unknown

/-- `hermas_saga_driver_accept_result`: the record is made before the plan moves on. -/
def acceptResult (image : Image) (driver : Driver) (log : Log.Writer) (result : Frame) :
    Driver.Outcome :=
  let durable := driver.record
    (if result.outcome = .success then .stepSucceeded else .stepFailed) result.outcome true
  match Saga.acceptResult image driver.execution result with
  | .error e => (e, driver, log)
  | .ok execution =>
      let driver := { driver with execution }
      driver.appendRecord log durable fun log =>
        if execution.state = .complete ∨ execution.state = .blocked then
          driver.appendRecord log (driver.record .finished result.outcome false) fun log =>
            (.ok, driver, log)
        else (.ok, driver, log)

/-! ## What a call that succeeds leaves behind -/

variable {driver driver' : Driver} {log log' : Log.Writer}

theorem appendRecord_ok {record : Log.Record} {next : Log.Writer → Driver.Outcome}
    (h : driver.appendRecord log record next = (.ok, driver', log')) :
    ∃ log₁, log.append record = .ok log₁ ∧
      log₁.written = log.written ++ [{ record with sequence := log.nextSequence }] ∧
      next log₁ = (.ok, driver', log') := by
  unfold appendRecord at h
  cases happend : log.append record with
  | error e => rw [happend] at h; cases h
  | ok log₁ => rw [happend] at h; exact ⟨log₁, rfl, (Log.append_ok happend).1, h⟩

/-- A driver that begins anew puts the start on record. -/
theorem start_ok {execution : Execution} (hready : execution.state = .ready)
    (h : driver.start execution log false = (.ok, driver', log')) :
    driver' = { execution, started := true } ∧
      ∃ r, r.kind = .started ∧ log'.written = log.written ++ [r] := by
  unfold start at h
  simp only [hready, ne_eq, not_true, false_and, if_false, reduceCtorEq, Bool.false_eq_true,
    or_self] at h
  obtain ⟨log₁, -, hwritten, hnext⟩ := appendRecord_ok h
  cases hnext
  exact ⟨rfl, _, rfl, hwritten⟩

/-- A driver that takes up a plan from the log only holds it. -/
theorem resume_ok {execution : Execution} (hready : execution.state = .ready)
    (h : driver.start execution log true = (.ok, driver', log')) :
    driver'.execution = execution := by
  unfold start at h
  simp only [hready, ne_eq, not_true, false_and, if_false, or_true, if_true, Prod.mk.injEq,
    true_and] at h
  rw [← h.1]

theorem prepare_ok {image : Image} {store : Bytes} {capacity : Nat} {invocation : Frame}
    (h : driver.prepare image store capacity log = (some invocation, .ok, driver', log')) :
    ∃ execution, Saga.prepare image store capacity driver.execution =
        .ok (invocation, execution) ∧ execution.state = .prepared ∧
      driver' = { driver with execution } ∧
      ∃ r, r.kind = .deliveryPrepared ∧ log'.written = log.written ++ [r] := by
  unfold prepare at h
  split at h
  · cases h
  split at h
  · cases h
  rename_i frame execution hprepare
  obtain ⟨hframe, hcall⟩ := Prod.mk.inj h
  cases hframe
  obtain ⟨log₁, -, hwritten, hnext⟩ := appendRecord_ok hcall
  cases hnext
  refine ⟨execution, hprepare, ?_, rfl, _, rfl, hwritten⟩
  unfold Saga.prepare at hprepare
  split at hprepare
  · cases hprepare
  split at hprepare
  · cases hprepare
  simp only at hprepare
  cases htoken : validateToken image store driver.execution
      (driver.execution.step driver.execution.remaining) capacity with
  | error e => rw [htoken] at hprepare; cases hprepare
  | ok token =>
      rw [htoken] at hprepare
      cases hprepare
      rfl

theorem markSent_ok (h : driver.markSent log = (.ok, driver', log')) :
    driver.execution.state = .prepared ∧ driver'.execution.state = .sent ∧
      ∃ r, r.kind = .deliverySent ∧ log'.written = log.written ++ [r] := by
  unfold markSent Saga.markSent at h
  split at h
  · rename_i e he
    split at he <;> cases he
    cases h
  rename_i execution he
  split at he
  · cases he
  rename_i hstate
  cases he
  obtain ⟨log₁, -, hwritten, hnext⟩ := appendRecord_ok h
  cases hnext
  exact ⟨not_not.mp hstate, rfl, _, rfl, hwritten⟩

theorem finish_ok {kind : Log.Kind} {outcome : Hermas.Outcome}
    (h : driver.finish log kind outcome = (.ok, driver', log')) :
    driver' = driver ∧ ∃ r f, r.kind = kind ∧ r.outcome = outcome ∧ f.kind = .finished ∧
      log'.written = log.written ++ [r, f] := by
  obtain ⟨log₁, -, hwritten, hnext⟩ := appendRecord_ok h
  obtain ⟨log₂, -, hwritten', hnext'⟩ := appendRecord_ok hnext
  cases hnext'
  refine ⟨rfl, { driver.record kind outcome true with sequence := log.nextSequence },
    { driver.record .finished outcome false with sequence := log₁.nextSequence }, rfl, rfl, rfl,
    ?_⟩
  rw [hwritten', hwritten, List.append_assoc]
  rfl

/-- A delivery that could not be sent blocks the plan. -/
theorem markNotSent_ok (h : driver.markNotSent log = (.ok, driver', log')) :
    driver.execution.state = .prepared ∧ driver'.execution.state = .blocked ∧
      ∃ r f, r.kind = .stepFailed ∧ r.outcome = .notSent ∧ f.kind = .finished ∧
        log'.written = log.written ++ [r, f] := by
  unfold markNotSent Saga.markNotSent at h
  split at h
  · rename_i e he
    split at he <;> cases he
    cases h
  rename_i execution he
  split at he
  · cases he
  rename_i hstate
  cases he
  obtain ⟨rfl, hrecords⟩ := finish_ok h
  exact ⟨not_not.mp hstate, rfl, hrecords⟩

/-- A delivery that is given up blocks the plan. -/
theorem markUnknown_ok (h : driver.markUnknown log = (.ok, driver', log')) :
    driver.execution.state = .sent ∧ driver'.execution.state = .blocked ∧
      ∃ r f, r.kind = .stepUnknown ∧ r.outcome = .unknown ∧ f.kind = .finished ∧
        log'.written = log.written ++ [r, f] := by
  unfold markUnknown Saga.markUnknown at h
  split at h
  · rename_i e he
    split at he <;> cases he
    cases h
  rename_i execution he
  split at he
  · cases he
  rename_i hstate
  cases he
  obtain ⟨rfl, hrecords⟩ := finish_ok h
  exact ⟨not_not.mp hstate, rfl, hrecords⟩

/-- A result that the plan accepts answers the delivery that is out, which then is not. -/
theorem accepts_sent {image : Image} {execution execution' : Execution} {result : Frame}
    (h : Saga.acceptResult image execution result = .ok execution') :
    execution.state = .sent ∧ result.requestId = execution.currentRequestId ∧
      (result.outcome = .success ∨ result.outcome = .appError) ∧
      execution'.state ≠ .sent ∧ execution'.state ≠ .prepared := by
  unfold Saga.acceptResult at h
  split at h
  · cases h
  rename_i hopen
  simp only at h
  generalize (if result.outcome = .success then (execution.step execution.remaining).successType
    else (execution.step execution.remaining).errorType) = expectedType at h
  split at h
  · cases h
  rename_i hanswers
  simp only [not_or, not_not, not_and] at hopen hanswers
  have houtcome : result.outcome = .success ∨ result.outcome = .appError := by
    by_cases hsuccess : result.outcome = .success
    · exact .inl hsuccess
    · exact .inr (hanswers.2.2.2.2.2.1 hsuccess)
  refine ⟨hopen.1, hanswers.2.2.1, houtcome, ?_⟩
  split at h
  · cases h
    simp
  · cases h
    simp only
    split_ifs <;> simp

/-- A plan that has taken a result has begun. -/
theorem accepts_begun {image : Image} {execution execution' : Execution} {result : Frame}
    (h : Saga.acceptResult image execution result = .ok execution') :
    execution'.state ≠ .empty := by
  unfold Saga.acceptResult at h
  split at h
  · cases h
  simp only at h
  generalize (if result.outcome = .success then (execution.step execution.remaining).successType
    else (execution.step execution.remaining).errorType) = expectedType at h
  split at h
  · cases h
  split at h
  · cases h
    simp
  · cases h
    simp only
    split_ifs <;> simp

theorem accepts_error {image : Image} {execution : Execution} {result : Frame} {e : Result}
    (h : Saga.acceptResult image execution result = .error e) : e ≠ .ok := by
  unfold Saga.acceptResult at h
  split at h
  · cases h
    decide
  simp only at h
  generalize (if result.outcome = .success then (execution.step execution.remaining).successType
    else (execution.step execution.remaining).errorType) = expectedType at h
  split at h
  · cases h
    decide
  · split at h <;> cases h

/-- The record of the result comes in front of whatever the plan does then. -/
theorem acceptResult_ok {image : Image} {result : Frame}
    (h : driver.acceptResult image log result = (.ok, driver', log')) :
    ∃ execution, Saga.acceptResult image driver.execution result = .ok execution ∧
      driver' = { driver with execution } ∧
      ∃ r rest, r.kind = (if result.outcome = .success then .stepSucceeded else .stepFailed) ∧
        r.outcome = result.outcome ∧ (∀ f ∈ rest, f.kind = .finished) ∧
        log'.written = log.written ++ r :: rest := by
  unfold acceptResult at h
  simp only at h
  split at h
  · rename_i e he
    exact absurd (Prod.mk.inj h).1 (accepts_error he)
  rename_i execution he
  obtain ⟨log₁, -, hwritten, hnext⟩ := appendRecord_ok h
  split at hnext
  · obtain ⟨log₂, -, hwritten', hnext'⟩ := appendRecord_ok hnext
    cases hnext'
    refine ⟨execution, he, rfl, { driver.record _ result.outcome true with
      sequence := log.nextSequence }, [{ ({ driver with execution } : Driver).record .finished
      result.outcome false with sequence := log₁.nextSequence }], rfl, rfl, ?_, ?_⟩
    · intro f hf
      rw [List.mem_singleton] at hf
      rw [hf]
      rfl
    · rw [hwritten', hwritten, List.append_assoc]
      rfl
  · cases hnext
    exact ⟨execution, he, rfl, { driver.record _ result.outcome true with
      sequence := log.nextSequence }, [], rfl, rfl, by simp, hwritten⟩

/-- A driver whose delivery is still out behind a result has refused it. -/
theorem acceptResult_refused {image : Image} {result : Frame} {status : Saga.Result}
    (h : driver.acceptResult image log result = (status, driver', log'))
    (hsent : driver'.execution.state = .sent) : driver' = driver ∧ log' = log := by
  unfold acceptResult at h
  simp only at h
  split at h
  · cases h
    exact ⟨rfl, rfl⟩
  rename_i execution he
  have hmoved : driver'.execution = execution := by
    unfold appendRecord at h
    split at h
    · cases h; rfl
    · split at h
      · simp only at h
        split at h <;> cases h <;> rfl
      · cases h; rfl
  exact absurd (hmoved ▸ hsent) (accepts_sent he).2.2.2.1

end Driver

end Hermas.Saga
