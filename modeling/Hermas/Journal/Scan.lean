import Hermas.Base.Table
import Hermas.Journal.Record

/-!
# The journal scanner

Startup reads the whole journal once. The scanner decodes record after record,
keeps one entry for each execution that has started and not finished, and
refuses the file at the first record that does not continue the history before
it. What it returns is what recovery works from: the unfinished executions with
their open deliveries, and the next free numbers.
-/

namespace Hermas.Journal

def maxInterrupted : Nat := 16
def maxOpenDeliveries : Nat := 8

/-- `hermas_journal_open_delivery`. The scanner's own phase of a delivery,
`SCAN_DELIVERY_PREPARED` or `SCAN_DELIVERY_SENT`, is the flag. -/
structure OpenDelivery where
  deliveryWasSent : Bool := false
  requestId : UInt64
  nodeId : UInt16
  appId : UInt16
  actionId : UInt16
  deriving DecidableEq, Repr

/-- `hermas_journal_interrupted` -/
structure Interrupted where
  executionId : UInt64
  workflowId : UInt32
  imageFingerprint : UInt64
  openDeliveries : List OpenDelivery
  deriving DecidableEq, Repr

/-- `hermas_journal_summary` -/
structure Summary where
  recordCount : Nat
  nextSequence : UInt64
  nextExecutionId : UInt64
  interrupted : List Interrupted
  deriving DecidableEq, Repr

/-- `scan_execution` -/
structure ScanExecution where
  executionId : UInt64 := 0
  workflowId : UInt32 := 0
  imageFingerprint : UInt64 := 0
  openDeliveries : List OpenDelivery := []
  largestRequestId : UInt64 := 0
  terminalOutcome : Outcome := .none
  hasActionOutcome : Bool := false
  active : Bool := false
  deriving DecidableEq, Repr

abbrev Executions := Fin maxInterrupted → ScanExecution

def findScanExecution (executions : Executions) (executionId : UInt64) :
    Option (Fin maxInterrupted) :=
  firstIndex fun i => (executions i).active && (executions i).executionId == executionId

def routeMatches (delivery : OpenDelivery) (record : Record) : Bool :=
  delivery.requestId == record.requestId && delivery.nodeId == record.nodeId &&
    delivery.appId == record.appId && delivery.actionId == record.actionId

def findDelivery (execution : ScanExecution) (record : Record) : Option Nat :=
  execution.openDeliveries.findIdx? (routeMatches · record)

/-- The route of a record as a fresh open delivery. -/
def Record.delivery (record : Record) : OpenDelivery where
  requestId := record.requestId
  nodeId := record.nodeId
  appId := record.appId
  actionId := record.actionId

/-- What a `DeliveryPrepared` does to its execution. -/
def transitionPrepared (execution : ScanExecution) (record : Record) :
    Except Result ScanExecution :=
  if maxOpenDeliveries ≤ execution.openDeliveries.length ∨
      record.requestId ≤ execution.largestRequestId ∨
      (findDelivery execution record).isSome then
    .error .invalidTransition
  else
    .ok { execution with
      openDeliveries := execution.openDeliveries ++ [record.delivery]
      largestRequestId := record.requestId }

/-- `deliveries[index] == SCAN_DELIVERY_SENT` -/
def ScanExecution.sentAt (execution : ScanExecution) (index : Nat) : Bool :=
  execution.openDeliveries[index]?.any (·.deliveryWasSent)

/-- What a `DeliverySent` does. -/
def transitionSent (execution : ScanExecution) (record : Record) : Except Result ScanExecution :=
  match findDelivery execution record with
  | none => .error .invalidTransition
  | some delivery =>
      if execution.sentAt delivery then .error .invalidTransition
      else .ok { execution with
        openDeliveries := execution.openDeliveries.modify delivery
          fun d => { d with deliveryWasSent := true } }

/-- A result needs a delivery that was sent, `NotSent` one that was not. -/
def PhaseMismatch (record : Record) (wasSent : Bool) : Prop :=
  (record.kind = .actionSucceeded ∧ wasSent = false) ∨
    (record.kind = .actionFailed ∧ record.outcome = .appError ∧ wasSent = false) ∨
    (record.kind = .actionFailed ∧ record.outcome = .notSent ∧ wasSent = true)

instance (record : Record) (wasSent : Bool) : Decidable (PhaseMismatch record wasSent) :=
  inferInstanceAs (Decidable (_ ∨ _))

/-- `terminal_outcome` behind one more fact. -/
def ScanExecution.outcomeWith (execution : ScanExecution) (outcome : Outcome) : Outcome :=
  if ¬ execution.hasActionOutcome ∨ execution.terminalOutcome.precedence < outcome.precedence
  then outcome else execution.terminalOutcome

/-- What a fact that closes a delivery does. -/
def transitionOutcome (execution : ScanExecution) (record : Record) :
    Except Result ScanExecution :=
  match findDelivery execution record with
  | none => .error .invalidTransition
  | some delivery =>
      if PhaseMismatch record (execution.sentAt delivery) then .error .invalidTransition
      else .ok { execution with
        openDeliveries := execution.openDeliveries.eraseIdx delivery
        terminalOutcome := execution.outcomeWith record.outcome
        hasActionOutcome := true }

/-- What an `ExecutionFinished` does: the entry is cleared. -/
def transitionFinished (execution : ScanExecution) (record : Record) :
    Except Result ScanExecution :=
  if execution.openDeliveries ≠ [] ∨
      (execution.hasActionOutcome ∧ execution.terminalOutcome ≠ record.outcome) ∨
      (¬ execution.hasActionOutcome ∧ record.outcome ≠ .unknown) then
    .error .invalidTransition
  else .ok {}

/-- The transition of an execution that is already known. -/
def transitionKnown (execution : ScanExecution) (record : Record) : Except Result ScanExecution :=
  match record.kind with
  | .executionStarted => .error .invalidTransition
  | .deliveryPrepared => transitionPrepared execution record
  | .deliverySent => transitionSent execution record
  | .actionSucceeded => transitionOutcome execution record
  | .actionFailed => transitionOutcome execution record
  | .actionUnknown => transitionOutcome execution record
  | .executionFinished => transitionFinished execution record

def scanTransition (executions : Executions) (record : Record) : Except Result Executions :=
  if record.kind = .executionStarted then
    match findScanExecution executions record.executionId with
    | some _ => .error .invalidTransition
    | none =>
        match firstIndex fun i => !(executions i).active with
        | some i => .ok (Function.update executions i { executions i with
            active := true
            executionId := record.executionId
            workflowId := record.workflowId
            imageFingerprint := record.imageFingerprint })
        | none => .error .capacityExhausted
  else
    match findScanExecution executions record.executionId with
    | none => .error .invalidTransition
    | some i =>
        if (executions i).workflowId ≠ record.workflowId ∨
            (executions i).imageFingerprint ≠ record.imageFingerprint then
          .error .invalidTransition
        else (transitionKnown (executions i) record).map (Function.update executions i)

/-- The scanner between two records. -/
structure ScanState where
  executions : Executions := fun _ => {}
  recordCount : Nat := 0
  nextSequence : UInt64 := 1
  nextExecutionId : UInt64 := 1
  largestStartedId : UInt64 := 0

/-- The scanner's loop body behind `decode`. -/
def scanRecord (state : ScanState) (record : Record) : Except Result ScanState := do
  if record.sequence ≠ state.nextSequence then throw .invalidSequence
  if record.kind = .executionStarted ∧ record.executionId ≤ state.largestStartedId then
    throw .invalidTransition
  let executions ← scanTransition state.executions record
  if state.nextExecutionId ≤ record.executionId ∧ record.executionId = uint64Max then
    throw .invalidField
  pure {
    executions
    recordCount := state.recordCount + 1
    nextSequence := state.nextSequence + 1
    nextExecutionId :=
      if state.nextExecutionId ≤ record.executionId then record.executionId + 1
      else state.nextExecutionId
    largestStartedId :=
      if record.kind = .executionStarted then record.executionId else state.largestStartedId }

/-- The scanner over records that are already decoded. -/
def scanRecords (state : ScanState) (records : List Record) : Except Result ScanState :=
  records.foldlM scanRecord state

def scanBytes (state : ScanState) (record : Bytes) : Except Result ScanState :=
  decode record >>= scanRecord state

def interruptedOf (execution : ScanExecution) : Interrupted where
  executionId := execution.executionId
  workflowId := execution.workflowId
  imageFingerprint := execution.imageFingerprint
  openDeliveries := execution.openDeliveries

def ScanState.summary (state : ScanState) : Summary where
  recordCount := state.recordCount
  nextSequence := state.nextSequence
  nextExecutionId := state.nextExecutionId
  interrupted := ((List.finRange maxInterrupted).filter fun i => (state.executions i).active).map
    fun i => interruptedOf (state.executions i)

/-- `hermas_journal_scan` -/
def scan (bytes : Bytes) : Except Result Summary :=
  if bytes.length % recordSize ≠ 0 then .error .invalidArgument
  else ((bytes.records recordSize (bytes.length / recordSize)).foldlM scanBytes {}).map
    ScanState.summary

end Hermas.Journal
