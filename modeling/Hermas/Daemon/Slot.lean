import Hermas.Daemon.Registry
import Hermas.Journal.Writer
import Hermas.Result.Store
import Hermas.Runtime.Group
import Hermas.Saga.Plan

/-!
# One slot of the daemon loop

The loop runs up to sixteen executions, each in a slot of its own. Everything it
does for one of them reads and writes that slot and what all slots share: the
registry and the logs. `AtSlot` is the loop as the functions see it that serve one
slot, so that what they do to the other slots needs no proof.

`history` is not in the source. It lists what left the daemon, in order: the
records made durable in the four logs, and the packets that were sent.
-/

namespace Hermas.Daemon

inductive LoopResult where
  | ok | invalidArgument | invalidImage | capacityExhausted | duplicateExecution
  | unknownExecution | executionActive | pollError | runtimeError | protocolError
  | journalError | compensationError | resultError | unsupportedGraph
  deriving DecidableEq, Repr

instance : Status LoopResult := ⟨.ok⟩

def maxActions : Nat := 80
def maxExecutions : Nat := 16
def maxGroupExecutions : Nat := 2

instance : NeZero maxGroupExecutions := ⟨by decide⟩

abbrev SlotIndex := Fin maxExecutions

/-- `hermas_loop_delivery` -/
structure Delivery where
  requestId : UInt64 := 0
  nodeId : UInt16 := 0
  appId : UInt16 := 0
  actionId : UInt16 := 0
  ownsAction : Bool := false
  deriving DecidableEq, Repr

/-- `hermas_loop_slot`. A grouped slot holds the execution that the source keeps in the group
arena with the slot's `group_index`. -/
structure Slot where
  execution : Execution := { valueCapacity := 0, executionId := 0 }
  packet : Bytes := []
  requestId : UInt64 := 0
  nodeId : UInt16 := 0
  appId : UInt16 := 0
  actionId : UInt16 := 0
  active : Bool := false
  ownsAction : Bool := false
  journalFinished : Bool := false
  resultStored : Bool := false
  compensating : Bool := false
  group : Option GroupExecution := none
  groupIndex : Fin maxGroupExecutions := 0
  groupDeliveries : FlowIndex → Delivery := fun _ => {}
  sagaSuccessCount : Nat := 0
  sagaForwardRequests : Fin Saga.maxSteps → UInt64 := fun _ => 0
  saga : Saga.Driver := {}

namespace Slot

/-- `slot_execution_id` -/
def executionId (slot : Slot) : UInt64 :=
  match slot.group with
  | none => slot.execution.executionId
  | some group => group.executionId

/-- `slot_complete` -/
def complete (slot : Slot) : Bool :=
  match slot.group with
  | none => slot.execution.state == .complete
  | some group => group.complete

/-- `slot_ready` -/
def ready (slot : Slot) : Bool :=
  slot.group.isNone && if slot.compensating then slot.saga.execution.state == .ready
    else slot.execution.state == .ready

/-- `slot_prepared` -/
def prepared (slot : Slot) : Bool :=
  slot.group.isNone && if slot.compensating then slot.saga.execution.state == .prepared
    else slot.execution.state == .prepared

/-- `slot_sent` -/
def sent (slot : Slot) : Bool :=
  slot.group.isNone && if slot.compensating then slot.saga.execution.state == .sent
    else slot.execution.state == .sent

end Slot

/-- Something that left the daemon. -/
inductive Effect where
  | journal (record : Journal.Record)
  | token (record : Compensation.Record)
  | result (record : ResultStore.Record)
  | saga (record : Saga.Log.Record)
  | invoke (connection : Nat) (packet : Bytes)
  deriving DecidableEq, Repr

/-- The part of `hermas_daemon_loop` that all slots share. `progress` is the count that a poll
hands back. -/
structure Shared where
  workflowId : UInt32
  imageFingerprint : UInt64
  registry : Registry
  journal : Journal.Writer
  results : ResultStore.Writer
  compensation : Compensation.Writer
  sagaLog : Saga.Log.Writer
  progress : Nat := 0
  history : List Effect := []

/-- The loop at one of its slots. -/
structure AtSlot extends Shared where
  slot : Slot

/-- `sizeof(loop->compensation_scratch)` -/
def scratchCapacity : Nat := Compensation.headerSize + Protocol.maxPayloadSize

/-- What the socket does with a packet. -/
inductive SendOutcome where
  | sent | wouldBlock | failed
  deriving DecidableEq, Repr

/-- What a read from the socket gives; a packet that does not fit fails. -/
inductive Received where
  | wouldBlock | failed
  | packet (bytes : Bytes)
  deriving DecidableEq, Repr

namespace AtSlot

def setSlot (w : AtSlot) (f : Slot → Slot) : AtSlot := { w with slot := f w.slot }

def setGroup (w : AtSlot) (group : GroupExecution) : AtSlot :=
  w.setSlot fun slot => { slot with group := some group }

def setDelivery (w : AtSlot) (i : FlowIndex) (f : Delivery → Delivery) : AtSlot :=
  w.setSlot fun slot => { slot with
    groupDeliveries := Function.update slot.groupDeliveries i (f (slot.groupDeliveries i)) }

/-- `++*progress_count` -/
def advance (w : AtSlot) : AtSlot := { w with progress := w.progress + 1 }

/-- `drop_action` -/
def dropAction (w : AtSlot) (appId actionId : UInt16) : AtSlot :=
  { w with registry := w.registry.dropAction appId actionId }

/-- A packet that was written completely. -/
def invoked (w : AtSlot) (connection : Nat) (packet : Bytes) : AtSlot :=
  { w with history := w.history ++ [Effect.invoke connection packet] }

/-! ## Records -/

/-- `hermas_journal_writer_append` on the loop's journal. -/
def journalRecord (record : Journal.Record) (w : AtSlot) : Call LoopResult AtSlot :=
  match w.journal.append record with
  | .error _ => Call.report .journalError w
  | .ok journal => Call.done { w with
      journal
      history := w.history ++ [Effect.journal { record with sequence := w.journal.nextSequence }] }

/-- `append_record` -/
def appendRecord (kind : Journal.Kind) (outcome : Outcome) (action : Bool) (w : AtSlot) :
    Call LoopResult AtSlot :=
  w.journalRecord {
    kind
    outcome
    executionId := w.slot.executionId
    workflowId := w.workflowId
    requestId := if action then w.slot.requestId else 0
    nodeId := if action then w.slot.nodeId else 0
    appId := if action then w.slot.appId else 0
    actionId := if action then w.slot.actionId else 0
    imageFingerprint := w.imageFingerprint }

/-- `append_group_record` -/
def appendGroupRecord (i : FlowIndex) (kind : Journal.Kind) (outcome : Outcome) (w : AtSlot) :
    Call LoopResult AtSlot :=
  let delivery := w.slot.groupDeliveries i
  w.journalRecord {
    kind
    outcome
    executionId := w.slot.executionId
    workflowId := w.workflowId
    requestId := delivery.requestId
    nodeId := delivery.nodeId
    appId := delivery.appId
    actionId := delivery.actionId
    imageFingerprint := w.imageFingerprint }

/-- The result that a client is handed, while the execution is complete. -/
def finalResult (w : AtSlot) : Except RuntimeResult Frame :=
  match w.slot.group with
  | none => w.slot.execution.getResult
  | some group => group.getResult

/-- `append_finished_if_complete` -/
def appendFinishedIfComplete (w : AtSlot) : Call LoopResult AtSlot :=
  let finish (outcome : Outcome) : Call LoopResult AtSlot :=
    (w.appendRecord .executionFinished outcome false).andThen fun w =>
      Call.done (w.setSlot fun slot => { slot with journalFinished := true })
  if ¬ w.slot.complete ∨ w.slot.journalFinished then Call.done w
  else
    match w.slot.group with
    | none => finish w.slot.execution.terminalOutcome
    | some group =>
        match group.getResult with
        | .error _ => Call.report .runtimeError w
        | .ok result => finish result.outcome

/-- `append_result_if_complete` -/
def appendResultIfComplete (w : AtSlot) : Call LoopResult AtSlot :=
  if ¬ w.slot.complete ∨ w.slot.resultStored then Call.done w
  else
    match w.finalResult with
    | .error _ => Call.report .runtimeError w
    | .ok final =>
        if ¬ Execution.typedOutcome final.outcome then Call.done w
        else
          let record : ResultStore.Record := {
            sequence := w.results.nextSequence
            key := {
              executionId := w.slot.executionId
              workflowId := w.workflowId
              imageFingerprint := w.imageFingerprint }
            outcome := final.outcome
            sourceType := final.sourceType
            destinationType := final.destinationType
            value := final.payload }
          match w.results.append record scratchCapacity with
          | .error _ => Call.report .resultError w
          | .ok results => Call.done
              ({ w with results, history := w.history ++ [Effect.result record] }.setSlot
                fun slot => { slot with resultStored := true })

/-! ## Compensation -/

/-- `saga_route` -/
structure SagaRoute where
  compensationApp : UInt16
  compensationAction : UInt16
  sourceType : UInt16
  destinationType : UInt16
  ordinal : UInt16
  deriving DecidableEq, Repr

/-- `find_saga_route` -/
def findSagaRoute (image : Image) (node : UInt16) : Option SagaRoute :=
  (image.tables.regions.find? fun region =>
    region.readU8 0 == 3 && region.readU16 2 == node).map fun region =>
      { compensationApp := region.readU16 4
        compensationAction := region.readU16 6
        sourceType := region.readU16 8
        destinationType := region.readU16 10
        ordinal := region.readU16 12 }

/-- What a call of the saga driver leaves behind. -/
def setSaga (w : AtSlot) (driver : Saga.Driver) (log : Saga.Log.Writer) : AtSlot :=
  { w with
    sagaLog := log
    history := w.history ++ (log.written.drop w.sagaLog.written.length).map Effect.saga }.setSlot
      fun slot => { slot with saga := driver }

/-- A call of the saga driver of the slot. -/
def drive (w : AtSlot) (call : Saga.Driver → Saga.Log.Writer → Saga.Driver.Outcome) :
    Saga.Result × AtSlot :=
  let (result, driver, log) := call w.slot.saga w.sagaLog
  (result, w.setSaga driver log)

/-- A call of the saga driver that has to succeed. -/
def driveOk (w : AtSlot) (call : Saga.Driver → Saga.Log.Writer → Saga.Driver.Outcome) :
    Call LoopResult AtSlot :=
  match w.drive call with
  | (.ok, w) => Call.done w
  | (_, w) => Call.report .compensationError w

/-- `fail_compensation` -/
def failCompensation (w : AtSlot) (outcome : Outcome) : AtSlot :=
  w.setSlot fun slot => { slot with
    compensating := false
    execution := { slot.execution with
      terminalOutcome := if outcome = .notSent then .notSent else .unknown
      value := []
      valueSourceType := 0
      valueDestinationType := 0 } }

variable (image : Image)

/-- `begin_live_compensation` -/
def beginLiveCompensation (outcome : Outcome) (w : AtSlot) : Call LoopResult AtSlot :=
  if w.slot.sagaSuccessCount = 0 then Call.done w
  else if w.slot.requestId = uint64Max then Call.report .compensationError w
  else
    match Saga.beginLive image w.compensation.file w.imageFingerprint
      w.slot.execution.executionId w.workflowId outcome w.slot.sagaForwardRequests
      w.slot.sagaSuccessCount (w.slot.requestId + 1) with
    | .error _ => Call.report .compensationError w
    | .ok execution =>
        (w.driveOk fun driver log => driver.start execution log false).andThen fun w =>
          Call.done (w.setSlot fun slot => { slot with compensating := true })

/-- `append_compensation_token` -/
def appendCompensationToken (result : Frame) (w : AtSlot) : Call LoopResult AtSlot :=
  match findSagaRoute image w.slot.nodeId with
  | none => Call.done w
  | some route =>
      if result.sourceType ≠ route.sourceType then Call.report .compensationError w
      else
        let record : Compensation.Record := {
          sequence := w.compensation.nextSequence
          key := {
            executionId := w.slot.execution.executionId
            workflowId := w.workflowId
            requestId := w.slot.requestId
            nodeId := w.slot.nodeId
            imageFingerprint := w.imageFingerprint }
          compensationAppId := route.compensationApp
          compensationActionId := route.compensationAction
          sourceType := route.sourceType
          destinationType := route.destinationType
          token := result.payload }
        match w.compensation.append record scratchCapacity with
        | .error _ => Call.report .compensationError w
        | .ok compensation =>
            let w := { w with compensation, history := w.history ++ [Effect.token record] }
            if route.ordinal = 0 ∨ Saga.maxSteps < route.ordinal.toNat then
              Call.report .compensationError w
            else
              Call.done (w.setSlot fun slot => { slot with
                sagaForwardRequests := Function.update slot.sagaForwardRequests
                  (Fin.ofNat Saga.maxSteps (route.ordinal.toNat - 1)) slot.requestId
                sagaSuccessCount := max slot.sagaSuccessCount route.ordinal.toNat })

end AtSlot

end Hermas.Daemon
