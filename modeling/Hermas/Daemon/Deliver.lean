import Hermas.Daemon.Slot

/-!
# Deliveries of one slot

What the loop does for the deliveries of a slot: prepare what is ready, send what
is prepared, receive what was sent, and give up what lost its connection. Every
function changes the interpreter and the journal in the order of the source,
which is not the same order everywhere.
-/

namespace Hermas.Daemon

namespace AtSlot

variable (image : Image) (bound : Nat)

/-! ## Group executions -/

/-- Continue with what a call of the group interpreter reports and leaves behind. -/
def runGroup (w : AtSlot) (call : Call RuntimeResult GroupExecution)
    (next : RuntimeResult → AtSlot → Call LoopResult AtSlot) : Call LoopResult AtSlot :=
  match call with
  | none => none
  | some (result, group) => next result (w.setGroup group)

/-- `finish_group_transition` -/
def finishGroupTransition (w : AtSlot) : Call LoopResult AtSlot :=
  w.appendResultIfComplete.andThen appendFinishedIfComplete

/-- One flow in `prepare_ready` -/
def prepareFlow (i : FlowIndex) (w : AtSlot) : Call LoopResult AtSlot :=
  match w.slot.group with
  | none => Call.done w
  | some group =>
      if (group.flows i).active = false ∨ (group.flows i).state ≠ .ready then Call.done w
      else
        match group.prepare image i with
        | .error .invalidState => Call.done w
        | .error _ => Call.report .runtimeError w
        | .ok (invocation, group') =>
            let w := (w.setGroup group').setDelivery i fun _ =>
              { requestId := invocation.requestId
                nodeId := (group.flows i).currentNode
                appId := invocation.appId
                actionId := invocation.actionId }
            (w.appendGroupRecord i .deliveryPrepared .none).andThen fun w => Call.done w.advance

/-- The end of a delivery that is closed: the action is free again. -/
def settleFlow (i : FlowIndex) (w : AtSlot) : Call LoopResult AtSlot :=
  (w.setDelivery i fun delivery => { delivery with ownsAction := false }).finishGroupTransition.andThen
    fun w => Call.done w.advance

/-- A sent delivery whose connection is gone, in `receive_group_result`. -/
def loseFlow (i : FlowIndex) (w : AtSlot) : Call LoopResult AtSlot :=
  match w.slot.group with
  | none => Call.done w
  | some group =>
      (w.appendGroupRecord i .actionUnknown .unknown).andThen fun w =>
        w.runGroup (group.markUnknown image bound i) fun result w =>
          if result ≠ .ok then Call.report .runtimeError w else w.settleFlow i

/-- One flow in `reconcile_missing_actions` -/
def reconcileFlow (i : FlowIndex) (w : AtSlot) : Call LoopResult AtSlot :=
  let delivery := w.slot.groupDeliveries i
  match w.slot.group with
  | none => Call.done w
  | some group =>
      if ¬ delivery.ownsAction ∨
          (w.registry.findAction delivery.appId delivery.actionId).isSome then
        Call.done w
      else
        let w := w.setDelivery i fun delivery => { delivery with ownsAction := false }
        if (group.flows i).active ∧ (group.flows i).state = .sent then
          (w.appendGroupRecord i .actionUnknown .unknown).andThen fun w =>
            w.runGroup (group.markUnknown image bound i) fun result w =>
              if result ≠ .ok then Call.report .runtimeError w
              else w.finishGroupTransition.andThen fun w => Call.done w.advance
        else Call.done w

/-- `send_group_invocation`, with what the socket does. -/
def sendGroupInvocation (outcome : SendOutcome) (i : FlowIndex) (w : AtSlot) :
    Call LoopResult AtSlot :=
  let delivery := w.slot.groupDeliveries i
  match w.slot.group with
  | none => Call.done w
  | some group =>
      match w.registry.findAction delivery.appId delivery.actionId with
      | none => Call.done (w.setDelivery i fun delivery => { delivery with ownsAction := false })
      | some (connection, registeredActionId) =>
          let flow := group.flows i
          match Protocol.encode
            { kind := .invoke
              executionId := group.executionId
              requestId := delivery.requestId
              appId := delivery.appId
              actionId := registeredActionId
              sourceType := flow.valueSourceType
              destinationType := flow.valueDestinationType
              payload := flow.value } Protocol.maxPacketSize with
          | .error _ => Call.report .protocolError w
          | .ok packet =>
              match outcome with
              | .wouldBlock => Call.done w
              | .sent =>
                  ((w.invoked connection packet).appendGroupRecord i .deliverySent .none).andThen
                    fun w =>
                      match group.markSent i with
                      | .error _ => Call.report .runtimeError w
                      | .ok group => Call.done (w.setGroup group).advance
              | .failed =>
                  (w.appendGroupRecord i .actionFailed .notSent).andThen fun w =>
                    w.runGroup (group.markNotSent image bound i) fun result w =>
                      if result ≠ .ok then Call.report .runtimeError w
                      else
                        let w := w.setDelivery i fun delivery =>
                          { delivery with ownsAction := false }
                        (w.dropAction delivery.appId delivery.actionId).finishGroupTransition.andThen
                          fun w => Call.done w.advance

/-- The flow whose delivery a received packet answers, and the result with the action id of the
contract. The packet may come in for another delivery of the same action. -/
def matchingFlow (w : AtSlot) (group : GroupExecution) (delivery : Delivery)
    (registeredActionId : UInt16) (packet : Bytes) : Option (FlowIndex × Frame) :=
  match Protocol.decode packet with
  | .error _ => none
  | .ok result =>
      if result.actionId ≠ registeredActionId then none
      else
        (firstIndex fun candidate =>
          let flow := group.flows candidate
          let other := w.slot.groupDeliveries candidate
          flow.active && flow.state == .sent && other.ownsAction &&
            other.appId == delivery.appId && other.actionId == delivery.actionId &&
            flow.requestId == result.requestId).map fun candidate =>
              (candidate, { result with
                actionId := (w.slot.groupDeliveries candidate).actionId })

/-- A delivery that is given up with its connection, from what the interpreter last was. -/
def refuseFlow (i : FlowIndex) (w : AtSlot) : Call LoopResult AtSlot :=
  let delivery := w.slot.groupDeliveries i
  match w.slot.group with
  | none => Call.done w
  | some group =>
      match w.appendGroupRecord i .actionUnknown .unknown with
      | none => none
      | some (.ok, w) =>
          w.runGroup (group.markUnknown image bound i) fun result w =>
            if result ≠ .ok then Call.report .runtimeError w
            else (w.dropAction delivery.appId delivery.actionId).settleFlow i
      | some (failed, w) => Call.report failed (w.dropAction delivery.appId delivery.actionId)

/-- `receive_group_result`, with what the socket gives. -/
def receiveGroupResult (received : Received) (i : FlowIndex) (w : AtSlot) :
    Call LoopResult AtSlot :=
  let delivery := w.slot.groupDeliveries i
  match w.slot.group with
  | none => Call.done w
  | some group =>
      match w.registry.findAction delivery.appId delivery.actionId with
      | none => w.loseFlow image bound i
      | some (_, registeredActionId) =>
          match received with
          | .wouldBlock => Call.done w
          | .failed => w.refuseFlow image bound i
          | .packet packet =>
              match w.matchingFlow group delivery registeredActionId packet with
              | none => w.refuseFlow image bound i
              | some (j, result) =>
                  w.runGroup (group.acceptResult image bound j result) fun accepted w =>
                    if accepted = .ok then
                      (w.appendGroupRecord j
                        (if result.outcome = .success then .actionSucceeded else .actionFailed)
                        result.outcome).andThen (settleFlow j)
                    else w.refuseFlow image bound j

/-! ## Sequential executions and compensations -/

/-- The delivery that an invocation starts. -/
def setInvocation (w : AtSlot) (invocation : Frame) (packet : Bytes) (nodeId : UInt16) : AtSlot :=
  w.setSlot fun slot => { slot with
    packet
    appId := invocation.appId
    actionId := invocation.actionId
    nodeId
    requestId := invocation.requestId }

/-- A compensation in `prepare_ready` -/
def prepareCompensation (w : AtSlot) : Call LoopResult AtSlot :=
  let (invocation, outcome) := w.slot.saga.prepare image w.compensation.file
    Protocol.maxPayloadSize w.sagaLog
  let (result, w) := w.drive fun _ _ => outcome
  match invocation, result with
  | some invocation, .ok =>
      match Protocol.encode invocation Protocol.maxPacketSize with
      | .error _ => Call.report .protocolError w
      | .ok packet =>
          let plan := w.slot.saga.execution
          Call.done (w.setInvocation invocation packet (plan.step plan.remaining).forwardNode).advance
  | _, _ => Call.report .compensationError w

/-- A sequential execution in `prepare_ready` -/
def prepareExecution (w : AtSlot) : Call LoopResult AtSlot :=
  match w.slot.execution.prepare image with
  | .error _ => Call.report .runtimeError w
  | .ok (invocation, execution) =>
      let w := w.setSlot fun slot => { slot with execution }
      match Protocol.encode invocation Protocol.maxPacketSize with
      | .error _ => Call.report .protocolError w
      | .ok packet =>
          ((w.setInvocation invocation packet execution.currentNode).appendRecord .deliveryPrepared
            .none true).andThen fun w => Call.done w.advance

/-- One slot in `prepare_ready` -/
def prepareSlot (w : AtSlot) : Call LoopResult AtSlot :=
  if ¬ w.slot.active then Call.done w
  else if w.slot.group.isSome then Call.each (prepareFlow image) (List.finRange maxFlows) w
  else if ¬ w.slot.ready then Call.done w
  else if w.slot.compensating then w.prepareCompensation image
  else w.prepareExecution image

/-- Continue with the sequential interpreter's call. -/
def runExecution (w : AtSlot) (call : RuntimeResult × Execution)
    (next : RuntimeResult → AtSlot → Call LoopResult AtSlot) : Call LoopResult AtSlot :=
  next call.1 (w.setSlot fun slot => { slot with execution := call.2 })

def releaseAction (w : AtSlot) : AtSlot :=
  w.setSlot fun slot => { slot with ownsAction := false }

/-- A compensation whose connection is gone. -/
def loseCompensation (w : AtSlot) : Call LoopResult AtSlot :=
  (w.driveOk Saga.Driver.markUnknown).andThen fun w =>
    Call.done ((w.releaseAction).failCompensation .unknown).advance

/-- A sequential delivery whose connection is gone. -/
def loseExecution (w : AtSlot) : Call LoopResult AtSlot :=
  (w.appendRecord .actionUnknown .unknown true).andThen fun w =>
    w.runExecution (w.slot.execution.markUnknown image) fun result w =>
      if result ≠ .ok then Call.report .runtimeError w
      else w.releaseAction.appendFinishedIfComplete.andThen fun w => Call.done w.advance

/-- One slot in `reconcile_missing_actions` -/
def reconcileSlot (w : AtSlot) : Call LoopResult AtSlot :=
  if ¬ w.slot.active then Call.done w
  else if w.slot.group.isSome then
    Call.each (reconcileFlow image bound) (List.finRange maxFlows) w
  else if ¬ w.slot.ownsAction ∨ (w.registry.findAction w.slot.appId w.slot.actionId).isSome then
    Call.done w
  else if ¬ w.slot.sent then Call.done w.releaseAction
  else if w.slot.compensating then w.releaseAction.loseCompensation
  else w.releaseAction.loseExecution image

/-- The packet with the action id that the app registered. -/
def patchActionId (packet : Bytes) (registeredActionId : UInt16) : Bytes :=
  packet.take 34 ++ Bytes.writeU16 registeredActionId ++ packet.drop 36

/-- A compensation that could not be sent. -/
def failToSendCompensation (w : AtSlot) : Call LoopResult AtSlot :=
  (w.driveOk Saga.Driver.markNotSent).andThen fun w =>
    Call.done ((w.releaseAction.dropAction w.slot.appId w.slot.actionId).failCompensation
      .notSent).advance

/-- A sequential delivery that could not be sent. -/
def failToSend (w : AtSlot) : Call LoopResult AtSlot :=
  (w.appendRecord .actionFailed .notSent true).andThen fun w =>
    w.runExecution (w.slot.execution.markNotSent image) fun result w =>
      if result ≠ .ok then Call.report .runtimeError w
      else
        ((w.releaseAction.dropAction w.slot.appId w.slot.actionId).appendFinishedIfComplete.andThen
          (beginLiveCompensation image .notSent)).andThen fun w => Call.done w.advance

/-- `send_invocation`, with what the socket does. -/
def sendInvocation (outcome : SendOutcome) (w : AtSlot) : Call LoopResult AtSlot :=
  match w.registry.findAction w.slot.appId w.slot.actionId with
  | none => Call.done w.releaseAction
  | some (connection, registeredActionId) =>
      let w := w.setSlot fun slot => { slot with
        packet := patchActionId slot.packet registeredActionId }
      match outcome with
      | .wouldBlock => Call.done w
      | .sent =>
          let w := w.invoked connection w.slot.packet
          if w.slot.compensating then
            (w.driveOk Saga.Driver.markSent).andThen fun w => Call.done w.advance
          else
            (w.appendRecord .deliverySent .none true).andThen fun w =>
              match w.slot.execution.markSent with
              | .error _ => Call.report .runtimeError w
              | .ok execution => Call.done (w.setSlot fun slot => { slot with execution }).advance
      | .failed => if w.slot.compensating then w.failToSendCompensation else w.failToSend image

/-- The result in a received packet, with the action id of the contract. -/
def decodeResult (w : AtSlot) (registeredActionId : UInt16) (packet : Bytes) : Option Frame :=
  match Protocol.decode packet with
  | .error _ => none
  | .ok result =>
      if result.actionId ≠ registeredActionId then none
      else some { result with actionId := w.slot.actionId }

/-- The result of a compensation. -/
def receiveCompensation (result : Option Frame) (w : AtSlot) : Call LoopResult AtSlot :=
  let settle (w : AtSlot) : Call LoopResult AtSlot := Call.done w.releaseAction.advance
  let refuse (w : AtSlot) : Call LoopResult AtSlot :=
    (w.driveOk Saga.Driver.markUnknown).andThen fun w =>
      settle ((w.dropAction w.slot.appId w.slot.actionId).failCompensation .unknown)
  match result with
  | none => refuse w
  | some result =>
      match w.drive fun driver log => driver.acceptResult image log result with
      | (.ok, w) =>
          if w.slot.saga.execution.state = .complete then
            settle (w.setSlot fun slot => { slot with compensating := false })
          else if w.slot.saga.execution.state = .blocked then
            settle (w.failCompensation w.slot.saga.execution.compensationOutcome)
          else settle w
      | (_, w) => refuse w

/-- The end of a sequential delivery: result, `Finished`, and the compensation of an app error. -/
def settleExecution (appError : Bool) (w : AtSlot) : Call LoopResult AtSlot :=
  (w.releaseAction.appendResultIfComplete.andThen appendFinishedIfComplete).andThen fun w =>
    (if appError then w.beginLiveCompensation image .appError else Call.done w).andThen fun w =>
      Call.done w.advance

/-- A sequential delivery that is given up with its connection. -/
def refuseExecution (w : AtSlot) : Call LoopResult AtSlot :=
  (w.appendRecord .actionUnknown .unknown true).andThen fun w =>
    w.runExecution (w.slot.execution.markUnknown image) fun marked w =>
      if marked ≠ .ok then Call.report .runtimeError w
      else (w.dropAction w.slot.appId w.slot.actionId).settleExecution image false

/-- A result that the sequential interpreter accepted. -/
def recordResult (result : Frame) (w : AtSlot) : Call LoopResult AtSlot :=
  (if result.outcome = .success then w.appendCompensationToken image result
    else Call.done w).andThen fun w =>
      (w.appendRecord (if result.outcome = .success then .actionSucceeded else .actionFailed)
        result.outcome true).andThen fun w =>
          w.settleExecution image (result.outcome == .appError)

/-- The result of a sequential delivery. -/
def receiveExecution (result : Option Frame) (w : AtSlot) : Call LoopResult AtSlot :=
  match result with
  | none => w.refuseExecution image
  | some result =>
      w.runExecution (w.slot.execution.acceptResult image result) fun accepted w =>
        if accepted = .ok then w.recordResult image result else w.refuseExecution image

/-- `receive_result`, with what the socket gives. -/
def receiveResult (received : Received) (w : AtSlot) : Call LoopResult AtSlot :=
  match w.registry.findAction w.slot.appId w.slot.actionId with
  | none => if w.slot.compensating then w.loseCompensation else w.loseExecution image
  | some (_, registeredActionId) =>
      let receive (result : Option Frame) : Call LoopResult AtSlot :=
        if w.slot.compensating then w.receiveCompensation image result
        else w.receiveExecution image result
      match received with
      | .wouldBlock => Call.done w
      | .failed => receive none
      | .packet packet => receive (w.decodeResult registeredActionId packet)

end AtSlot

end Hermas.Daemon
