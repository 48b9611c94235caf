import Hermas.Daemon.Deliver

/-!
# The daemon loop

Sixteen slots, two of which may run group executions. A poll goes through its
slots three times, to prepare, to reconcile and to assign actions to deliveries;
then it polls the connections of the deliveries that own their action and serves
them one by one.
-/

namespace Hermas

/-- `hermas_graph_features`, a flag for each bit. -/
structure Image.Features where
  action : Bool
  matchNode : Bool
  within : Bool
  saga : Bool
  all : Bool
  each : Bool
  deriving DecidableEq, Repr

/-- `hermas_image_features` -/
def Image.features (image : Image) : Image.Features :=
  let node (kind : UInt8) : Bool := image.tables.nodes.any (·.kind == kind)
  let region (kind : UInt8) : Bool := image.tables.regions.any (·.readU8 0 == kind)
  { action := node 1
    matchNode := node 3
    within := region 1
    saga := region 3 || region 4
    all := node 4 || node 5
    each := region 2 }

namespace Daemon

/-- `hermas_daemon_supported_graph_features` -/
def supportedGraphFeatures : Image.Features where
  action := true
  matchNode := true
  within := true
  saga := true
  all := true
  each := true

/-- `required & ~supported` is empty. -/
def covers (supported required : Image.Features) : Bool :=
  (!required.action || supported.action) && (!required.matchNode || supported.matchNode) &&
    (!required.within || supported.within) && (!required.saga || supported.saga) &&
    (!required.all || supported.all) && (!required.each || supported.each)

/-- `hermas_daemon_image_check` -/
def imageCheck (image : Image) : LoopResult :=
  let required := image.features
  if ¬ covers supportedGraphFeatures required then .unsupportedGraph
  else if required.all ∧ required.saga then .unsupportedGraph
  else .ok

/-- The image needs a group arena. -/
def grouped (image : Image) : Bool := image.features.all || image.features.each

/-- `hermas_daemon_loop`. The executions in the group arena are in the slots that use them. -/
structure Loop extends Shared where
  slots : SlotIndex → Slot := fun _ => {}
  groupUsed : Fin maxGroupExecutions → Bool := fun _ => false
  schedulerCursor : Nat := 0
  minimumExecutionId : UInt64 := 0

namespace Loop

variable (image : Image) (bound : Nat)

/-- The loop at a slot. -/
def view (loop : Loop) (i : SlotIndex) : AtSlot := { loop.toShared with slot := loop.slots i }

/-- The loop behind what was done at a slot. -/
def put (loop : Loop) (i : SlotIndex) (w : AtSlot) : Loop :=
  { loop with toShared := w.toShared, slots := Function.update loop.slots i w.slot }

/-- A function that serves one slot. -/
def onSlot (i : SlotIndex) (call : AtSlot → Call LoopResult AtSlot) (loop : Loop) :
    Call LoopResult Loop :=
  (call (loop.view i)).map fun (result, w) => (result, loop.put i w)

/-- The slots from the cursor on. -/
def turn (cursor : Nat) : List SlotIndex :=
  (List.range maxExecutions).map fun step =>
    ⟨(cursor + step) % maxExecutions, Nat.mod_lt _ (by decide)⟩

/-- `find_execution` -/
def findExecution (loop : Loop) (executionId : UInt64) : Option SlotIndex :=
  firstIndex fun i => (loop.slots i).active && (loop.slots i).executionId == executionId

/-! ## A poll -/

/-- `prepare_ready` -/
def prepareReady (loop : Loop) : Call LoopResult Loop :=
  (Call.each (fun i => onSlot i (AtSlot.prepareSlot image)) (turn loop.schedulerCursor) loop).andThen
    fun loop => Call.done { loop with
      schedulerCursor := (loop.schedulerCursor + 1) % maxExecutions }

/-- `reconcile_missing_actions` -/
def reconcileMissingActions (loop : Loop) : Call LoopResult Loop :=
  Call.each (fun i => onSlot i (AtSlot.reconcileSlot image bound)) (List.finRange maxExecutions) loop

/-- The flows belong to one each region. -/
def sameRegion (slot : Slot) (a b : FlowIndex) : Bool :=
  slot.group.any fun group =>
    (group.flows a).eachRegion != 0 && (group.flows a).eachRegion == (group.flows b).eachRegion

/-- `action_owned_by_other`; the candidate is a slot, or a delivery of a grouped slot. -/
def actionOwnedByOther (loop : Loop) (candidate : SlotIndex) (candidateFlow : Option FlowIndex)
    (appId actionId : UInt16) : Bool :=
  (List.finRange maxExecutions).any fun i =>
    let slot := loop.slots i
    slot.active &&
      if slot.group.isNone then
        i != candidate && slot.ownsAction && slot.appId == appId && slot.actionId == actionId
      else
        (List.finRange maxFlows).any fun flow =>
          let delivery := slot.groupDeliveries flow
          !(i == candidate && candidateFlow == some flow) && delivery.ownsAction &&
            delivery.appId == appId && delivery.actionId == actionId &&
            !(i == candidate && candidateFlow.any fun other => sameRegion slot other flow)

/-- One slot in the first half of `assign_available_actions` -/
def assignSlot (loop : Loop) (i : SlotIndex) : Loop :=
  let slot := loop.slots i
  if ¬ slot.active ∨ slot.ownsAction ∨ ¬ slot.prepared ∨
      (loop.registry.findAction slot.appId slot.actionId).isNone ∨
      loop.actionOwnedByOther i none slot.appId slot.actionId then
    loop
  else loop.put i ((loop.view i).setSlot fun slot => { slot with ownsAction := true })

/-- One flow in the second half. -/
def assignFlow (i : SlotIndex) (loop : Loop) (flow : FlowIndex) : Loop :=
  let slot := loop.slots i
  match slot.group with
  | none => loop
  | some group =>
      let delivery := slot.groupDeliveries flow
      if ¬ slot.active ∨ (group.flows flow).active = false ∨
          (group.flows flow).state ≠ .prepared ∨ delivery.ownsAction ∨
          (loop.registry.findAction delivery.appId delivery.actionId).isNone ∨
          loop.actionOwnedByOther i (some flow) delivery.appId delivery.actionId then
        loop
      else
        loop.put i ((loop.view i).setDelivery flow fun delivery => { delivery with ownsAction := true })

/-- `assign_available_actions` -/
def assignAvailableActions (loop : Loop) : Loop :=
  let order := turn loop.schedulerCursor
  order.foldl (fun loop i => (List.finRange maxFlows).foldl (assignFlow i) loop)
    (order.foldl assignSlot loop)

/-- An item of the poll: a slot, or a flow of a grouped slot. -/
structure PollItem where
  slot : SlotIndex
  flow : Option FlowIndex
  deriving DecidableEq, Repr

/-- The items of a slot. -/
def slotItems (loop : Loop) (i : SlotIndex) : List PollItem :=
  let slot := loop.slots i
  if ¬ slot.active then []
  else
    match slot.group with
    | some group =>
        ((List.finRange maxFlows).filter fun flow =>
          let delivery := slot.groupDeliveries flow
          delivery.ownsAction && (group.flows flow).active &&
            ((group.flows flow).state == .prepared || (group.flows flow).state == .sent) &&
            (loop.registry.findAction delivery.appId delivery.actionId).isSome).map fun flow =>
              { slot := i, flow := some flow }
    | none =>
        if slot.ownsAction ∧ (loop.registry.findAction slot.appId slot.actionId).isSome then
          [{ slot := i, flow := none }]
        else []

/-- What a poll waits for; there is room for `HERMAS_DAEMON_MAX_ACTIONS` items. -/
def collectItems (loop : Loop) : List PollItem :=
  (List.finRange maxExecutions).flatMap loop.slotItems

/-- What `poll` and the sockets do for one item. -/
structure Event where
  pollOut : Bool := false
  pollIn : Bool := false
  /-- `POLLERR | POLLHUP | POLLNVAL` -/
  fault : Bool := false
  send : SendOutcome := .sent
  received : Received := .wouldBlock
  deriving DecidableEq, Repr

/-- An item of a grouped slot. -/
def serveFlow (event : Event) (i : FlowIndex) (w : AtSlot) : Call LoopResult AtSlot :=
  match w.slot.group with
  | none => Call.done w
  | some group =>
      let state := (group.flows i).state
      if event.pollOut ∧ state = .prepared then w.sendGroupInvocation image bound event.send i
      else if event.pollIn ∧ state = .sent then w.receiveGroupResult image bound event.received i
      else if event.fault then
        if state = .prepared then w.sendGroupInvocation image bound event.send i
        else w.receiveGroupResult image bound event.received i
      else Call.done w

/-- An item of a sequential slot. -/
def serveSlot (event : Event) (w : AtSlot) : Call LoopResult AtSlot :=
  if event.pollOut ∧ w.slot.prepared then w.sendInvocation image event.send
  else if event.pollIn ∧ w.slot.sent then w.receiveResult image event.received
  else if event.fault then
    if w.slot.prepared then w.sendInvocation image event.send
    else w.receiveResult image event.received
  else Call.done w

/-- One item of a poll. -/
def serve (item : PollItem) (event : Event) (loop : Loop) : Call LoopResult Loop :=
  match item.flow with
  | some flow => onSlot item.slot (serveFlow image bound event flow) loop
  | none => onSlot item.slot (serveSlot image event) loop

/-- `hermas_daemon_loop_poll`; the events are given for each item in order. -/
def poll (events : PollItem → Event) (loop : Loop) : Call LoopResult Loop :=
  (({ loop with progress := 0 } : Loop).prepareReady image).andThen fun loop =>
    (loop.reconcileMissingActions image bound).andThen fun loop =>
      let loop := loop.assignAvailableActions
      if maxActions < loop.collectItems.length then Call.report .capacityExhausted loop
      else Call.each (fun item => serve image bound item (events item)) loop.collectItems loop

/-! ## Calls of the control server -/

/-- A slot that is filled and takes up its execution. -/
def admitSlot (i : SlotIndex) (slot : Slot) (used : Fin maxGroupExecutions → Bool)
    (loop : Loop) : Call LoopResult Loop :=
  match ({ loop.toShared with slot } : AtSlot).appendRecord .executionStarted .none false with
  | none => none
  | some (.ok, w) =>
      let admitted := loop.put i (w.setSlot fun slot => { slot with active := true })
      Call.done { admitted with
        groupUsed := used
        minimumExecutionId := if loop.minimumExecutionId ≠ 0 then slot.executionId + 1 else 0 }
  | some (failed, _) => Call.report failed { loop with slots := Function.update loop.slots i {} }

/-- `hermas_daemon_loop_admit` -/
def admitExecution (executionId : UInt64) (inputType : UInt16) (input : Bytes) (loop : Loop) :
    Call LoopResult Loop :=
  if executionId = 0 ∨ executionId = uint64Max then Call.report .invalidArgument loop
  else if loop.minimumExecutionId ≠ 0 ∧ executionId < loop.minimumExecutionId then
    Call.report .duplicateExecution loop
  else if (loop.findExecution executionId).isSome then Call.report .duplicateExecution loop
  else
    match firstIndex fun i => !(loop.slots i).active with
    | none => Call.report .capacityExhausted loop
    | some i =>
        let cleared := { loop with slots := Function.update loop.slots i {} }
        if grouped image then
          match firstIndex fun g => !loop.groupUsed g with
          | none => Call.report .capacityExhausted cleared
          | some g =>
              match GroupExecution.start image bound executionId
                (maxFlows * Protocol.maxPayloadSize) Protocol.maxPayloadSize inputType input with
              | none => none
              | some (.error _) => Call.report .runtimeError cleared
              | some (.ok group) =>
                  admitSlot i { group := some group, groupIndex := g }
                    (Function.update loop.groupUsed g true) loop
        else
          match Execution.start image executionId Protocol.maxPayloadSize inputType input with
          | .error _ => Call.report .runtimeError cleared
          | .ok execution => admitSlot i { execution } loop.groupUsed loop

/-- `hermas_daemon_loop_result` -/
def result (loop : Loop) (executionId : UInt64) : Except LoopResult Frame :=
  if executionId = 0 then .error .invalidArgument
  else
    match loop.findExecution executionId with
    | none => .error .unknownExecution
    | some i =>
        if (loop.slots i).compensating then .error .executionActive
        else (loop.view i).finalResult.mapError fun _ => .executionActive

/-- `hermas_daemon_loop_release` -/
def release (executionId : UInt64) (loop : Loop) : Call LoopResult Loop :=
  if executionId = 0 then Call.report .invalidArgument loop
  else
    match loop.findExecution executionId with
    | none => Call.report .unknownExecution loop
    | some i =>
        let slot := loop.slots i
        if ¬ slot.complete ∨ slot.compensating then Call.report .executionActive loop
        else Call.done { loop with
          slots := Function.update loop.slots i {}
          groupUsed :=
            if slot.group.isSome then Function.update loop.groupUsed slot.groupIndex false
            else loop.groupUsed }

/-! ## Compensations that are taken up again -/

/-- `recovered_failure_matches` -/
def recoveredFailureMatches (execution : Saga.Execution) (result : ResultStore.Record) : Bool :=
  decide (execution.completedSteps < execution.stepCount) &&
    (image.tables.edges.find? fun edge => edge.sourceKind == 2 &&
      edge.sourceNode == (execution.step (execution.completedSteps + 1)).forwardNode).any fun edge =>
        result.sourceType == edge.sourceType && result.destinationType == edge.targetType

/-- The stored result of an execution whose compensation is resumed after an app error. -/
def recoveredResult (execution : Saga.Execution) (loop : Loop) : Option ResultStore.Record :=
  match ResultStore.find loop.results.file
    { executionId := execution.executionId
      workflowId := execution.workflowId
      imageFingerprint := execution.imageFingerprint } Protocol.maxPayloadSize with
  | .ok (some result) =>
      if result.outcome = execution.originalOutcome ∧
          recoveredFailureMatches image execution result ∧
          image.validateValue result.sourceType result.value ∧
          image.validateValue result.destinationType result.value then
        some result
      else none
  | _ => none

/-- The slot of a compensation that is resumed. -/
def resumedSlot (driver : Saga.Driver) (result : Option ResultStore.Record) : Slot where
  saga := driver
  execution := {
    valueCapacity := Protocol.maxPayloadSize
    executionId := driver.execution.executionId
    requestId := 0
    value := (result.map (·.value)).getD []
    valueSourceType := (result.map (·.sourceType)).getD 0
    valueDestinationType := (result.map (·.destinationType)).getD 0
    terminalOutcome := (result.map (·.outcome)).getD .unknown
    state := .complete }
  active := true
  journalFinished := true
  resultStored := (result.map (·.outcome)).getD .unknown != .unknown
  compensating := true

/-- `hermas_daemon_loop_resume_saga` -/
def resumeSaga (execution : Saga.Execution) (loop : Loop) : Call LoopResult Loop :=
  if execution.state ≠ .ready ∨ execution.remaining = 0 ∨ execution.executionId = 0 ∨
      execution.workflowId ≠ loop.workflowId ∨
      execution.imageFingerprint ≠ loop.imageFingerprint ∨
      (loop.findExecution execution.executionId).isSome then
    Call.report .invalidArgument loop
  else
    match firstIndex fun i => !(loop.slots i).active with
    | none => Call.report .capacityExhausted loop
    | some i =>
        let cleared := { loop with slots := Function.update loop.slots i {} }
        match Saga.Driver.start {} execution loop.sagaLog true with
        | (.ok, driver, _) =>
            if execution.originalOutcome = .appError then
              match recoveredResult image execution loop with
              | none => Call.report .resultError cleared
              | some result =>
                  Call.done { loop with
                    slots := Function.update loop.slots i (resumedSlot driver (some result)) }
            else
              Call.done { loop with
                slots := Function.update loop.slots i (resumedSlot driver none) }
        | _ => Call.report .compensationError cleared

end Loop

end Daemon

end Hermas
