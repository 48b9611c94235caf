import Hermas.Base.Status
import Hermas.Base.Table
import Hermas.Runtime.Sequential

/-!
# The group interpreter

Eight flow slots move through the image side by side. A fork copies a value into
free slots, a join waits for its branches, an each region feeds the items of a
list through its template action and collects them in order. Entering an edge may
enter further edges; that recursion is the only one, so it is on a bound, and
`none` means that the bound was too small.

A call changes the execution in place and may fail half way. What it leaves
behind is part of its result, except for calls that fail before they write.
-/

namespace Hermas

open Image (Edge Node EachRegion)

instance : Status RuntimeResult := ⟨.ok⟩

def maxFlows : Nat := 8
def maxEachItems : Nat := 256

instance : NeZero maxFlows := ⟨by decide⟩

abbrev FlowIndex := Fin maxFlows

/-- `hermas_flow`; the value is the used part of its buffer. -/
structure Flow where
  value : Bytes := []
  valueCapacity : Nat := 0
  requestId : UInt64 := 0
  currentNode : UInt16 := 0
  valueSourceType : UInt16 := 0
  valueDestinationType : UInt16 := 0
  joinNode : UInt16 := 0
  joinTag : UInt8 := 0
  eachRegion : UInt8 := 0
  itemIndex : Nat := 0
  state : ExecutionState := .empty
  active : Bool := false
  deriving DecidableEq, Repr

/-- `flow->active = 0u` -/
def Flow.released (flow : Flow) : Flow := { flow with active := false }

/-- The flow of an item that was flushed. -/
def Flow.flushed (flow : Flow) : Flow := { flow with active := false, eachRegion := 0 }

/-- A deadline region of the execution. -/
structure DeadlineRegion where
  deadlineMs : UInt64
  firstNode : UInt16
  lastNode : UInt16
  deriving DecidableEq, Repr

/-- An entry into a terminal: the outcome, and the flow as it was. -/
structure TerminalEntry where
  outcome : Outcome
  flow : Flow
  deriving DecidableEq, Repr

/-- `hermas_group_execution`. `entered` is not in the source: it lists every entry into a
terminal, and nothing reads it. -/
structure GroupExecution where
  executionId : UInt64
  nextRequestId : UInt64 := 1
  deadlineMs : UInt64 := 0
  deadlineRegions : List DeadlineRegion := []
  eachRegions : List EachRegion := []
  activeEachRegion : UInt8 := 0
  eachCoordinatorFlow : FlowIndex := 0
  eachItemCount : Nat := 0
  eachNextItem : Nat := 0
  eachCompletedItems : Nat := 0
  eachFlushItem : Nat := 0
  eachItems : List (Nat × Nat) := []
  eachSourceSnapshot : Bytes := []
  eachCollection : Bytes := []
  flows : FlowIndex → Flow
  valueStride : Nat
  pendingOutcome : Outcome := .none
  pendingFlow : FlowIndex := 0
  complete : Bool := false
  entered : List TerminalEntry := []

namespace GroupExecution

/-- Write to one flow. -/
def setFlow (s : GroupExecution) (i : FlowIndex) (f : Flow → Flow) : GroupExecution :=
  { s with flows := Function.update s.flows i (f (s.flows i)) }

/-- `group_has_sent` -/
def hasSent (s : GroupExecution) : Bool :=
  (List.finRange maxFlows).any fun i => (s.flows i).active && (s.flows i).state == .sent

/-- `group_has_active` -/
def hasActive (s : GroupExecution) : Bool :=
  (List.finRange maxFlows).any fun i => (s.flows i).active

/-- `group_maybe_complete` -/
def maybeComplete (s : GroupExecution) : GroupExecution :=
  if s.pendingOutcome = .success ∧ ¬ s.hasActive then { s with complete := true }
  else if s.pendingOutcome ≠ .none ∧ s.pendingOutcome ≠ .success ∧ ¬ s.hasSent then
    { s with complete := true }
  else s

/-- The first half of `group_record_terminal`: the outcome of the highest precedence is kept. -/
def recordOutcome (s : GroupExecution) (i : FlowIndex) (outcome : Outcome) : GroupExecution :=
  let entry : TerminalEntry := { outcome, flow := s.flows i }
  let s := { s with entered := s.entered ++ [entry] }
  let s :=
    if s.pendingOutcome.precedence < outcome.precedence then
      { s with pendingOutcome := outcome, pendingFlow := i }
    else s
  s.setFlow i Flow.released

/-- The cutoff: only deliveries that are already sent go on. -/
def cutOff (s : GroupExecution) : GroupExecution :=
  { s with flows := fun i =>
      if (s.flows i).active ∧ (s.flows i).state ≠ .sent then (s.flows i).released
      else s.flows i }

/-- `group_record_terminal` -/
def recordTerminal (s : GroupExecution) (i : FlowIndex) (outcome : Outcome) : GroupExecution :=
  let s := s.recordOutcome i outcome
  (if outcome ≠ .success then s.cutOff else s).maybeComplete

/-- `group_copy_value` -/
def copyValue (s : GroupExecution) (i : FlowIndex) (value : Bytes) :
    Call RuntimeResult GroupExecution :=
  if (s.flows i).valueCapacity < value.length then Call.report .bufferTooSmall s
  else Call.done (s.setFlow i fun flow => { flow with value })

/-- Each regions are numbered from 1. -/
def eachRegion? (s : GroupExecution) (regionId : UInt8) : Option EachRegion :=
  if regionId = 0 then none else s.eachRegions[regionId.toNat - 1]?

section Bodies

variable (image : Image)
/- `group_enter_edge` with a smaller bound. -/
variable (enter : FlowIndex → Edge → Outcome → GroupExecution → Call RuntimeResult GroupExecution)

/-- `group_each_finish` -/
def eachFinish (s : GroupExecution) : Call RuntimeResult GroupExecution :=
  let regionId := s.activeEachRegion
  match s.eachRegion? regionId with
  | none => Call.report .invalidState s
  | some region =>
      let coordinator := s.eachCoordinatorFlow
      (s.copyValue coordinator s.eachCollection).andThen fun s =>
        if ¬ image.validateValue region.collected (s.flows coordinator).value then
          Call.report .invalidValue s
        else
          let s := s.setFlow coordinator fun flow => { flow with active := true, eachRegion := 0 }
          let s := { s with activeEachRegion := 0 }
          match image.groupFindEdge 9 regionId.toUInt16 0 with
          | none => Call.report .invalidImage s
          | some edge => enter coordinator edge .success s

/-- The flow that holds the next item to be flushed. -/
def flushCandidate (s : GroupExecution) (regionId : UInt8) : Option FlowIndex :=
  firstIndex fun i =>
    (s.flows i).active && (s.flows i).eachRegion == regionId && (s.flows i).state == .waiting &&
      (s.flows i).itemIndex == s.eachFlushItem

/-- The flush loop of `group_each_collect`. Every round frees a flow, so there are at most
`maxFlows` rounds and the bound `maxFlows + 1` is enough. -/
def flushItems (regionId : UInt8) : Nat → GroupExecution → Call RuntimeResult GroupExecution
  | 0, _ => none
  | rounds + 1, s =>
      match s.flushCandidate regionId with
      | none => Call.done s
      | some ready =>
          let item := s.flows ready
          if Protocol.maxPayloadSize - s.eachCollection.length < item.value.length then
            Call.report .bufferTooSmall s
          else
            let s := { s with
              eachCollection := s.eachCollection ++ item.value
              eachFlushItem := s.eachFlushItem + 1 }
            flushItems regionId rounds
              (s.setFlow ready Flow.flushed)

/-- The flows that a region keeps busy. -/
def activeInRegion (s : GroupExecution) (regionId : UInt8) : Nat :=
  (List.finRange maxFlows).countP fun i =>
    (s.flows i).active && (s.flows i).eachRegion == regionId

/-- The first free slot. -/
def freeFlow (s : GroupExecution) : Option FlowIndex :=
  firstIndex fun i => !(s.flows i).active

/-- The admission loop of `group_each_admit`, for a region that is known. -/
def admitItems (regionId : UInt8) (region : EachRegion) :
    Nat → GroupExecution → Call RuntimeResult GroupExecution
  | 0, _ => none
  | rounds + 1, s =>
      if region.concurrency.toNat ≤ s.activeInRegion regionId ∨
          s.eachItemCount ≤ s.eachNextItem then
        Call.done s
      else
        match s.freeFlow with
        | none => Call.report .invalidState s
        | some slot =>
            let itemIndex := s.eachNextItem
            let s := { s with eachNextItem := s.eachNextItem + 1 }
            let s := s.setFlow slot fun flow =>
              { flow with active := true, eachRegion := regionId, itemIndex }
            let item := s.eachItems.getD itemIndex (0, 0)
            (s.copyValue slot (s.eachSourceSnapshot.slice item.1 item.2)).andThen fun s =>
              match image.groupFindEdge 8 regionId.toUInt16 0 with
              | none => Call.report .invalidImage s
              | some edge =>
                  (enter slot edge .none s).andThen fun s => admitItems regionId region rounds s

/-- `group_each_admit` -/
def eachAdmit (rounds : Nat) (s : GroupExecution) : Call RuntimeResult GroupExecution :=
  match s.eachRegion? s.activeEachRegion with
  | none => Call.report .invalidState s
  | some region => admitItems image enter s.activeEachRegion region rounds s

/-- `group_each_collect` -/
def eachCollect (rounds : Nat) (i : FlowIndex) (regionId : UInt8) (s : GroupExecution) :
    Call RuntimeResult GroupExecution :=
  if regionId = 0 ∨ regionId ≠ s.activeEachRegion ∨ (s.flows i).eachRegion ≠ regionId ∨
      s.eachItemCount ≤ (s.flows i).itemIndex then
    Call.report .invalidState s
  else
    let s := s.setFlow i fun flow => { flow with state := .waiting }
    let s := { s with eachCompletedItems := s.eachCompletedItems + 1 }
    (flushItems regionId (maxFlows + 1) s).andThen fun s =>
      if s.eachFlushItem = s.eachItemCount then eachFinish image enter s
      else eachAdmit image enter rounds s

/-- The two words in front of a collection. -/
def collectionHead (itemCount : Nat) : Bytes :=
  Bytes.writeU32 (UInt32.ofNat itemCount) ++ Bytes.writeU32 0

/-- `group_each_start` -/
def eachStart (rounds : Nat) (i : FlowIndex) (regionId : UInt8) (s : GroupExecution) :
    Call RuntimeResult GroupExecution :=
  match s.eachRegion? regionId with
  | none => Call.report .invalidState s
  | some region =>
      if s.activeEachRegion ≠ 0 then Call.report .invalidState s
      else
        let source := (s.flows i).value
        if Protocol.maxPayloadSize < source.length then Call.report .bufferTooSmall s
        else
          let s := { s with eachSourceSnapshot := source }
          match image.listItems region.sourceList source maxEachItems with
          | none => Call.report .invalidValue s
          | some items =>
              if region.bound.toNat < items.length then
                Call.report .invalidValue { s with eachItems := items }
              else
                let s := { s with
                  eachItems := items
                  activeEachRegion := regionId
                  eachCoordinatorFlow := i
                  eachItemCount := items.length
                  eachNextItem := 0
                  eachCompletedItems := 0
                  eachFlushItem := 0
                  eachCollection := collectionHead items.length }
                let s := s.setFlow i fun flow => { flow with active := false, eachRegion := 0 }
                if items.length = 0 then eachFinish image enter s
                else eachAdmit image enter rounds s

/-- `group_route_dispatch` -/
def routeDispatch (i : FlowIndex) (dispatchNode : UInt16) (terminalOutcome : Outcome)
    (s : GroupExecution) : Call RuntimeResult GroupExecution :=
  let value := (s.flows i).value
  if value.length < 8 then Call.report .invalidValue s
  else
    let tag := value.readU32 0
    if value.readU32 4 ≠ 0 ∨ 255 < tag then Call.report .invalidValue s
    else
      match image.groupFindEdge 5 dispatchNode tag.toUInt8 with
      | none => Call.report .invalidImage s
      | some edge =>
          let s := s.setFlow i fun flow => { flow with value := flow.value.drop 8 }
          if ¬ image.validateValue edge.sourceType (s.flows i).value then
            Call.report .invalidValue s
          else enter i edge terminalOutcome s

/-- The waiting flow of one branch of a join. -/
def branchFlow (s : GroupExecution) (joinNode : UInt16) (tag : UInt8) : Option FlowIndex :=
  firstIndex fun i =>
    (s.flows i).active && (s.flows i).state == .waiting && (s.flows i).joinNode == joinNode &&
      (s.flows i).joinTag == tag

/-- The flows of all branches of a join, when all have arrived. -/
def branchFlows (s : GroupExecution) (joinNode : UInt16) (branchCount : Nat) :
    Option (List FlowIndex) :=
  (List.range branchCount).mapM fun tag => s.branchFlow joinNode (UInt8.ofNat tag)

/-- A field of a join goes on or is dropped. -/
def releaseBranch (joinNode : UInt16) (branch : Nat × FlowIndex) (s : GroupExecution) :
    Call RuntimeResult GroupExecution :=
  match image.groupFindEdge 7 joinNode (UInt8.ofNat branch.1) with
  | some edge => enter branch.2 edge .success s
  | none => Call.done (s.setFlow branch.2 Flow.released)

/-- `group_resolve_join` -/
def resolveJoin (joinNode : UInt16) (s : GroupExecution) : Call RuntimeResult GroupExecution :=
  let node := image.node joinNode
  if node.kind ≠ 5 then Call.report .invalidImage s
  else
    let branchCount := node.subtype.toNat
    match s.branchFlows joinNode branchCount with
    | none => Call.done s.maybeComplete
    | some flows =>
        (Call.each (releaseBranch image enter joinNode) ((List.range branchCount).zip flows)
          s).andThen fun s => Call.done s.maybeComplete

/-- The first free slot other than the source of a fork. -/
def forkSlot (s : GroupExecution) (source : FlowIndex) : Option FlowIndex :=
  firstIndex fun i => !(s.flows i).active && i != source

/-- The first loop of `group_enter_fork`: slots for `count` further branches, appended to those
found so far. -/
def takeBranches (source : FlowIndex) :
    Nat → List FlowIndex → GroupExecution →
      RuntimeResult × List FlowIndex × GroupExecution
  | 0, flows, s => (.ok, flows, s)
  | count + 1, flows, s =>
      match s.forkSlot source with
      | none => (.invalidState, flows, s)
      | some slot =>
          let s := s.setFlow slot fun flow => { flow with active := true }
          let value := (s.flows source).value
          if (s.flows slot).valueCapacity < value.length then (.bufferTooSmall, flows, s)
          else
            takeBranches source count (flows ++ [slot])
              (s.setFlow slot fun flow => { flow with value })

/-- One branch of a fork goes on. -/
def enterBranch (forkNode : UInt16) (branch : Nat × FlowIndex) (s : GroupExecution) :
    Call RuntimeResult GroupExecution :=
  match image.groupFindEdge 6 forkNode (UInt8.ofNat branch.1) with
  | none => Call.report .invalidImage s
  | some edge => enter branch.2 edge .none s

/-- `group_enter_fork` -/
def enterFork (source : FlowIndex) (forkNode : UInt16) (s : GroupExecution) :
    Call RuntimeResult GroupExecution :=
  let node := image.node forkNode
  if node.kind ≠ 4 then Call.report .invalidImage s
  else
    let branchCount := node.subtype.toNat
    match takeBranches source (branchCount - 1) [source] s with
    | (.ok, flows, s) =>
        Call.each (enterBranch image enter forkNode) ((List.range branchCount).zip flows) s
    | (failed, _, s) => Call.report failed s

/-- The flow stands in front of its next node. -/
def aim (i : FlowIndex) (edge : Edge) (s : GroupExecution) : GroupExecution :=
  s.setFlow i fun flow => { flow with
    valueSourceType := edge.sourceType
    valueDestinationType := edge.targetType
    currentNode := edge.targetNode }

/-- `group_enter_edge` behind its assignments, by the kind of the target. -/
def arrive (rounds : Nat) (i : FlowIndex) (edge : Edge) (terminalOutcome : Outcome)
    (s : GroupExecution) : Call RuntimeResult GroupExecution :=
  if edge.targetKind = 1 then
    Call.done (s.setFlow i fun flow => { flow with state := .ready, active := true })
  else if edge.targetKind = 4 then enterFork image enter i edge.targetNode s
  else if edge.targetKind = 3 then routeDispatch image enter i edge.targetNode terminalOutcome s
  else if edge.targetKind = 5 then
    resolveJoin image enter edge.targetNode (s.setFlow i fun flow => { flow with
      joinNode := edge.targetNode
      joinTag := edge.caseTag
      state := .waiting })
  else if edge.targetKind = 6 then eachStart image enter rounds i edge.targetNode.toUInt8 s
  else if edge.targetKind = 7 then eachCollect image enter rounds i edge.targetNode.toUInt8 s
  else if edge.targetKind = 2 then Call.done (s.recordTerminal i terminalOutcome)
  else Call.report .invalidImage s

end Bodies

variable (image : Image)

/-- `group_enter_edge` -/
def enterEdge : Nat → FlowIndex → Edge → Outcome → GroupExecution →
    Call RuntimeResult GroupExecution
  | 0, _, _, _, _ => none
  | bound + 1, i, edge, terminalOutcome, s =>
      arrive image (enterEdge bound) bound i edge terminalOutcome (s.aim i edge)

/-! ## Calls -/

/-- The deadline and each regions of the image, in order. -/
def readRegions (s : GroupExecution) (region : Image.Region) : GroupExecution :=
  if region.readU8 0 = 1 then
    let deadline : DeadlineRegion := {
      deadlineMs := region.readU64 8
      firstNode := region.readU16 2
      lastNode := region.readU16 2 + region.readU16 4 - 1 }
    { s with deadlineRegions := s.deadlineRegions ++ [deadline] }
  else if region.readU8 0 = 2 then
    { s with eachRegions := s.eachRegions ++ [EachRegion.read region] }
  else s

/-- The execution that `hermas_group_start` sets up before it routes the input. -/
def fresh (executionId : UInt64) (valueStride : Nat) : GroupExecution :=
  let s := image.tables.regions.foldl readRegions {
    executionId
    valueStride
    flows := Function.update (fun _ => { valueCapacity := valueStride }) 0
      { valueCapacity := valueStride, active := true } }
  { s with deadlineMs := (s.deadlineRegions.head?).elim 0 (·.deadlineMs) }

/-- `hermas_group_start` on storage for eight values of the given stride. -/
def start (bound : Nat) (executionId : UInt64) (storageCapacity valueStride : Nat)
    (inputType : UInt16) (input : Bytes) : Option (Except RuntimeResult GroupExecution) :=
  if executionId = 0 ∨ valueStride = 0 ∨ Protocol.maxPayloadSize < valueStride ∨
      storageCapacity / maxFlows < valueStride ∨ valueStride < input.length then
    some (.error .invalidArgument)
  else if inputType ≠ image.tables.header.inputType ∨ ¬ image.validateValue inputType input then
    some (.error .invalidValue)
  else
    match image.groupFindEdge 0 0 0 with
    | none => some (.error .invalidImage)
    | some root =>
        let s := (fresh image executionId valueStride).setFlow 0 fun flow => { flow with value := input }
        match enterEdge image bound 0 root .none s with
        | none => none
        | some (.ok, s) => some (.ok s)
        | some (failed, _) => some (.error failed)

/-- Another flow of the execution is out on the same action. -/
def conflicts (s : GroupExecution) (i other : FlowIndex) : Bool :=
  let flow := s.flows i
  let node := image.node flow.currentNode
  let otherFlow := s.flows other
  let otherNode := image.node otherFlow.currentNode
  other != i && otherFlow.active && (otherFlow.state == .prepared || otherFlow.state == .sent) &&
    (otherNode.kind != 1 ||
      (otherNode.app == node.app && otherNode.action == node.action &&
        (flow.eachRegion == 0 || flow.eachRegion != otherFlow.eachRegion)))

/-- `hermas_group_prepare` -/
def prepare (s : GroupExecution) (i : FlowIndex) : Except RuntimeResult (Frame × GroupExecution) :=
  let flow := s.flows i
  if s.complete ∨ ¬ flow.active ∨ flow.state ≠ .ready then .error .invalidState
  else if s.nextRequestId = 0 then .error .requestIdExhausted
  else
    let node := image.node flow.currentNode
    if node.kind ≠ 1 then .error .invalidImage
    else
      match firstIndex (s.conflicts image i) with
      | some other =>
          if (image.node (s.flows other).currentNode).kind ≠ 1 then .error .invalidImage
          else .error .invalidState
      | none =>
          .ok (
            { kind := .invoke
              executionId := s.executionId
              requestId := s.nextRequestId
              appId := node.app
              actionId := node.action
              sourceType := flow.valueSourceType
              destinationType := flow.valueDestinationType
              payload := flow.value },
            { s with nextRequestId := s.nextRequestId + 1 }.setFlow i fun flow =>
              { flow with requestId := s.nextRequestId, state := .prepared })

/-- `hermas_group_mark_sent` -/
def markSent (s : GroupExecution) (i : FlowIndex) : Except RuntimeResult GroupExecution :=
  if ¬ (s.flows i).active ∨ (s.flows i).state ≠ .prepared then .error .invalidState
  else .ok (s.setFlow i fun flow => { flow with state := .sent })

/-- `group_delivery_outcome` -/
def deliveryOutcome (bound : Nat) (s : GroupExecution) (i : FlowIndex)
    (required : ExecutionState) (sourceKind : UInt8) (outcome : Outcome) :
    Call RuntimeResult GroupExecution :=
  if ¬ (s.flows i).active ∨ (s.flows i).state ≠ required then Call.report .invalidState s
  else
    match image.groupFindEdge sourceKind (s.flows i).currentNode 0 with
    | none => Call.report .invalidImage s
    | some edge =>
        enterEdge image bound i edge outcome (s.setFlow i fun flow => { flow with value := [] })

/-- `hermas_group_mark_not_sent` -/
def markNotSent (bound : Nat) (s : GroupExecution) (i : FlowIndex) :
    Call RuntimeResult GroupExecution :=
  deliveryOutcome image bound s i .prepared 3 .notSent

/-- `hermas_group_mark_unknown` -/
def markUnknown (bound : Nat) (s : GroupExecution) (i : FlowIndex) :
    Call RuntimeResult GroupExecution :=
  deliveryOutcome image bound s i .sent 4 .unknown

/-- `hermas_group_accept_result` -/
def acceptResult (bound : Nat) (s : GroupExecution) (i : FlowIndex) (result : Frame) :
    Call RuntimeResult GroupExecution :=
  let flow := s.flows i
  if ¬ flow.active ∨ flow.state ≠ .sent then Call.report .invalidState s
  else if ¬ Execution.answers image result s.executionId flow.requestId flow.currentNode then
    Call.report .unexpectedResult s
  else
    match image.groupFindEdge (Execution.resultKind result.outcome) flow.currentNode 0 with
    | none => Call.report .unexpectedResult s
    | some edge =>
        if result.sourceType ≠ edge.sourceType then Call.report .unexpectedResult s
        else if flow.valueCapacity < result.payload.length ∨
            ¬ image.validateValue result.sourceType result.payload then
          Call.report .invalidValue s
        else
          enterEdge image bound i edge result.outcome
            (s.setFlow i fun flow => { flow with value := result.payload })

/-- What a client is told about a flow that ended with an outcome. -/
def resultFrame (executionId : UInt64) (outcome : Outcome) (flow : Flow) : Frame :=
  let typed := Execution.typedOutcome outcome
  { kind := .executionResult
    executionId
    sourceType := if typed then flow.valueSourceType else 0
    destinationType := if typed then flow.valueDestinationType else 0
    outcome
    payload := if typed then flow.value else [] }

/-- `hermas_group_get_result` -/
def getResult (s : GroupExecution) : Except RuntimeResult Frame :=
  if ¬ s.complete then .error .invalidState
  else .ok (resultFrame s.executionId s.pendingOutcome (s.flows s.pendingFlow))

/-! ## Deadlines -/

/-- `hermas_group_region_deadline_ms` -/
def regionDeadlineMs (s : GroupExecution) (regionId : UInt8) : UInt64 :=
  if regionId = 0 then 0
  else (s.deadlineRegions[regionId.toNat - 1]?).elim 0 (·.deadlineMs)

/-- `flow_in_region` -/
def flowInRegion (s : GroupExecution) (region : DeadlineRegion) (i : FlowIndex) : Bool :=
  (s.flows i).active && region.firstNode ≤ (s.flows i).currentNode &&
    (s.flows i).currentNode ≤ region.lastNode

def sentInRegion (s : GroupExecution) (region : DeadlineRegion) (i : FlowIndex) : Bool :=
  s.flowInRegion region i && (s.flows i).state == .sent

/-- The loop over sent deliveries in `hermas_group_expire_region`. -/
def expireSent (bound : Nat) (region : DeadlineRegion) (i : FlowIndex) (s : GroupExecution) :
    Call RuntimeResult GroupExecution :=
  if s.sentInRegion region i then markUnknown image bound s i else Call.done s

/-- `hermas_group_expire_region` -/
def expireRegion (bound : Nat) (s : GroupExecution) (regionId : UInt8) :
    Call RuntimeResult GroupExecution :=
  match (if regionId = 0 then none else s.deadlineRegions[regionId.toNat - 1]?) with
  | none => Call.report .invalidState s
  | some region =>
      if s.complete then Call.report .invalidState s
      else if (List.finRange maxFlows).any (s.sentInRegion region) then
        Call.each (expireSent image bound region) (List.finRange maxFlows) s
      else
        match firstIndex (s.flowInRegion region) with
        | none => Call.report .invalidState s
        | some i =>
            let flow := s.flows i
            if flow.state = .prepared then markNotSent image bound s i
            else
              match image.groupFindEdge 3 flow.currentNode 0 with
              | some edge =>
                  if flow.state = .ready then
                    enterEdge image bound i edge .notSent
                      (s.setFlow i fun flow => { flow with value := [] })
                  else Call.done (s.recordTerminal i .notSent)
              | none => Call.done (s.recordTerminal i .notSent)

end GroupExecution

end Hermas
