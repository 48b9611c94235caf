import Hermas.Runtime.Route

/-!
# The sequential interpreter

One value moves through the image, one delivery at a time. A call that fails
reports why; what it leaves behind is part of the model, because the daemon goes
on with it.
-/

namespace Hermas

open Image (Edge Node)

/-- `hermas_execution`; the value is the used part of its buffer. -/
structure Execution where
  value : Bytes := []
  valueCapacity : Nat
  executionId : UInt64
  requestId : UInt64 := 1
  currentNode : UInt16 := 0
  valueSourceType : UInt16 := 0
  valueDestinationType : UInt16 := 0
  terminalOutcome : Outcome := .none
  state : ExecutionState := .empty
  deriving DecidableEq, Repr

namespace Execution

variable (image : Image)

/-- `copy_value` -/
def copyValue (execution : Execution) (value : Bytes) : Except RuntimeResult Execution :=
  if execution.valueCapacity < value.length then .error .bufferTooSmall
  else .ok { execution with value }

/-- `enter_edge` and `route_dispatch`, which call each other; every dispatch shortens the value. -/
def enterEdge : Bytes → Edge → Outcome → Execution → RuntimeResult × Execution
  | value, edge, terminalOutcome, execution =>
      let execution := { execution with
        value
        valueSourceType := edge.sourceType
        valueDestinationType := edge.targetType
        currentNode := edge.targetNode }
      if edge.targetKind = 1 then (.ok, { execution with state := .ready })
      else if edge.targetKind = 3 then
        match value with
        | t0 :: t1 :: t2 :: t3 :: r0 :: r1 :: r2 :: r3 :: rest =>
            let tag := Bytes.readU32 [t0, t1, t2, t3] 0
            if Bytes.readU32 [r0, r1, r2, r3] 0 ≠ 0 ∨ 255 < tag then (.invalidValue, execution)
            else
              match image.findCaseEdge execution.currentNode tag.toUInt8 with
              | none => (.invalidImage, execution)
              | some next =>
                  if image.validateValue next.sourceType rest then
                    enterEdge rest next terminalOutcome execution
                  else (.invalidValue, { execution with value := rest })
        | _ => (.invalidValue, execution)
      else (.ok, { execution with terminalOutcome, state := .complete })

/-- `finish_delivery_outcome` -/
def finishDeliveryOutcome (execution : Execution) (required : ExecutionState)
    (sourceKind : UInt8) (outcome : Outcome) : RuntimeResult × Execution :=
  if execution.state ≠ required then (.invalidState, execution)
  else
    match image.findEdge sourceKind execution.currentNode with
    | none => (.invalidImage, execution)
    | some edge => enterEdge image [] edge outcome execution

/-- `hermas_execution_start`, which writes nothing unless it succeeds. -/
def start (executionId : UInt64) (valueCapacity : Nat) (inputType : UInt16) (input : Bytes) :
    Except RuntimeResult Execution :=
  if executionId = 0 ∨ inputType = 0 ∨ Protocol.maxPayloadSize < input.length then
    .error .invalidArgument
  else if inputType ≠ image.tables.header.inputType ∨ ¬ image.validateValue inputType input then
    .error .invalidValue
  else
    match copyValue { valueCapacity, executionId } input with
    | .error e => .error e
    | .ok fresh =>
        match image.findEdge 0 0 with
        | none => .error .invalidImage
        | some root =>
            if root.targetKind ≠ 1 then .error .invalidImage
            else .ok (enterEdge image fresh.value root .none fresh).2

/-- `hermas_execution_prepare` -/
def prepare (execution : Execution) : Except RuntimeResult (Frame × Execution) :=
  if execution.state ≠ .ready then .error .invalidState
  else
    let node := image.node execution.currentNode
    if node.kind ≠ 1 then .error .invalidImage
    else .ok (
      { kind := .invoke
        executionId := execution.executionId
        requestId := execution.requestId
        appId := node.app
        actionId := node.action
        sourceType := execution.valueSourceType
        destinationType := execution.valueDestinationType
        payload := execution.value },
      { execution with state := .prepared })

/-- `hermas_execution_mark_sent` -/
def markSent (execution : Execution) : Except RuntimeResult Execution :=
  if execution.state ≠ .prepared then .error .invalidState
  else .ok { execution with state := .sent }

/-- `hermas_execution_mark_not_sent` -/
def markNotSent (execution : Execution) : RuntimeResult × Execution :=
  finishDeliveryOutcome image execution .prepared 3 .notSent

/-- `hermas_execution_mark_unknown` -/
def markUnknown (execution : Execution) : RuntimeResult × Execution :=
  finishDeliveryOutcome image execution .sent 4 .unknown

/-- The frame answers the delivery at the node. -/
def answers (image : Image) (result : Frame) (executionId requestId : UInt64)
    (currentNode : UInt16) : Bool :=
  result.kind == .result && result.executionId == executionId && result.requestId == requestId &&
    result.appId == (image.node currentNode).app &&
    result.actionId == (image.node currentNode).action &&
    result.sourceType == result.destinationType &&
    (result.outcome == .success || result.outcome == .appError)

/-- The edge kind that a result takes. -/
def resultKind (outcome : Outcome) : UInt8 := if outcome = .success then 1 else 2

/-- `hermas_execution_accept_result` -/
def acceptResult (execution : Execution) (result : Frame) : RuntimeResult × Execution :=
  if execution.state ≠ .sent then (.invalidState, execution)
  else if ¬ answers image result execution.executionId execution.requestId execution.currentNode then
    (.unexpectedResult, execution)
  else
    match image.findEdge (resultKind result.outcome) execution.currentNode with
    | none => (.unexpectedResult, execution)
    | some edge =>
        if result.sourceType ≠ edge.sourceType then (.unexpectedResult, execution)
        else if Protocol.maxPayloadSize < result.payload.length then (.invalidValue, execution)
        else if ¬ image.validateValue result.sourceType result.payload then
          (.invalidValue, execution)
        else if (edge.targetKind = 1 ∨ edge.targetKind = 3) ∧
            execution.requestId = uint64Max then
          (.requestIdExhausted, execution)
        else
          match copyValue execution result.payload with
          | .error e => (e, execution)
          | .ok execution =>
              let execution :=
                if edge.targetKind = 1 ∨ edge.targetKind = 3 then
                  { execution with requestId := execution.requestId + 1 }
                else execution
              enterEdge image execution.value edge result.outcome execution

/-- The outcome carries a typed value. -/
def typedOutcome (outcome : Outcome) : Bool := outcome == .success || outcome == .appError

/-- `hermas_execution_get_result` -/
def getResult (execution : Execution) : Except RuntimeResult Frame :=
  if execution.state ≠ .complete then .error .invalidState
  else
    let typed := typedOutcome execution.terminalOutcome
    let sourceType := if typed then execution.valueSourceType else 0
    .ok {
      kind := .executionResult
      executionId := execution.executionId
      sourceType
      destinationType := if typed then execution.valueDestinationType else 0
      outcome := execution.terminalOutcome
      payload := if sourceType = 0 then [] else execution.value }

/-! ## Where a call leaves the execution -/

/-- The value came to rest: in front of an action, or at the end with an outcome. -/
structure Rests (execution : Execution) (outcome : Outcome) (execution' : Execution) : Prop where
  executionId : execution'.executionId = execution.executionId
  requestId : execution'.requestId = execution.requestId
  state : (execution'.state = .ready ∧ execution'.terminalOutcome = execution.terminalOutcome) ∨
    (execution'.state = .complete ∧ execution'.terminalOutcome = outcome)

variable {image : Image} {execution execution' : Execution}

theorem enterEdge_rests {value : Bytes} {edge : Edge} {outcome : Outcome}
    (h : enterEdge image value edge outcome execution = (.ok, execution')) :
    Rests execution outcome execution' := by
  induction hlength : value.length using Nat.strong_induction_on generalizing value edge execution with
  | _ length ih =>
    subst hlength
    unfold enterEdge at h
    split at h
    · cases h
      exact ⟨rfl, rfl, .inl ⟨rfl, rfl⟩⟩
    split at h
    · split at h
      · simp only at h
        split at h
        · cases h
        split at h
        · cases h
        split at h
        · have hrest := ih _ (by simp only [List.length_cons]; omega) h rfl
          exact ⟨hrest.executionId, hrest.requestId, hrest.state⟩
        · cases h
      · cases h
    · cases h
      exact ⟨rfl, rfl, .inr ⟨rfl, rfl⟩⟩

/-- A start that succeeds stands in front of its first action. -/
theorem start_ready {executionId : UInt64} {capacity : Nat} {inputType : UInt16} {input : Bytes}
    (h : start image executionId capacity inputType input = .ok execution) :
    execution.state = .ready ∧ execution.executionId = executionId ∧ execution.requestId = 1 := by
  unfold start copyValue at h
  split at h
  · cases h
  split at h
  · cases h
  split at h
  · cases h
  rename_i fresh hfresh
  split at hfresh
  · cases hfresh
  cases hfresh
  split at h
  · cases h
  rename_i root _
  split at h
  · cases h
  rename_i htarget
  cases h
  have hkind : root.targetKind = 1 := not_not.mp htarget
  unfold enterEdge
  rw [if_pos hkind]
  exact ⟨rfl, rfl, rfl⟩

/-- A delivery that ends without a result. -/
theorem finishDeliveryOutcome_rests {required : ExecutionState} {kind : UInt8}
    {outcome : Outcome}
    (h : finishDeliveryOutcome image execution required kind outcome = (.ok, execution')) :
    execution.state = required ∧ Rests execution outcome execution' := by
  unfold finishDeliveryOutcome at h
  split at h
  · cases h
  rename_i hstate
  split at h
  · cases h
  · exact ⟨not_not.mp hstate, enterEdge_rests h⟩

/-- A result that is accepted answers the delivery that is out; a further one has a request of its
own. -/
theorem acceptResult_rests {result : Frame}
    (h : acceptResult image execution result = (.ok, execution')) :
    execution.state = .sent ∧
      answers image result execution.executionId execution.requestId execution.currentNode = true ∧
      ∃ next, (next = execution.requestId ∨ next = execution.requestId + 1) ∧
        Rests { execution with value := result.payload, requestId := next } result.outcome
          execution' := by
  unfold acceptResult at h
  split at h
  · cases h
  rename_i hstate
  split at h
  · cases h
  rename_i hanswers
  split at h
  · cases h
  split at h
  · cases h
  split at h
  · cases h
  split at h
  · cases h
  split at h
  · cases h
  unfold copyValue at h
  split at h
  · rename_i e hcopy
    split at hcopy
    · cases hcopy; cases h
    · cases hcopy
  rename_i copied hcopy
  split at hcopy
  · cases hcopy
  cases hcopy
  refine ⟨not_not.mp hstate, not_not.mp hanswers, ?_⟩
  simp only at h
  split at h
  · exact ⟨_, .inr rfl, enterEdge_rests h⟩
  · exact ⟨_, .inl rfl, enterEdge_rests h⟩

end Execution

end Hermas
