import Hermas.Base.Assoc
import Hermas.Compiler.GraphBuilder
import Hermas.Compiler.Schema

/-!
# Workflow scripts

A workflow of a script pipes values through actions, and its statements name the values on
the way. `lowerStatement` takes the statements one by one: it looks every name up, marks what
it finds as consumed and writes down the action, the dispatch, the fork or the region that the
statement asks for. The text of a script is not read here; a workflow is what its parser gives
out.
-/

namespace Hermas

namespace Script

open Schema (Span)
open Catalog (Compensation)
open Image (maxAllBranches EachRegion)
open Compiler (EdgeSource EdgeTarget TerminalKind)

def maxWorkflowActions : Nat := 64

/-! ## What a script says -/

structure TypeReference where
  app : String
  name : String
  span : Span
  deriving DecidableEq, Repr

structure Parameter where
  name : String
  typeRef : TypeReference
  span : Span
  deriving DecidableEq, Repr

structure Invocation where
  app : String
  action : String
  presentation : Option TypeReference := none
  span : Span
  deriving DecidableEq, Repr

inductive PipelineSource where
  | workflowInput
  | binding (name : String) (span : Span)
  | productField (product field : String) (span : Span)
  deriving DecidableEq, Repr

structure Pipeline where
  source : PipelineSource
  invocations : List Invocation
  deriving DecidableEq, Repr

structure MatchCase where
  name : String
  nameSpan : Span
  binding : String
  bindingSpan : Span
  pipeline : Pipeline
  deriving DecidableEq, Repr

structure AllBranch where
  name : String
  nameSpan : Span
  pipeline : Pipeline
  deriving DecidableEq, Repr

inductive Statement where
  | let_ (name : String) (nameSpan : Span) (pipeline : Pipeline)
  | return_ (span : Span) (pipeline : Pipeline)
  | match_ (span : Span) (binding : String) (bindingSpan : Span) (cases : List MatchCase)
  | all (span : Span) (name : String) (nameSpan : Span) (source : String) (sourceSpan : Span)
      (branches : List AllBranch)
  | each (span : Span) (name : String) (nameSpan : Span) (item : String) (itemSpan : Span)
      (source : String) (sourceSpan : Span) (concurrency : UInt8) (pipeline : Pipeline)
      (collected : TypeReference)
  | withinReturn (durationMs : UInt64) (returnSpan : Span) (pipeline : Pipeline)
  deriving DecidableEq, Repr

structure Workflow where
  span : Span
  parameter : Option Parameter
  success : TypeReference
  errors : List TypeReference
  errorsSpan : Span
  statements : List Statement
  deadlineMs : Option UInt64 := none
  saga : Bool := false
  deriving DecidableEq, Repr

/-! ## What is written down -/

structure HScriptDiagnostic where
  file : String
  stage : String
  code : String
  span : Span
  message : String
  deriving DecidableEq, Repr

inductive Failure where
  | diagnostic (diagnostic : HScriptDiagnostic)
  | panic
  deriving DecidableEq, Repr

inductive ValueOrigin where
  | workflowInput
  | actionSuccess (step : Nat)
  | dispatchCase (dispatch : Nat) (tag : UInt8)
  | forkBranch (scope : Nat) (branch : UInt8)
  | joinField (scope : Nat) (field : UInt8)
  | eachItem (region : Nat)
  | eachOutput (region : Nat)
  deriving DecidableEq, Repr

structure Binding where
  origin : ValueOrigin
  typeId : UInt16
  consumed : Bool := false
  span : Span
  deriving DecidableEq, Repr

structure ProductField where
  origin : ValueOrigin
  typeId : UInt16
  consumed : Bool := false
  deriving DecidableEq, Repr

structure ProductBinding where
  fields : List (String × ProductField)
  span : Span
  deriving DecidableEq, Repr

structure CompiledStep where
  action : UInt16
  input : ValueOrigin
  presentation : Option UInt16
  invocationSpan : Span
  deriving DecidableEq, Repr

structure CompiledDispatch where
  input : ValueOrigin
  variant : UInt16
  deriving DecidableEq, Repr

structure CompiledAll where
  input : ValueOrigin
  inputType : UInt16
  branchOutputs : List (ValueOrigin × UInt16)
  span : Span
  deriving DecidableEq, Repr

structure CompiledDeadline where
  durationMs : UInt64
  firstStep : Nat
  stepCount : Nat
  deriving DecidableEq, Repr

structure CompiledEach where
  input : ValueOrigin
  sourceList : UInt16
  itemInput : UInt16
  itemOutput : UInt16
  collected : UInt16
  bound : UInt16
  concurrency : UInt8
  templateStep : Nat
  deriving DecidableEq, Repr

/-- `LoweringContext`, with the values that have been returned. The maps are kept in the order
of their names; `inputType` is also the `inferred_input`, which never differs from it. -/
structure LoweringContext where
  catalog : Catalog
  file : String
  bindings : List (String × Binding)
  products : List (String × ProductBinding) := []
  inputType : Option UInt16
  inputConsumed : Bool := false
  workflowErrors : List UInt16
  steps : List CompiledStep := []
  dispatches : List CompiledDispatch := []
  allScopes : List CompiledAll := []
  deadlines : List CompiledDeadline := []
  eachRegions : List CompiledEach := []
  returned : List (ValueOrigin × Span) := []

/-- `HScriptDiagnostic::new` -/
def fault (file stage code : String) (span : Span) (message : String) : Failure :=
  .diagnostic { file, stage, code, span, message }

/-- What is there, or the failure where nothing is. -/
def demand {α : Type} (failure : Failure) : Option α → Except Failure α
  | some a => .ok a
  | none => .error failure

@[simp] theorem demand_ok {α : Type} {failure : Failure} {x : Option α} {a : α} :
    demand failure x = .ok a ↔ x = some a := by
  cases x with
  | none => simp [demand]
  | some b => simp [demand]

/-- `resolve_type` -/
def resolveType (catalog : Catalog) (file : String) (typeRef : TypeReference) :
    Except Failure UInt16 :=
  demand (fault file "resolution" "unknown-type" typeRef.span
    s!"unknown type `{typeRef.app}::{typeRef.name}`") (catalog.resolveType typeRef.app typeRef.name)

/-! ## Taking a value -/

/-- The value of a binding, with the messages for one that has been taken and for the input
under a second name. -/
def takeBinding (taken inputTaken : String) (name : String) (span : Span)
    (context : LoweringContext) : Except Failure ((ValueOrigin × UInt16) × LoweringContext) := do
  let binding ← demand (fault context.file "workflow" "unknown-binding" span
    s!"unknown immutable binding `{name}`") (context.bindings.lookup name)
  require (binding.consumed = false)
    (fault context.file "workflow" "binding-already-consumed" span taken)
  let bindings := Assoc.insert name { binding with consumed := true } context.bindings
  if binding.origin = .workflowInput then do
    require (context.inputConsumed = false)
      (fault context.file "workflow" "input-already-consumed" span inputTaken)
    .ok ((binding.origin, binding.typeId), { context with bindings, inputConsumed := true })
  else .ok ((binding.origin, binding.typeId), { context with bindings })

/-- The value of a binding that a pipeline starts from. -/
def takeNamed (name : String) (span : Span) (context : LoweringContext) :
    Except Failure ((ValueOrigin × UInt16) × LoweringContext) :=
  takeBinding s!"binding `{name}` was already consumed by the sequential graph"
    "the sequential workflow input has already been consumed" name span context

/-- The value of a field of an `all` result. -/
def takeField (product field : String) (span : Span) (context : LoweringContext) :
    Except Failure ((ValueOrigin × UInt16) × LoweringContext) := do
  let productBinding ← demand (fault context.file "workflow" "unknown-product" span
    s!"unknown `all` result `{product}`") (context.products.lookup product)
  let fieldBinding ← demand (fault context.file "workflow" "unknown-product-field" span
    s!"`{product}` has no result field `{field}`") (productBinding.fields.lookup field)
  require (fieldBinding.consumed = false) (fault context.file "workflow"
    "product-field-already-consumed" span s!"`{product}.{field}` was already consumed")
  let fields := Assoc.insert field { fieldBinding with consumed := true } productBinding.fields
  let products := Assoc.insert product { productBinding with fields } context.products
  .ok ((fieldBinding.origin, fieldBinding.typeId), { context with products })

/-- `take_source` -/
def takeSource (pipeline : Pipeline) (context : LoweringContext) :
    Except Failure ((ValueOrigin × Option UInt16) × LoweringContext) :=
  match pipeline.source with
  | .workflowInput =>
      if context.inputConsumed then
        match pipeline.invocations with
        | [] => .error .panic
        | first :: _ => .error (fault context.file "workflow" "input-already-consumed" first.span
            "the sequential workflow input has already been consumed")
      else .ok ((.workflowInput, context.inputType), { context with inputConsumed := true })
  | .binding name span => do
      let ((origin, typeId), context) ← takeNamed name span context
      .ok ((origin, some typeId), context)
  | .productField product field span => do
      let ((origin, typeId), context) ← takeField product field span context
      .ok ((origin, some typeId), context)

/-! ## Pipelines -/

/-- The presentation of a value in front of an action, checked against what the action takes. -/
def lowerPresentation (context : LoweringContext) (invocation : Invocation) (actionId : UInt16)
    (input sourceType : UInt16) : Except Failure (Option UInt16) :=
  match invocation.presentation with
  | some typeRef => do
      let presentation ← resolveType context.catalog context.file typeRef
      let presented := context.catalog.typeName presentation
      let required := context.catalog.typeName input
      require (presentation = input)
        (fault context.file "typing" "wrong-presentation-target" typeRef.span
          s!"presentation names {presented}, but `{invocation.app}/{invocation.action}` requires {required}")
      match context.catalog.representationCompatible sourceType presentation with
      | .error reason =>
          .error (fault context.file "typing" "incompatible-presentation" typeRef.span reason)
      | .ok () => .ok (some presentation)
  | none => do
      let source := context.catalog.typeName sourceType
      let action := context.catalog.actionName actionId
      let required := context.catalog.typeName input
      require (sourceType = input) (fault context.file "typing" "nominal-mismatch" invocation.span
        (s!"{source} cannot flow directly into {action}; add an explicit `as {required}` " ++
          "presentation if their representations are compatible"))
      .ok none

/-- One round of `lower_pipeline_tail`. -/
def lowerInvocation (invocation : Invocation) (origin : ValueOrigin) (valueType : Option UInt16)
    (context : LoweringContext) : Except Failure ((ValueOrigin × UInt16) × LoweringContext) := do
  require (context.steps.length < maxWorkflowActions)
    (fault context.file "workflow" "limit-exceeded" invocation.span
      s!"a workflow may invoke at most {maxWorkflowActions} Actions")
  let actionId ← demand (fault context.file "resolution" "unknown-action" invocation.span
    s!"unknown Action `{invocation.app}/{invocation.action}`")
    (context.catalog.resolveAction invocation.app invocation.action)
  let action ← demand .panic (context.catalog.action actionId)
  let presentation ← lowerPresentation context invocation actionId action.input
    (valueType.getD action.input)
  let name := context.catalog.actionName actionId
  let error := context.catalog.typeName action.error
  require (action.error ∈ context.workflowErrors)
    (fault context.file "workflow" "unhandled-action-error" invocation.span
      s!"{name} returns {error}, which is not declared by the workflow")
  let step : CompiledStep :=
    { action := actionId, input := origin, presentation, invocationSpan := invocation.span }
  .ok ((.actionSuccess context.steps.length, action.success),
    { context with steps := context.steps ++ [step] })

/-- `lower_pipeline_tail` -/
def lowerPipelineTail : List Invocation → ValueOrigin → Option UInt16 → LoweringContext →
    Except Failure ((ValueOrigin × UInt16) × LoweringContext)
  | [], origin, valueType, context => do
      .ok ((origin, ← demand .panic valueType), context)
  | invocation :: invocations, origin, valueType, context => do
      let ((origin, typeId), context) ← lowerInvocation invocation origin valueType context
      lowerPipelineTail invocations origin (some typeId) context

/-- `lower_pipeline` -/
def lowerPipeline (pipeline : Pipeline) (context : LoweringContext) :
    Except Failure ((ValueOrigin × UInt16) × LoweringContext) := do
  let ((origin, valueType), context) ← takeSource pipeline context
  lowerPipelineTail pipeline.invocations origin valueType context

/-- `lower_pipeline_from`: the source of the pipeline is not taken. -/
def lowerPipelineFrom (pipeline : Pipeline) (origin : ValueOrigin) (valueType : UInt16)
    (context : LoweringContext) : Except Failure ((ValueOrigin × UInt16) × LoweringContext) :=
  lowerPipelineTail pipeline.invocations origin (some valueType) context

/-! ## Statements -/

/-- A pipeline from the workflow input gives a workflow without a parameter its input type. -/
def inferInput (pipeline : Pipeline) (context : LoweringContext) :
    Except Failure LoweringContext :=
  if context.inputType = none ∧ pipeline.source = .workflowInput then
    match pipeline.invocations with
    | [] => .error .panic
    | first :: _ => do
        let action ← demand (fault context.file "resolution" "unknown-action" first.span
          s!"unknown Action `{first.app}/{first.action}`")
          ((context.catalog.resolveAction first.app first.action).bind context.catalog.action)
        .ok { context with inputType := some action.input }
  else .ok context

/-- A name that a new binding takes from this table. -/
def requireUnbound {α : Type} (context : LoweringContext) (table : List (String × α))
    (name : String) (span : Span) (message : String) : Except Failure Unit :=
  require ((table.lookup name).isSome = false)
    (fault context.file "workflow" "duplicate-binding" span message)

/-- The value of a returned pipeline is of the success type. -/
def requireSuccess (context : LoweringContext) (successType typeId : UInt16) (subject : String)
    (span : Span) : Except Failure Unit :=
  let produced := context.catalog.typeName typeId
  let required := context.catalog.typeName successType
  require (typeId = successType) (fault context.file "typing" "wrong-success-type" span
    s!"{subject} produces {produced}, but workflow requires {required}")

/-- `Statement::Let` -/
def lowerLet (name : String) (nameSpan : Span) (pipeline : Pipeline) (context : LoweringContext) :
    Except Failure LoweringContext := do
  -- the results of `all` are not looked at
  requireUnbound context context.bindings name nameSpan
    s!"immutable binding `{name}` is already declared"
  let context ← inferInput pipeline context
  let ((origin, typeId), context) ← lowerPipeline pipeline context
  .ok { context with
    bindings := Assoc.insert name { origin, typeId, span := nameSpan } context.bindings }

/-- `Statement::Return` -/
def lowerReturn (successType : UInt16) (span : Span) (pipeline : Pipeline)
    (context : LoweringContext) : Except Failure LoweringContext := do
  let context ← inferInput pipeline context
  let ((origin, typeId), context) ← lowerPipeline pipeline context
  requireSuccess context successType typeId "returned pipeline" span
  .ok { context with returned := context.returned ++ [(origin, span)] }

/-- `Statement::WithinReturn` -/
def lowerWithinReturn (successType : UInt16) (durationMs : UInt64) (returnSpan : Span)
    (pipeline : Pipeline) (context : LoweringContext) : Except Failure LoweringContext := do
  let firstStep := context.steps.length
  let context ← lowerReturn successType returnSpan pipeline context
  let deadline : CompiledDeadline :=
    { durationMs, firstStep, stepCount := context.steps.length - firstStep }
  .ok { context with deadlines := context.deadlines ++ [deadline] }

/-- The name that a pipeline starts from. -/
def Pipeline.startsFrom (pipeline : Pipeline) (name : String) : Bool :=
  match pipeline.source with
  | .binding source _ => source == name
  | _ => false

/-- What the branches of an `all` have given so far: its result fields and its outputs. -/
structure Branches where
  fields : List (String × ProductField) := []
  outputs : List (ValueOrigin × UInt16) := []

/-- One branch of an `all`; there are at most 8 of them. -/
def lowerBranch (source : String) (allIndex : Nat) (sharedType : UInt16)
    (state : Branches × LoweringContext) (branch : AllBranch) :
    Except Failure (Branches × LoweringContext) := do
  let (branches, context) := state
  require (branch.pipeline.startsFrom source)
    (fault context.file "workflow" "invalid-all-branch" branch.nameSpan
      s!"`all` branch `{branch.name}` must start from shared input `{source}`")
  require ((branches.fields.lookup branch.name).isSome = false)
    (fault context.file "workflow" "duplicate-all-field" branch.nameSpan
      s!"`all` result field `{branch.name}` is declared twice")
  let tag := UInt8.ofNat branches.outputs.length
  let ((origin, typeId), context) ←
    lowerPipelineFrom branch.pipeline (.forkBranch allIndex tag) sharedType context
  let field : ProductField := { origin := .joinField allIndex tag, typeId }
  .ok ({ fields := Assoc.insert branch.name field branches.fields,
         outputs := branches.outputs ++ [(origin, typeId)] }, context)

/-- `Statement::All` -/
def lowerAll (span : Span) (name : String) (nameSpan : Span) (source : String) (sourceSpan : Span)
    (branches : List AllBranch) (context : LoweringContext) : Except Failure LoweringContext := do
  let message := s!"immutable binding `{name}` is already declared"
  requireUnbound context context.bindings name nameSpan message
  requireUnbound context context.products name nameSpan message
  require (2 ≤ branches.length ∧ branches.length ≤ maxAllBranches)
    (fault context.file "workflow" "all-branch-count" span
      s!"`all` requires 2..={maxAllBranches} statically known branches")
  let ((input, inputType), context) ← takeNamed source sourceSpan context
  let allIndex := context.allScopes.length
  let (lowered, context) ← branches.foldlM (lowerBranch source allIndex inputType) ({}, context)
  let scope : CompiledAll := { input, inputType, branchOutputs := lowered.outputs, span }
  .ok { context with
    allScopes := context.allScopes ++ [scope]
    products := Assoc.insert name { fields := lowered.fields, span := nameSpan } context.products }

/-- The region that an each statement asks for, from its template on. -/
def lowerEachRegion (span source : Span) (concurrency : UInt8) (pipeline : Pipeline)
    (collected : TypeReference) (input : ValueOrigin) (sourceList : UInt16)
    (context : LoweringContext) : Except Failure (CompiledEach × LoweringContext) := do
  let listName := context.catalog.typeName sourceList
  let (itemInput, bound) ← demand (fault context.file "typing" "each-source-not-list" source
    s!"{listName} is not a named bounded list") (context.catalog.listElement sourceList)
  let limit := min bound 8
  require (concurrency ≠ 0 ∧ concurrency ≤ 8 ∧ concurrency.toUInt16 ≤ bound)
    (fault context.file "workflow" "invalid-each-concurrency" span
      s!"Each concurrency must be 1..={limit} for source bound {bound}")
  let templateStep := context.steps.length
  let ((output, itemOutput), context) ←
    lowerPipelineFrom pipeline (.eachItem context.eachRegions.length) itemInput context
  require (context.steps.length = templateStep + 1 ∧ output matches .actionSuccess _)
    (fault context.file "workflow" "each-template-shape" span
      "the initial Each template must contain exactly one Action")
  let collectedType ← resolveType context.catalog context.file collected
  let (collectedItem, collectedBound) ← demand (fault context.file "typing"
    "collect-target-not-list" collected.span "collect target must be a named bounded list")
    (context.catalog.listElement collectedType)
  let target := context.catalog.typeName collectedType
  let items := context.catalog.typeName itemOutput
  require (collectedItem = itemOutput ∧ bound ≤ collectedBound)
    (fault context.file "typing" "incompatible-collect" collected.span
      s!"{target} cannot collect {bound} items of {items}")
  .ok ({ input, sourceList, itemInput, itemOutput, collected := collectedType, bound, concurrency,
         templateStep }, context)

/-- `Statement::Each` -/
def lowerEach (span : Span) (name : String) (nameSpan : Span) (item : String) (itemSpan : Span)
    (source : String) (sourceSpan : Span) (concurrency : UInt8) (pipeline : Pipeline)
    (collected : TypeReference) (context : LoweringContext) : Except Failure LoweringContext := do
  let message := s!"immutable binding `{name}` is already declared"
  requireUnbound context context.bindings name nameSpan message
  requireUnbound context context.products name nameSpan message
  let message := s!"Each item binding `{item}` conflicts with an existing binding"
  requireUnbound context context.bindings item itemSpan message
  requireUnbound context context.products item itemSpan message
  require (pipeline.startsFrom item) (fault context.file "workflow" "invalid-each-body" itemSpan
    "Each body must start from its item binding")
  let ((input, sourceList), context) ← takeNamed source sourceSpan context
  let (region, context) ← lowerEachRegion span sourceSpan concurrency pipeline collected input
    sourceList context
  let binding : Binding :=
    { origin := .eachOutput context.eachRegions.length, typeId := region.collected, span := nameSpan }
  .ok { context with
    eachRegions := context.eachRegions ++ [region]
    bindings := Assoc.insert name binding context.bindings }

/-- The cases of a match by their names. -/
def declareCase (file : String) (declared : List (String × MatchCase)) (case_ : MatchCase) :
    Except Failure (List (String × MatchCase)) := do
  require ((declared.lookup case_.name).isSome = false) (fault file "typing" "duplicate-match-case"
    case_.nameSpan s!"variant case `{case_.name}` is matched twice")
  .ok (Assoc.insert case_.name case_ declared)

/-- Names as a message shows them. -/
def debugNames (names : List String) : String :=
  "[" ++ ", ".intercalate (names.map fun name => "\"" ++ name ++ "\"") ++ "]"

/-- One case of the matched variant. -/
def lowerCase (successType : UInt16) (dispatch : Nat) (declared : List (String × MatchCase))
    (context : LoweringContext) (entry : (String × UInt16) × Nat) :
    Except Failure LoweringContext := do
  let ((caseName, payloadType), tag) := entry
  let case_ ← demand .panic (declared.lookup caseName)
  -- the results of `all` are not looked at
  requireUnbound context context.bindings case_.binding case_.bindingSpan
    s!"case binding `{case_.binding}` conflicts with an existing binding"
  require (case_.pipeline.startsFrom case_.binding ∧ case_.pipeline.invocations ≠ [])
    (fault context.file "workflow" "invalid-match-branch" case_.bindingSpan
      "a match branch must pipe its case binding into at least one Action")
  require (tag < 2 ^ 8) .panic
  let binding : Binding := { origin := .dispatchCase dispatch (UInt8.ofNat tag),
                             typeId := payloadType, span := case_.bindingSpan }
  let context := { context with
    bindings := Assoc.insert case_.binding binding context.bindings }
  let ((origin, typeId), context) ← lowerPipeline case_.pipeline context
  let context := { context with bindings := Assoc.erase case_.binding context.bindings }
  requireSuccess context successType typeId s!"case `{caseName}`" case_.nameSpan
  .ok { context with returned := context.returned ++ [(origin, case_.nameSpan)] }

/-- `Statement::Match` -/
def lowerMatch (successType : UInt16) (span : Span) (binding : String) (bindingSpan : Span)
    (cases : List MatchCase) (context : LoweringContext) : Except Failure LoweringContext := do
  let ((input, variant), context) ← takeBinding s!"binding `{binding}` was already consumed"
    "the workflow input has already been consumed" binding bindingSpan context
  let name := context.catalog.typeName variant
  let variantCases ← demand (fault context.file "typing" "match-non-variant" bindingSpan
    s!"{name} is not a named typed variant") (context.catalog.variantCases variant)
  let declaredCases ← cases.foldlM (declareCase context.file) []
  let expected := variantCases.map Prod.fst
  let declared := declaredCases.map Prod.fst
  let missing := debugNames (expected.filter (· ∉ declared))
  let extra := debugNames (declared.filter (· ∉ expected))
  require (expected = declared) (fault context.file "typing" "non-exhaustive-match" span
    s!"match cases differ; missing={missing} extra={extra}")
  let dispatch := context.dispatches.length
  let context := { context with dispatches := context.dispatches ++ [{ input, variant }] }
  variantCases.zipIdx.foldlM (lowerCase successType dispatch declaredCases) context

/-- One round of the statements of `compile_workflow`. -/
def lowerStatement (successType : UInt16) (context : LoweringContext) :
    Statement → Except Failure LoweringContext
  | .let_ name nameSpan pipeline => lowerLet name nameSpan pipeline context
  | .return_ span pipeline => lowerReturn successType span pipeline context
  | .withinReturn durationMs returnSpan pipeline =>
      lowerWithinReturn successType durationMs returnSpan pipeline context
  | .all span name nameSpan source sourceSpan branches =>
      lowerAll span name nameSpan source sourceSpan branches context
  | .each span name nameSpan item itemSpan source sourceSpan concurrency pipeline collected =>
      lowerEach span name nameSpan item itemSpan source sourceSpan concurrency pipeline collected
        context
  | .match_ span binding bindingSpan cases =>
      lowerMatch successType span binding bindingSpan cases context

end Script

end Hermas
