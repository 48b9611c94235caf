import Hermas.Compiler.Script

/-!
# Compiling a workflow

What the statements have written down becomes a graph: `place` gives everything its node or its
region, and `wire` connects what each value comes from to what takes it. `compileWorkflow`
lowers the statements, sees that no name is left over and gives out the graph that the kernel
has verified.
-/

namespace Hermas

namespace Script

open Catalog (Compensation)
open Image (maxAllBranches EachRegion)
open Compiler (EdgeSource EdgeTarget TerminalKind)

/-! ## Nodes and regions -/

abbrev Build := StateT GraphBuilder (Except Failure)

/-- `push_node` -/
def addNode (kind : GraphBuilder.NodeKind) : Build UInt16 := do
  let builder ← get
  require (builder.nodes.length + 1 < 2 ^ 16) Failure.panic
  set { builder with nodes := builder.nodes ++ [kind] }
  pure (GraphBuilder.nodeId builder.nodes.length)

/-- `add_each_region` -/
def addEachRegion (region : EachRegion) : Build UInt16 := do
  let builder ← get
  require (builder.eachRegions.length + 1 < 2 ^ 8) Failure.panic
  set { builder with eachRegions := builder.eachRegions ++ [region] }
  pure (GraphBuilder.nodeId builder.eachRegions.length)

/-- `add_deadline_region` and `set_root_deadline` -/
def addDeadline (region : GraphBuilder.DeadlineRegion) : Build Unit :=
  modify fun builder => { builder with deadlines := builder.deadlines ++ [region] }

/-- `connect_at` -/
def connect (source : EdgeSource) (target : EdgeTarget) (presentation : Option UInt16 := none) :
    Build Unit :=
  modify fun builder => { builder with
    edges := builder.edges ++ [{ source, target, presentation }] }

/-- An index into what has been placed. -/
def at_ {α : Type} (items : List α) (index : Nat) : Build α :=
  liftM (demand Failure.panic items[index]?)

/-- Where everything stands; an `all` has a fork and a join. -/
structure Places where
  nodes : List UInt16
  dispatches : List UInt16
  alls : List (UInt16 × UInt16)
  eachs : List UInt16

/-- The fork and the join of an `all`, with at most 8 branches. -/
def addAll (scope : CompiledAll) : Build (UInt16 × UInt16) := do
  let fork ← addNode (.fork scope.inputType (UInt8.ofNat scope.branchOutputs.length))
  let join ← addNode (.join (.ofFn fun slot => (scope.branchOutputs[slot.val]?).map Prod.snd))
  pure (fork, join)

def place (context : LoweringContext) : Build Places := do
  let nodes ← context.steps.mapM fun step => addNode (.action step.action)
  let dispatches ← context.dispatches.mapM fun dispatch => addNode (.dispatch dispatch.variant)
  let alls ← context.allScopes.mapM addAll
  for deadline in context.deadlines do
    addDeadline { durationMs := deadline.durationMs, parent := 1,
                  firstNode := ← at_ nodes deadline.firstStep,
                  nodeCount := UInt16.ofNat deadline.stepCount }
  let eachs ← context.eachRegions.mapM fun region => do
    addEachRegion { concurrency := region.concurrency, template := ← at_ nodes region.templateStep,
                    sourceList := region.sourceList, itemInput := region.itemInput,
                    itemOutput := region.itemOutput, collected := region.collected,
                    bound := region.bound }
  pure { nodes, dispatches, alls, eachs }

/-! ## Edges -/

/-- The port that a value comes from. -/
def Places.source (places : Places) : ValueOrigin → Build EdgeSource
  | .workflowInput => pure .workflowInput
  | .actionSuccess step => return .actionSuccess (← at_ places.nodes step)
  | .dispatchCase dispatch tag => return .dispatchCase (← at_ places.dispatches dispatch) tag
  | .forkBranch scope branch => return .forkBranch (← at_ places.alls scope).1 branch
  | .joinField scope field => return .joinField (← at_ places.alls scope).2 field
  | .eachItem region => return .eachItem (← at_ places.eachs region)
  | .eachOutput region => return .eachOutput (← at_ places.eachs region)

/-- The terminals of a workflow. -/
structure Terminals where
  success : UInt16
  failure : UInt16
  notSent : UInt16
  unknown : UInt16

def wireStep (places : Places) (terminals : Terminals) (entry : CompiledStep × Nat) :
    Build Unit := do
  let node ← at_ places.nodes entry.2
  connect (← places.source entry.1.input) (.actionInput node) entry.1.presentation
  connect (.actionError node) (.terminal terminals.failure)
  connect (.actionNotSent node) (.terminal terminals.notSent)
  connect (.actionUnknown node) (.terminal terminals.unknown)

def wireDispatch (places : Places) (entry : CompiledDispatch × Nat) : Build Unit := do
  connect (← places.source entry.1.input) (.dispatchInput (← at_ places.dispatches entry.2))

/-- An `all` and its branches, each of which ends in an action. -/
def wireAll (places : Places) (file : String) (entry : CompiledAll × Nat) : Build Unit := do
  let (fork, join) ← at_ places.alls entry.2
  connect (← places.source entry.1.input) (.forkInput fork)
  for ((origin, _), branch) in entry.1.branchOutputs.zipIdx do
    if origin matches .actionSuccess _ then
      connect (← places.source origin) (.joinInput join (UInt8.ofNat branch))
    else
      throw (fault file "workflow" "invalid-all-branch" entry.1.span
        "every `all` branch must invoke at least one Action")

def wireEach (places : Places) (entry : CompiledEach × Nat) : Build Unit := do
  let region ← at_ places.eachs entry.2
  connect (← places.source entry.1.input) (.eachInput region)
  connect (.actionSuccess (← at_ places.nodes entry.1.templateStep)) (.eachCollect region)

/-- What may not be returned, and why. -/
def invalidReturn : ValueOrigin → Option String
  | .workflowInput => some "workflow input cannot be returned without an Action"
  | .dispatchCase .. => some "a raw variant case cannot be returned without an Action"
  | .forkBranch .. => some "a raw `all` branch input cannot be returned"
  | .eachItem _ => some "a raw Each item cannot be returned"
  | .actionSuccess _ | .joinField .. | .eachOutput _ => none

def wireReturn (places : Places) (terminals : Terminals) (file : String)
    (entry : ValueOrigin × Schema.Span) : Build Unit :=
  match invalidReturn entry.1 with
  | some message => throw (fault file "workflow" "invalid-return" entry.2 message)
  | none => do connect (← places.source entry.1) (.terminal terminals.success)

/-- The graph of what has been written down. -/
def emit (context : LoweringContext) : Build Unit := do
  let places ← place context
  let terminals : Terminals :=
    { success := ← addNode (.terminal .success), failure := ← addNode (.terminal .knownFailure),
      notSent := ← addNode (.terminal .notSent), unknown := ← addNode (.terminal .unknown) }
  context.steps.zipIdx.forM (wireStep places terminals)
  context.dispatches.zipIdx.forM (wireDispatch places)
  context.allScopes.zipIdx.forM (wireAll places context.file)
  context.eachRegions.zipIdx.forM (wireEach places)
  context.returned.forM (wireReturn places terminals context.file)

/-! ## The workflow -/

/-- The errors of a workflow, each once. -/
def declareError (catalog : Catalog) (file : String) (errors : List UInt16)
    (typeRef : TypeReference) : Except Failure (List UInt16) := do
  let typeId ← resolveType catalog file typeRef
  let name := catalog.typeName typeId
  require (typeId ∉ errors) (fault file "workflow" "duplicate-error" typeRef.span
    s!"workflow error `{name}` is declared twice")
  .ok (errors ++ [typeId])

/-- The context in front of the statements. -/
def initialContext (catalog : Catalog) (file : String) (workflow : Workflow)
    (workflowErrors : List UInt16) : Except Failure LoweringContext :=
  match workflow.parameter with
  | none => .ok { catalog, file, bindings := [], inputType := none, workflowErrors }
  | some parameter => do
      let typeId ← resolveType catalog file parameter.typeRef
      let binding : Binding := { origin := .workflowInput, typeId, span := parameter.span }
      .ok { catalog, file, bindings := [(parameter.name, binding)], inputType := some typeId,
            workflowErrors }

/-- A binding has been consumed. -/
def requireConsumed (file : String) (entry : String × Binding) : Except Failure Unit :=
  require (entry.2.consumed = true) (fault file "workflow" "unused-binding" entry.2.span
    s!"binding `{entry.1}` is never consumed")

/-- A field of an `all` result has been consumed. -/
def requireFieldConsumed (file : String) (entry : String × ProductBinding) :
    Except Failure Unit :=
  require (entry.2.fields.any fun field => field.2.consumed) (fault file "workflow"
    "unused-binding" entry.2.span s!"`all` result `{entry.1}` is never consumed")

/-- The statements of a workflow, each of which consumes what it may, with nothing left over. -/
def lowerWorkflow (catalog : Catalog) (file : String) (workflow : Workflow) :
    Except Failure (UInt16 × LoweringContext) := do
  let successType ← resolveType catalog file workflow.success
  let errors ← workflow.errors.foldlM (declareError catalog file) []
  let context ← initialContext catalog file workflow errors
  let context ← workflow.statements.foldlM (lowerStatement successType) context
  context.bindings.forM (requireConsumed file)
  context.products.forM (requireFieldConsumed file)
  .ok (successType, context)

/-- A saga is a sequence of actions that can be compensated. -/
def requireSaga (span : Schema.Span) (context : LoweringContext) : Except Failure Unit := do
  require (context.dispatches = [] ∧ context.allScopes = [] ∧ context.eachRegions = [])
    (fault context.file "workflow" "non-sequential-saga" span
      "the initial saga slice must be a sequential Action pipeline")
  context.steps.forM fun step => do
    let action ← demand .panic (context.catalog.action step.action)
    let name := context.catalog.actionName step.action
    require (action.compensation ≠ .none)
      (fault context.file "workflow" "missing-saga-compensation" step.invocationSpan
        s!"Action {name} declares no compensation and cannot enter a saga")

/-- `{:?}` of a `GraphErrorCode` -/
def codeName : GraphBuilder.GraphErrorCode → String
  | .limitExceeded => "LimitExceeded"
  | .unknownType => "UnknownType"
  | .unknownAction => "UnknownAction"
  | .duplicateErrorType => "DuplicateErrorType"
  | .missingTerminal => "MissingTerminal"
  | .duplicateTerminal => "DuplicateTerminal"
  | .invalidEndpoint => "InvalidEndpoint"
  | .invalidRoute => "InvalidRoute"
  | .invalidPresentation => "InvalidPresentation"
  | .representationMismatch => "RepresentationMismatch"
  | .nominalMismatch => "NominalMismatch"
  | .duplicateEdge => "DuplicateEdge"
  | .invalidPortCardinality => "InvalidPortCardinality"
  | .cycle => "Cycle"
  | .unreachableNode => "UnreachableNode"

/-- A graph that the kernel has verified. -/
abbrev VerifiedGraph (catalog : Catalog) :=
  { graph : GraphBuilder // graph.verify catalog = .ok () }

/-- `finish` -/
def finish (catalog : Catalog) (file : String) (span : Schema.Span) (builder : GraphBuilder) :
    Except Failure (VerifiedGraph catalog) :=
  match h : builder.verify catalog with
  | .ok () => .ok ⟨builder, h⟩
  | .error error =>
      let code := codeName error.code
      .error (fault file "graph" "invalid-graph" span s!"{code}: {error.message}")

/-- `compile_workflow` -/
def compileWorkflow (catalog : Catalog) (file : String) (workflow : Workflow)
    (graphName : String) : Except Failure (VerifiedGraph catalog) := do
  let (success, context) ← lowerWorkflow catalog file workflow
  let input ← demand .panic context.inputType
  require (context.returned ≠ []) .panic
  if workflow.saga then requireSaga workflow.span context
  let builder : GraphBuilder :=
    { name := graphName, input, success, errors := context.workflowErrors, saga := workflow.saga,
      deadlines := workflow.deadlineMs.toList.map fun durationMs =>
        { durationMs, parent := 0, firstNode := 0, nodeCount := 0 } }
  let (_, builder) ← (emit context).run builder
  finish catalog file workflow.span builder

end Script

end Hermas
