import Hermas.Base.Check
import Hermas.Compiler.Catalog
import Hermas.Compiler.Kernel

/-!
# The graph kernel

A workflow is a graph of nodes whose ports are wired by edges. `verify` admits a graph
check by check, in the order of the source, so that the error of a refusal is the
source's error: the limits, the regions and the types, then the nodes, the edges, the
search for cycles, the counts at every port and the search for unreachable nodes.
Source locations are left out; no check and no image depends on them.
-/

namespace Hermas

open Compiler (EdgeSource EdgeTarget TerminalKind)
open Image (EachRegion maxNodes maxEdges maxAllBranches)

namespace GraphBuilder

/-- `NodeKind`; a join has a type for each of its branches. -/
inductive NodeKind where
  | action (action : UInt16)
  | dispatch (variant : UInt16)
  | fork (input : UInt16) (branches : UInt8)
  | join (types : Vector (Option UInt16) maxAllBranches)
  | terminal (kind : TerminalKind)
  deriving DecidableEq

/-- `Edge` -/
structure Edge where
  source : EdgeSource
  target : EdgeTarget
  presentation : Option UInt16 := none
  deriving DecidableEq, Repr

/-- `DeadlineRegion` -/
structure DeadlineRegion where
  durationMs : UInt64
  parent : UInt16
  firstNode : UInt16
  nodeCount : UInt16
  deriving DecidableEq, Repr

inductive GraphErrorCode where
  | limitExceeded | unknownType | unknownAction | duplicateErrorType | missingTerminal
  | duplicateTerminal | invalidEndpoint | invalidRoute | invalidPresentation
  | representationMismatch | nominalMismatch | duplicateEdge | invalidPortCardinality | cycle
  | unreachableNode
  deriving DecidableEq, Repr

structure GraphError where
  code : GraphErrorCode
  node : Option UInt16 := none
  edge : Option Nat := none
  message : String
  deriving DecidableEq, Repr

namespace GraphError

def ofGraph (code : GraphErrorCode) (message : String) : GraphError := { code, message }

def ofNode (code : GraphErrorCode) (node : UInt16) (message : String) : GraphError :=
  { code, node := some node, message }

def ofEdge (code : GraphErrorCode) (edge : Nat) (message : String) : GraphError :=
  { code, edge := some edge, message }

end GraphError

end GraphBuilder

open GraphBuilder

/-- `GraphBuilder` -/
structure GraphBuilder where
  name : String
  input : UInt16
  success : UInt16
  errors : List UInt16
  nodes : List GraphBuilder.NodeKind := []
  edges : List GraphBuilder.Edge := []
  deadlines : List GraphBuilder.DeadlineRegion := []
  eachRegions : List EachRegion := []
  saga : Bool := false

namespace GraphBuilder

/-- `MAX_SAGA_STEPS` -/
def maxSagaSteps : Nat := 16

/-! ## Ports -/

/-- The types of a join's branches, in order. -/
def branchTypes (types : Vector (Option UInt16) maxAllBranches) : List UInt16 :=
  types.toList.filterMap id

/-- A node as an image has it: a join is left with the number of its branches. -/
def NodeKind.kind : NodeKind → Compiler.NodeKind
  | .action id => .action id
  | .dispatch variant => .dispatch variant
  | .fork input branches => .fork input branches
  | .join types => .join (UInt8.ofNat (branchTypes types).length)
  | .terminal outcome => .terminal outcome

/-- `node_id` -/
def nodeId (index : Nat) : UInt16 := UInt16.ofNat (index + 1)

/-- `terminal_name` -/
def terminalName : TerminalKind → String
  | .success => "success"
  | .knownFailure => "known-failure"
  | .notSent => "not-sent"
  | .unknown => "unknown"

/-- `source_name` -/
def sourceName : EdgeSource → String
  | .workflowInput => "workflow.input"
  | .actionSuccess node => s!"n{node}.success"
  | .actionError node => s!"n{node}.error"
  | .actionNotSent node => s!"n{node}.not-sent"
  | .actionUnknown node => s!"n{node}.unknown"
  | .dispatchCase node tag => s!"n{node}.case[{tag}]"
  | .forkBranch node branch => s!"n{node}.branch[{branch}]"
  | .joinField node field => s!"n{node}.field[{field}]"
  | .eachItem region => s!"each[{region}].item"
  | .eachOutput region => s!"each[{region}].output"

/-- `target_name` -/
def targetName : EdgeTarget → String
  | .actionInput node | .dispatchInput node | .forkInput node => s!"n{node}.input"
  | .joinInput node branch => s!"n{node}.branch[{branch}]"
  | .eachInput region => s!"each[{region}].input"
  | .eachCollect region => s!"each[{region}].collect"
  | .terminal node => s!"n{node}"

variable (graph : GraphBuilder) (catalog : Catalog)

/-- `node_at` -/
def nodeAt (node : UInt16) : Option NodeKind := Catalog.indexed graph.nodes node

/-- `each_region` -/
def eachRegion (region : UInt16) : Option EachRegion := Catalog.indexed graph.eachRegions region

/-- `source_node`: a region stands for its template, and its items come from outside. -/
def sourceNode : EdgeSource → Option UInt16
  | .workflowInput | .eachItem _ => none
  | .actionSuccess node | .actionError node | .actionNotSent node | .actionUnknown node
  | .dispatchCase node _ | .forkBranch node _ | .joinField node _ => some node
  | .eachOutput region => (graph.eachRegion region).map (·.template)

/-- `target_node` -/
def targetNode : EdgeTarget → Option UInt16
  | .actionInput node | .dispatchInput node | .forkInput node | .joinInput node _
  | .terminal node => some node
  | .eachInput region => (graph.eachRegion region).map (·.template)
  | .eachCollect _ => none

/-- `node_for_target` -/
def nodeForTarget : EdgeTarget → Option NodeKind
  | .actionInput node | .dispatchInput node | .forkInput node | .joinInput node _
  | .terminal node => graph.nodeAt node
  | .eachInput region | .eachCollect region =>
      (graph.eachRegion region).bind fun each => graph.nodeAt each.template

/-- `action_for_node` -/
def actionForNode (node : UInt16) : Except GraphError Catalog.ActionDef :=
  match graph.nodeAt node with
  | some (.action id) =>
      match catalog.action id with
      | some action => .ok action
      | none => .error (.ofNode .unknownAction node s!"unknown Action ID {id}")
  | _ => .error (.ofNode .invalidEndpoint node "edge source does not reference an Action node")

/-- `dispatch_case_type` -/
def dispatchCaseType (node : UInt16) (tag : UInt8) : Except GraphError UInt16 :=
  match graph.nodeAt node with
  | some (.dispatch variant) =>
      match (catalog.variantCases variant).bind (·[tag.toNat]?) with
      | some (_, payload) => .ok payload
      | none => .error (.ofNode .invalidEndpoint node s!"Dispatch has no case tag {tag}")
  | _ => .error (.ofNode .invalidEndpoint node "edge source does not reference a Dispatch node")

/-- `source_value_type`: the type of a value that leaves the port, if one does. -/
def sourceValueType : EdgeSource → Except GraphError (Option UInt16)
  | .workflowInput => .ok (some graph.input)
  | .actionSuccess node => (graph.actionForNode catalog node).map fun action => some action.success
  | .actionError node => (graph.actionForNode catalog node).map fun action => some action.error
  | .actionNotSent node | .actionUnknown node =>
      (graph.actionForNode catalog node).map fun _ => none
  | .dispatchCase node tag => (graph.dispatchCaseType catalog node tag).map some
  | .forkBranch node tag =>
      match graph.nodeAt node with
      | some (.fork input branches) =>
          if tag < branches then .ok (some input)
          else .error (.ofNode .invalidEndpoint node s!"Fork has no branch {tag}")
      | _ => .error (.ofNode .invalidEndpoint node s!"Fork has no branch {tag}")
  | .joinField node tag =>
      match graph.nodeAt node with
      | some (.join types) =>
          match (types.toList[tag.toNat]?).join with
          | some type => .ok (some type)
          | none => .error (.ofNode .invalidEndpoint node s!"Join has no field {tag}")
      | _ => .error (.ofNode .invalidEndpoint node "edge source does not reference a Join node")
  | .eachItem region =>
      match graph.eachRegion region with
      | some each => .ok (some each.itemInput)
      | none => .error (.ofGraph .invalidEndpoint s!"unknown Each region {region}")
  | .eachOutput region =>
      match graph.eachRegion region with
      | some each => .ok (some each.collected)
      | none => .error (.ofGraph .invalidEndpoint s!"unknown Each region {region}")

/-- `TargetExpectation` -/
inductive TargetExpectation where
  | one (type : UInt16)
  | any (types : List UInt16)
  | none

/-- `target_expected_type` -/
def targetExpectedType (port : EdgeTarget) (target : NodeKind) : TargetExpectation :=
  match port with
  | .eachInput region =>
      (graph.eachRegion region).elim .none fun each => .one each.sourceList
  | .eachCollect region =>
      (graph.eachRegion region).elim .none fun each => .one each.itemOutput
  | _ =>
      match target with
      | .action id => (catalog.action id).elim .none fun action => .one action.input
      | .dispatch variant => .one variant
      | .fork input _ => .one input
      | .join types =>
          match port with
          | .joinInput _ tag => ((types.toList[tag.toNat]?).join).elim .none .one
          | _ => .none
      | .terminal .success => .one graph.success
      | .terminal .knownFailure => .any graph.errors
      | .terminal .notSent | .terminal .unknown => .none

/-! ## Limits, regions and types -/

def verifyLimits : Except GraphError Unit := do
  let nodes := graph.nodes.length
  let edges := graph.edges.length
  require (nodes ≤ maxNodes ∧ edges ≤ maxEdges) (.ofGraph .limitExceeded
    s!"graph has {nodes} nodes and {edges} edges; limits are {maxNodes} and {maxEdges}")
  require (graph.deadlines.length ≤ 8)
    (.ofGraph .limitExceeded "graph contains more than 8 deadline regions")

/-- One deadline region; `prior` are those in front of it. -/
def verifyDeadline (prior : List DeadlineRegion) (region : DeadlineRegion) :
    Except GraphError Unit :=
  let regionId := prior.length + 1
  let root : Bool := region.firstNode == 0 && region.nodeCount == 0
  require (region.durationMs ≠ 0 ∧ (region.parent = 0 ∨ region.parent.toNat < regionId) ∧
      (root = true → prior.length = 0 ∧ region.parent = 0) ∧
      (root = false → region.nodeCount ≠ 0 ∧
        region.firstNode.toNat + region.nodeCount.toNat - 1 ≤ graph.nodes.length))
    (.ofGraph .invalidRoute s!"deadline region {regionId} has invalid bounds or parent")

def isAction : NodeKind → Bool
  | .action _ => true
  | _ => false

/-- A node that a saga may not have. -/
def isBranching : NodeKind → Bool
  | .dispatch _ | .fork .. | .join _ => true
  | _ => false

/-- A saga's action declares its compensation. -/
def verifyCompensation (prior : List NodeKind) (node : NodeKind) : Except GraphError Unit :=
  match node with
  | .action id =>
      match catalog.action id with
      | none => .error (.ofNode .unknownAction (nodeId prior.length) s!"unknown Action ID {id}")
      | some action =>
          let name := catalog.actionName id
          require (action.compensation ≠ .none) (.ofNode .invalidRoute (nodeId prior.length)
            s!"Action {name} declares no compensation and cannot enter a saga")
  | _ => .ok ()

def verifySaga : Except GraphError Unit := do
  if graph.saga then
    let count := graph.nodes.countP isAction
    require (count ≠ 0 ∧ count ≤ maxSagaSteps)
      (.ofGraph .limitExceeded s!"a saga must contain 1..={maxSagaSteps} Actions")
    require (¬ graph.nodes.any isBranching ∧ graph.eachRegions.isEmpty)
      (.ofGraph .invalidRoute "the initial saga slice must be a sequential Action pipeline")
    checkEach (verifyCompensation catalog) [] graph.nodes
  else pure ()

/-- One each region; `prior` are those in front of it. -/
def verifyEachRegion (prior : List EachRegion) (region : EachRegion) : Except GraphError Unit :=
  let regionId := prior.length + 1
  let template := (graph.nodeAt region.template).bind fun node =>
    match node with
    | .action id => catalog.action id
    | _ => none
  require (region.bound ≠ 0 ∧ region.concurrency ≠ 0 ∧
      region.concurrency.toNat ≤ region.bound.toNat ∧
      catalog.listElement region.sourceList = some (region.itemInput, region.bound) ∧
      (catalog.listElement region.collected).any (fun item =>
        item.1 == region.itemOutput && region.bound ≤ item.2) ∧
      template.any (fun action => action.success == region.itemOutput) ∧
      ¬ prior.any (fun other => other.template == region.template))
    (.ofGraph .invalidRoute s!"Each region {regionId} has an invalid bound, type, or template")

def verifyTypes : Except GraphError Unit := do
  checkEach (fun _ type => require ((catalog.typeDef type).isSome)
    (.ofGraph .unknownType s!"workflow references unknown type ID {type}")) []
    (graph.input :: graph.success :: graph.errors)
  require graph.errors.Nodup
    (.ofGraph .duplicateErrorType "workflow error set contains a duplicate nominal type")

/-! ## Nodes -/

/-- One node; `prior` are those in front of it. -/
def verifyNode (prior : List NodeKind) (node : NodeKind) : Except GraphError Unit :=
  let id := nodeId prior.length
  match node with
  | .action action =>
      require ((catalog.action action).isSome)
        (.ofNode .unknownAction id s!"unknown Action ID {action}")
  | .dispatch variant =>
      let name := catalog.typeName variant
      require ((catalog.variantCases variant).isSome)
        (.ofNode .unknownType id s!"{name} is not a dispatchable named variant")
  | .fork input branches =>
      require ((catalog.typeDef input).isSome ∧ 2 ≤ branches ∧ branches.toNat ≤ maxAllBranches)
        (.ofNode .invalidPortCardinality id
          s!"Fork must reference a known type and have 2..={maxAllBranches} branches")
  | .join types =>
      let count := (branchTypes types).length
      require (2 ≤ count ∧ count ≤ maxAllBranches ∧
          (branchTypes types).all fun type => (catalog.typeDef type).isSome)
        (.ofNode .invalidPortCardinality id
          s!"Join must contain 2..={maxAllBranches} known branch types")
  | .terminal _ => .ok ()

def isTerminal (kind : TerminalKind) (node : NodeKind) : Bool := node == .terminal kind

/-- `verify_terminals` -/
def verifyTerminals : Except GraphError Unit :=
  checkEach (fun _ kind => do
    let count := graph.nodes.countP (isTerminal kind)
    let name := terminalName kind
    require (count ≠ 0) (.ofGraph .missingTerminal s!"missing {name} terminal")
    require (count ≤ 1) (.ofGraph .duplicateTerminal s!"duplicate {name} terminal")) []
    [TerminalKind.success, .knownFailure, .notSent, .unknown]

/-! ## Edges -/

/-- The type that a value has behind an edge. -/
def presentedType (index : Nat) (edge : Edge) (sourceType : UInt16) : Except GraphError UInt16 :=
  match edge.presentation with
  | none => .ok sourceType
  | some presentation => do
      require ((catalog.typeDef presentation).isSome) (.ofEdge .unknownType index
        s!"presentation references unknown type ID {presentation}")
      match catalog.representationCompatible sourceType presentation with
      | .error path =>
          let source := catalog.typeName sourceType
          let destination := catalog.typeName presentation
          .error (.ofEdge .representationMismatch index
            s!"cannot present {source} as {destination}: {path}")
      | .ok _ => .ok presentation

/-- The type behind an edge is the one its target takes. -/
def verifyExpectation (index : Nat) (edge : Edge) (effective : UInt16) :
    TargetExpectation → Except GraphError Unit
  | .one type =>
      let source := sourceName edge.source
      let supplied := catalog.typeName effective
      let target := targetName edge.target
      let expected := catalog.typeName type
      require (effective = type) (.ofEdge .nominalMismatch index
        s!"{source} supplies {supplied}, but {target} expects {expected}")
  | .any types =>
      let supplied := catalog.typeName effective
      require (effective ∈ types) (.ofEdge .nominalMismatch index
        s!"{supplied} is not one of the workflow's declared error types")
  | .none => .error (.ofEdge .invalidRoute index
      "typed edge targets an untyped delivery-outcome terminal")

/-- One edge; `prior` are those in front of it. -/
def verifyEdge (prior : List Edge) (edge : Edge) : Except GraphError Unit := do
  let index := prior.length
  let source := sourceName edge.source
  let target := targetName edge.target
  require (¬ prior.any (fun other => other.source == edge.source && other.target == edge.target))
    (.ofEdge .duplicateEdge index s!"duplicate edge {source} -> {target}")
  let sourceType ← graph.sourceValueType catalog edge.source
  match graph.nodeForTarget edge.target with
  | none => .error (.ofEdge .invalidEndpoint index s!"invalid target {target}")
  | some node =>
      require (Compiler.verifyRoute edge.source edge.target node.kind)
        (.ofEdge .invalidRoute index s!"{source} cannot target {target}")
      match sourceType with
      | none => require (edge.presentation = none) (.ofEdge .invalidPresentation index
          "delivery-outcome edge cannot carry a nominal presentation")
      | some sourceType =>
          let effective ← presentedType catalog index edge sourceType
          verifyExpectation catalog index edge effective
            (graph.targetExpectedType catalog edge.target node)

/-- `verify_edges` -/
def verifyEdges : Except GraphError Unit :=
  checkEach (graph.verifyEdge catalog) [] graph.edges

/-! ## Cycles -/

/-- The edges between nodes of the graph, as pairs of indices. -/
def links : List (Nat × Nat) :=
  graph.edges.filterMap fun edge => do
    let source ← graph.sourceNode edge.source
    let target ← graph.targetNode edge.target
    if source ≠ 0 ∧ source.toNat ≤ graph.nodes.length ∧ target ≠ 0 ∧
        target.toNat ≤ graph.nodes.length then
      some (source.toNat - 1, target.toNat - 1)
    else none

/-- Take one link into each target off the counts; targets without a further link are ready. -/
def releaseTargets : List Nat → List Nat → List Nat → List Nat × List Nat
  | [], incoming, ready => (incoming, ready)
  | target :: targets, incoming, ready =>
      let count := incoming.getD target 0 - 1
      let incoming := incoming.set target count
      releaseTargets targets incoming (if count = 0 then ready ++ [target] else ready)

/-- The loop of `verify_acyclic`: the number of nodes visited. A node is ready at most once, so
there are no more rounds than nodes. -/
def visitReady (links : List (Nat × Nat)) : Nat → List Nat → List Nat → Nat
  | 0, _, _ => 0
  | _, _, [] => 0
  | rounds + 1, incoming, index :: ready =>
      let targets := (links.filter (·.1 == index)).map (·.2)
      let (incoming, ready) := releaseTargets targets incoming ready
      visitReady links rounds incoming ready + 1

/-- `verify_acyclic` -/
def verifyAcyclic : Except GraphError Unit :=
  let count := graph.nodes.length
  let incoming := (List.range count).map fun index => graph.links.countP (·.2 == index)
  let ready := (List.range count).filter fun index => incoming.getD index 0 == 0
  require (visitReady graph.links count incoming ready = count)
    (.ofGraph .cycle "graph contains a cycle")

/-! ## Ports -/

/-- The edges out of a port. -/
def outgoing (source : EdgeSource) : Nat := graph.edges.countP (·.source == source)

/-- The edges into a port. -/
def incoming (target : EdgeTarget) : Nat := graph.edges.countP (·.target == target)

/-- A port with one edge; what it is called is part of the reason. -/
def expectOne (id : UInt16) (what : String) (count : Nat) (edges : String) : Except GraphError Unit :=
  require (count = 1) (.ofNode .invalidPortCardinality id
    s!"{what} has {count} {edges} edges; expected 1")

/-- One field of a join: the number of edges that leave it is added up. -/
def verifyField (id : UInt16) (outputs : Nat) (branch : Nat) : Except GraphError Nat := do
  let tag := UInt8.ofNat branch
  let inputs := graph.incoming (.joinInput id tag)
  let fields := graph.outgoing (.joinField id tag)
  require (inputs = 1 ∧ fields ≤ 1) (.ofNode .invalidPortCardinality id
    (s!"Join field {branch} has {inputs} inputs and {fields} outputs; " ++
      "expected 1 and at most 1"))
  pure (outputs + fields)

/-- The ports of one node; `prior` are those in front of it. -/
def verifyPorts (prior : List NodeKind) (node : NodeKind) : Except GraphError Unit :=
  let id := nodeId prior.length
  match node with
  | .action _ => do
      expectOne id "Action input" (graph.incoming (.actionInput id)) "incoming"
      checkEach (fun _ (port : String × EdgeSource) =>
        expectOne id ("Action " ++ port.1 ++ " port") (graph.outgoing port.2) "outgoing") []
        [("success", .actionSuccess id), ("error", .actionError id),
          ("not-sent", .actionNotSent id), ("unknown", .actionUnknown id)]
  | .dispatch variant => do
      expectOne id "Dispatch input" (graph.incoming (.dispatchInput id)) "incoming"
      checkEach (fun _ (tag : Nat) => expectOne id s!"Dispatch case {tag}"
        (graph.outgoing (.dispatchCase id (UInt8.ofNat tag))) "outgoing") []
        (List.range ((catalog.variantCases variant).elim 0 (·.length)))
  | .fork _ branches => do
      expectOne id "Fork input" (graph.incoming (.forkInput id)) "incoming"
      checkEach (fun _ (branch : Nat) => expectOne id s!"Fork branch {branch}"
        (graph.outgoing (.forkBranch id (UInt8.ofNat branch))) "outgoing") []
        (List.range branches.toNat)
  | .join types => do
      let outputs ← (List.range (branchTypes types).length).foldlM (graph.verifyField id) 0
      require (outputs ≠ 0) (.ofNode .invalidPortCardinality id
        "Join must expose at least one used result field")
  | .terminal _ => .ok ()

/-- The ports of one each region. -/
def verifyEachPorts (prior : List EachRegion) (region : EachRegion) : Except GraphError Unit :=
  let regionId := prior.length + 1
  let id := UInt16.ofNat regionId
  checkEach (fun _ (port : String × Nat) =>
    let label := port.1
    let count := port.2
    require (count = 1) (.ofNode .invalidPortCardinality region.template
      s!"Each region {regionId} {label} port has {count} edges; expected 1")) []
    [("input", graph.incoming (.eachInput id)), ("item", graph.outgoing (.eachItem id)),
      ("collect", graph.incoming (.eachCollect id)), ("output", graph.outgoing (.eachOutput id))]

/-- `verify_cardinality` -/
def verifyCardinality : Except GraphError Unit := do
  let inputs := graph.outgoing .workflowInput
  require (inputs = 1) (.ofGraph .invalidPortCardinality
    s!"workflow input has {inputs} outgoing edges; expected 1")
  checkEach (graph.verifyPorts catalog) [] graph.nodes
  checkEach graph.verifyEachPorts [] graph.eachRegions

/-! ## Reachability -/

/-- The nodes that the edges out of a node lead to. -/
def successors (node : UInt16) : List UInt16 :=
  graph.edges.filterMap fun edge =>
    if graph.sourceNode edge.source = some node then graph.targetNode edge.target else none

/-- The loop of `verify_reachability`. Every edge is followed once, so there are no more rounds
than edges, and those that come from the input. -/
def reachFrom : Nat → List UInt16 → List UInt16 → List UInt16
  | 0, reached, _ => reached
  | _, reached, [] => reached
  | rounds + 1, reached, node :: queue =>
      if node ∈ reached then reachFrom rounds reached queue
      else reachFrom rounds (node :: reached) (queue ++ graph.successors node)

/-- The nodes behind the input. -/
def inputNodes : List UInt16 :=
  graph.edges.filterMap fun edge =>
    if edge.source = .workflowInput then graph.targetNode edge.target else none

/-- `verify_reachability` -/
def verifyReachability : Except GraphError Unit :=
  let queue := graph.inputNodes
  let reached := graph.reachFrom (queue.length + graph.edges.length) [] queue
  checkEach (fun prior (_ : NodeKind) =>
    let id := nodeId prior.length
    require (id ∈ reached)
      (.ofNode .unreachableNode id "node is unreachable from the workflow input")) [] graph.nodes

/-- `verify` -/
def verify : Except GraphError Unit := do
  graph.verifyLimits
  checkEach graph.verifyDeadline [] graph.deadlines
  require (graph.eachRegions.length ≤ 8)
    (.ofGraph .limitExceeded "graph contains more than 8 Each regions")
  graph.verifySaga catalog
  checkEach (graph.verifyEachRegion catalog) [] graph.eachRegions
  graph.verifyTypes catalog
  checkEach (verifyNode catalog) [] graph.nodes
  graph.verifyTerminals
  graph.verifyEdges catalog
  graph.verifyAcyclic
  graph.verifyCardinality catalog
  graph.verifyReachability

/-! ## What is verified -/

variable {graph : GraphBuilder} {catalog : Catalog}

/-- What `verify` has checked. -/
structure Verified (graph : GraphBuilder) (catalog : Catalog) : Prop where
  limits : graph.verifyLimits = .ok ()
  deadlines : checkEach graph.verifyDeadline [] graph.deadlines = .ok ()
  eachCount : graph.eachRegions.length ≤ 8
  saga : graph.verifySaga catalog = .ok ()
  eachRegions : checkEach (graph.verifyEachRegion catalog) [] graph.eachRegions = .ok ()
  types : graph.verifyTypes catalog = .ok ()
  nodes : checkEach (verifyNode catalog) [] graph.nodes = .ok ()
  terminals : graph.verifyTerminals = .ok ()
  edges : graph.verifyEdges catalog = .ok ()
  acyclic : graph.verifyAcyclic = .ok ()
  cardinality : graph.verifyCardinality catalog = .ok ()
  reachability : graph.verifyReachability = .ok ()

theorem verify_ok (h : graph.verify catalog = .ok ()) : Verified graph catalog := by
  simp only [verify, bind_ok, require_ok] at h
  obtain ⟨⟨⟩, limits, ⟨⟩, deadlines, ⟨⟩, eachCount, ⟨⟩, saga, ⟨⟩, eachRegions, ⟨⟩, types, ⟨⟩, nodes,
    ⟨⟩, terminals, ⟨⟩, edges, ⟨⟩, acyclic, ⟨⟩, cardinality, reachability⟩ := h
  exact ⟨limits, deadlines, eachCount, saga, eachRegions, types, nodes, terminals, edges, acyclic,
    cardinality, reachability⟩

theorem Verified.counts (h : Verified graph catalog) : graph.nodes.length ≤ Image.maxNodes ∧
    graph.edges.length ≤ Image.maxEdges ∧ graph.deadlines.length ≤ 8 := by
  have hlimits := h.limits
  simp only [verifyLimits, bind_ok, require_ok] at hlimits
  obtain ⟨⟨⟩, ⟨hnodes, hedges⟩, hdeadlines⟩ := hlimits
  exact ⟨hnodes, hedges, hdeadlines⟩

/-- What `verify_edges` has checked of an edge. -/
theorem Verified.edge (h : Verified graph catalog) {edge : Edge} (he : edge ∈ graph.edges) :
    ∃ node, graph.nodeForTarget edge.target = some node ∧
      Compiler.verifyRoute edge.source edge.target node.kind = true := by
  obtain ⟨before, hcheck⟩ := checkEach_mem h.edges he
  simp only [verifyEdge, bind_ok, require_ok] at hcheck
  obtain ⟨⟨⟩, -, sourceType, -, hcheck⟩ := hcheck
  split at hcheck
  · cases hcheck
  · rename_i node hnode
    simp only [bind_ok, require_ok] at hcheck
    obtain ⟨⟨⟩, hroute, -⟩ := hcheck
    exact ⟨node, hnode, hroute⟩

/-- What is reached was there or is entered by an edge. -/
theorem mem_reachFrom : ∀ (rounds : Nat) {reached queue : List UInt16} {node : UInt16},
    node ∈ graph.reachFrom rounds reached queue → node ∈ reached ∨ node ∈ queue ∨
      ∃ edge ∈ graph.edges, graph.targetNode edge.target = some node := by
  intro rounds
  induction rounds with
  | zero => intro reached queue node h; exact .inl h
  | succ rounds ih =>
      intro reached queue node h
      cases queue with
      | nil => exact .inl h
      | cons first queue =>
          rw [reachFrom] at h
          split at h
          · rcases ih h with hin | hin | hin
            · exact .inl hin
            · exact .inr (.inl (List.mem_cons_of_mem _ hin))
            · exact .inr (.inr hin)
          · rcases ih h with hin | hin | hin
            · rcases List.mem_cons.mp hin with rfl | hin
              · exact .inr (.inl List.mem_cons_self)
              · exact .inl hin
            · rcases List.mem_append.mp hin with hin | hin
              · exact .inr (.inl (List.mem_cons_of_mem _ hin))
              · obtain ⟨edge, hedge, htarget⟩ := List.mem_filterMap.mp hin
                split at htarget
                · exact .inr (.inr ⟨edge, hedge, htarget⟩)
                · cases htarget
            · exact .inr (.inr hin)

/-- Every node of a verified graph is entered. -/
theorem Verified.entered (h : Verified graph catalog) {before after : List NodeKind}
    {node : NodeKind} (hnodes : graph.nodes = before ++ node :: after) :
    ∃ edge ∈ graph.edges, graph.targetNode edge.target = some (nodeId before.length) := by
  have hreached := checkEach_ok h.reachability before node after hnodes
  rw [List.nil_append, require_ok] at hreached
  rcases mem_reachFrom _ hreached with hin | hin | hin
  · cases hin
  · obtain ⟨edge, hedge, htarget⟩ := List.mem_filterMap.mp hin
    split at htarget
    · exact ⟨edge, hedge, htarget⟩
    · cases htarget
  · exact hin

theorem nodeForTarget_eq {target : EdgeTarget} {node : UInt16}
    (h : graph.targetNode target = some node) : graph.nodeForTarget target = graph.nodeAt node := by
  cases target with
  | eachInput region =>
      obtain ⟨each, heach, rfl⟩ := Option.map_eq_some_iff.mp h
      rw [nodeForTarget, heach, Option.bind_some]
  | eachCollect region => cases h
  | _ => rw [nodeForTarget, Option.some.inj h]

theorem Verified.source (h : Verified graph catalog) {edge : Edge} (he : edge ∈ graph.edges) :
    ∃ type, graph.sourceValueType catalog edge.source = .ok type := by
  obtain ⟨before, hcheck⟩ := checkEach_mem h.edges he
  simp only [verifyEdge, bind_ok, require_ok] at hcheck
  obtain ⟨⟨⟩, -, type, htype, -⟩ := hcheck
  exact ⟨type, htype⟩

theorem mem_of_nodeAt {node : UInt16} {kind : NodeKind} (h : graph.nodeAt node = some kind) :
    kind ∈ graph.nodes := by
  unfold nodeAt Catalog.indexed at h
  split at h
  · cases h
  · exact List.mem_of_getElem? h

end GraphBuilder

/-! ## Resources -/

namespace GraphBuilder

variable (graph : GraphBuilder) (catalog : Catalog)

variable {graph : GraphBuilder} {catalog : Catalog}

end GraphBuilder

end Hermas
