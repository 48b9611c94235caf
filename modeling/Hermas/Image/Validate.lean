import Hermas.Base.Check
import Hermas.Image.Value

/-!
# The image loader

`imageValidate` follows the loader check by check and keeps its order, so that
the reason of a refusal is the source's reason. The source's arrays over nodes
are the list of node classes here, and its counters over edges are counts over
the edges read so far.
-/

namespace Hermas.Image

inductive ImageResult where
  | ok | truncated | badMagic | unsupportedVersion | invalidHeader | invalidOffset | invalidCount
  | invalidString | invalidRecord | duplicateRecord | invalidTopology | invalidValue
  | actionNotFound
  deriving DecidableEq, Repr

/-- `hermas_image_summary` -/
structure Summary where
  workflowName : Bytes
  inputType : UInt16
  successType : UInt16
  errorCount : Nat
  actionContractCount : Nat
  typeCount : Nat
  nodeCount : Nat
  edgeCount : Nat
  deriving DecidableEq, Repr

/-! ## Header and offsets -/

def validateFrame (bytes : Bytes) : Except ImageResult Unit := do
  require (headerSize ≤ bytes.length) .truncated
  require (bytes.length ≤ maxSize) .invalidHeader
  require (bytes.take 4 = magic) .badMagic
  require (bytes.readU16 4 = 1) .unsupportedVersion
  require ((bytes.readU16 6).toNat = headerSize ∧ (bytes.readU32 8).toNat = bytes.length ∧
    bytes.readU32 12 = 0 ∧ bytes.readU16 70 = 0 ∧ bytes.readU32 76 = 0) .invalidHeader

def validateCounts (header : Header) : Except ImageResult Unit :=
  require (header.inputType ≠ 0 ∧ header.successType ≠ 0 ∧ header.errorCount ≠ 0 ∧
    header.errorCount ≤ maxErrors ∧ header.actionContractCount ≠ 0 ∧
    header.actionContractCount ≤ maxActionContracts ∧ header.typeCount ≠ 0 ∧
    header.typeCount ≤ maxErrors ∧ header.nodeCount ≤ maxNodes ∧
    header.edgeCount ≤ maxEdges ∧ header.regionCount ≤ 40) .invalidCount

/-- The tables lie end to end. The counts are small, so no sum reaches `SIZE_MAX`. -/
def validateOffsets (bytes : Bytes) (header : Header) : Except ImageResult Unit :=
  let expectedActionContracts := (headerSize + header.errorCount * 2 + 3) / 4 * 4
  let expectedTypes := expectedActionContracts + header.actionContractCount * 36
  let expectedNodes := expectedTypes + header.typeCount * 8
  let expectedEdges := expectedNodes + header.nodeCount * 8
  let expectedRegions := expectedEdges + header.edgeCount * 16
  let expectedStrings := expectedRegions + header.regionCount * 16
  require (header.errorsOffset = headerSize ∧
    header.actionContractsOffset = expectedActionContracts ∧
    header.typesOffset = expectedTypes ∧ header.nodesOffset = expectedNodes ∧
    header.edgesOffset = expectedEdges ∧ header.regionsOffset = expectedRegions ∧
    header.representationsOffset = expectedStrings ∧
    header.stringsOffset = expectedStrings + header.representationsLength ∧
    header.nameOffset = header.stringsOffset ∧ header.nameOffset ≤ bytes.length ∧
    header.nameLength = bytes.length - header.nameOffset) .invalidOffset

def validateName (bytes : Bytes) (header : Header) : Except ImageResult Unit :=
  require (header.nameLength ≠ 0 ∧
    validUtf8 (bytes.slice header.nameOffset header.nameLength) = true) .invalidString

/-! ## Errors, contracts and types -/

def validateErrors (tables : Tables) : Except ImageResult Unit :=
  checkEach (fun prior value => require (value ≠ 0 ∧ ¬ value ∈ prior) .duplicateRecord) []
    tables.errors

def validateContracts (tables : Tables) : Except ImageResult Unit :=
  checkEach (fun prior contract =>
    require (contract.appId ≠ 0 ∧ contract.actionId ≠ 0 ∧
      ¬ prior.any (fun p => p.appId == contract.appId && p.actionId == contract.actionId))
      .invalidRecord) [] tables.contracts

/-- One type record: its descriptor stands at the cursor. -/
def validateType (bytes : Bytes) (stringsOffset : Nat) (state : List TypeRecord × Nat)
    (record : TypeRecord) : Except ImageResult (List TypeRecord × Nat) := do
  require (record.typeId ≠ 0 ∧ record.reserved = 0 ∧ record.descriptor = state.2) .invalidRecord
  require (¬ state.1.any (fun p => p.typeId == record.typeId)) .invalidRecord
  match validateRepresentation bytes stringsOffset 65 state.2 with
  | none => .error .invalidRecord
  | some cursor => .ok (state.1 ++ [record], cursor)

def validateTypes (bytes : Bytes) (tables : Tables) : Except ImageResult Unit := do
  let (_, cursor) ← tables.types.foldlM (validateType bytes tables.header.stringsOffset)
    ([], tables.header.representationsOffset)
  require (cursor = tables.header.stringsOffset ∧ tables.containsType tables.header.inputType ∧
    tables.containsType tables.header.successType) .invalidRecord
  require (tables.errors.all tables.containsType) .invalidRecord

/-! ## Nodes -/

/-- What the loader remembers of a node. -/
inductive NodeClass where
  | action
  | terminal (subtype : UInt8)
  | dispatch (type : UInt16) (cases : UInt16)
  | fork (type : UInt16) (branches : UInt8)
  | join (branches : UInt8)
  deriving DecidableEq, Repr

def classifyNode (bytes : Bytes) (tables : Tables) (prior : List NodeClass) (node : Node) :
    Except ImageResult NodeClass :=
  if node.kind = 1 ∧ node.subtype = 0 ∧ node.action ≠ 0 ∧ node.reserved = 0 ∧
      tables.containsActionContract node.app node.action then
    .ok .action
  else if node.kind = 3 ∧ node.subtype = 0 ∧ node.action ≠ 0 ∧ node.app = 0 ∧
      node.reserved = 0 then
    match tables.descriptor node.action with
    | none => .error .invalidRecord
    | some (descriptor, _) =>
        let cases := bytes.readU16 (descriptor + 2)
        if bytes.readU8 descriptor ≠ 8 ∨ maxEdges < cases.toNat then .error .invalidRecord
        else .ok (.dispatch node.action cases)
  else if node.kind = 4 ∧ 2 ≤ node.subtype ∧ node.subtype.toNat ≤ maxAllBranches ∧
      node.action ≠ 0 ∧ node.app = 0 ∧ node.reserved = 0 ∧ tables.containsType node.action then
    .ok (.fork node.action node.subtype)
  else if node.kind = 5 ∧ 2 ≤ node.subtype ∧ node.subtype.toNat ≤ maxAllBranches ∧
      node.action = 0 ∧ node.app = 0 ∧ node.reserved = 0 then
    .ok (.join node.subtype)
  else if node.kind = 2 ∧ 1 ≤ node.subtype ∧ node.subtype ≤ 4 ∧ node.action = 0 ∧
      node.app = 0 ∧ node.reserved = 0 ∧ ¬ .terminal node.subtype ∈ prior then
    .ok (.terminal node.subtype)
  else .error .invalidRecord

def validateNodes (bytes : Bytes) (tables : Tables) : Except ImageResult (List NodeClass) := do
  let classes ← tables.nodes.foldlM
    (fun classes node => do
      let class_ ← classifyNode bytes tables classes node
      pure (classes ++ [class_])) []
  require (.terminal 1 ∈ classes ∧ .terminal 2 ∈ classes ∧ .terminal 3 ∈ classes ∧
    .terminal 4 ∈ classes) .invalidTopology
  pure classes

/-- Nodes are numbered from 1. -/
def classAt (classes : List NodeClass) (node : UInt16) : Option NodeClass :=
  if node = 0 then none else classes[node.toNat - 1]?

def isActionNode (classes : List NodeClass) (node : UInt16) : Bool :=
  classAt classes node == some .action

/-! ## Regions -/

structure EachRegion where
  concurrency : UInt8
  template : UInt16
  sourceList : UInt16
  itemInput : UInt16
  itemOutput : UInt16
  collected : UInt16
  bound : UInt16
  deriving DecidableEq, Repr

def EachRegion.read (region : Region) : EachRegion where
  concurrency := region.readU8 1
  template := region.readU16 2
  sourceList := region.readU16 4
  itemInput := region.readU16 6
  itemOutput := region.readU16 8
  collected := region.readU16 10
  bound := region.readU16 12

/-- What the loader knows behind some of the regions; the saga maps are over nodes. -/
structure RegionState where
  deadlines : List (Nat × Nat) := []
  each : List EachRegion := []
  sagaCount : Nat := 0
  sagaOutcomeCount : Nat := 0
  lastSagaForward : UInt16 := 0
  sagaSourceType : UInt16 → UInt16 := fun _ => 0
  sagaSuccessType : UInt16 → UInt16 := fun _ => 0
  sagaErrorType : UInt16 → UInt16 := fun _ => 0

def validateDeadline (nodeCount : Nat) (state : RegionState) (region : Region) :
    Except ImageResult RegionState :=
  let first := (region.readU16 2).toNat
  let count := (region.readU16 4).toNat
  let parent := (region.readU16 6).toNat
  let last := first + count - 1
  let withinParent : Bool := parent == 0 || (parent ≤ state.deadlines.length &&
    state.deadlines[parent - 1]?.any fun outer => outer.1 ≤ first && last ≤ outer.2)
  if 8 ≤ state.deadlines.length ∨ state.each.length ≠ 0 ∨ state.sagaCount ≠ 0 ∨
      region.readU8 1 ≠ 0 ∨ first = 0 ∨ count = 0 ∨ nodeCount < last ∨
      state.deadlines.length < parent ∨ ¬ withinParent ∨
      (state.deadlines.length = 0 ∧ (first ≠ 1 ∨ count ≠ nodeCount ∨ parent ≠ 0)) ∨
      region.readU64 8 = 0 then
    .error .invalidRecord
  else .ok { state with deadlines := state.deadlines ++ [(first, last)] }

/-- A list type with a sufficient bound whose items are of another type. -/
def listOf (bytes : Bytes) (tables : Tables) (listType itemType : UInt16)
    (boundOk : UInt32 → Bool) : Bool :=
  match tables.descriptor listType, tables.descriptor itemType with
  | some list, some item =>
      bytes.readU8 list.1 == 7 && boundOk (bytes.readU32 (list.1 + 4)) &&
        match representationChild bytes list.1 list.2 0 with
        | none => false
        | some child => sameBytes bytes child item
  | _, _ => false

def validateEach (bytes : Bytes) (tables : Tables) (classes : List NodeClass)
    (state : RegionState) (region : Region) : Except ImageResult RegionState := do
  require (state.each.length < 8 ∧ state.sagaCount = 0) .invalidRecord
  let each := EachRegion.read region
  let sourceMatches := listOf bytes tables each.sourceList each.itemInput
    fun bound => bound.toNat == each.bound.toNat
  let outputMatches := listOf bytes tables each.collected each.itemOutput
    fun bound => each.bound.toNat ≤ bound.toNat
  require (each.concurrency ≠ 0 ∧ each.concurrency.toNat ≤ maxAllBranches ∧
    each.concurrency.toNat ≤ each.bound.toNat ∧ each.template ≠ 0 ∧
    each.template.toNat ≤ tables.header.nodeCount ∧ isActionNode classes each.template ∧
    sourceMatches ∧ outputMatches ∧ region.readU16 14 = 0) .invalidRecord
  pure { state with each := state.each ++ [each] }

def validateSagaStep (bytes : Bytes) (tables : Tables) (classes : List NodeClass)
    (state : RegionState) (region : Region) : Except ImageResult RegionState := do
  let forward := region.readU16 2
  let compensationApp := region.readU16 4
  let compensationAction := region.readU16 6
  let sourceType := region.readU16 8
  let destinationType := region.readU16 10
  let ordinal := region.readU16 12
  let compatible : Bool :=
    match tables.descriptor sourceType, tables.descriptor destinationType with
    | some source, some destination => sameBytes bytes source destination
    | _, _ => false
  require (region.readU8 1 = 0 ∧ forward ≠ 0 ∧ forward.toNat ≤ tables.header.nodeCount ∧
    isActionNode classes forward ∧ compensationApp ≠ 0 ∧ compensationAction ≠ 0 ∧
    tables.containsActionContract compensationApp compensationAction ∧
    ordinal.toNat = state.sagaCount + 1 ∧ state.sagaSourceType forward = 0 ∧ compatible ∧
    region.readU16 14 = 0) .invalidRecord
  pure { state with
    sagaSourceType := Function.update state.sagaSourceType forward sourceType
    lastSagaForward := forward
    sagaCount := state.sagaCount + 1 }

def validateSagaOutcome (tables : Tables) (state : RegionState) (region : Region) :
    Except ImageResult RegionState := do
  let forward := region.readU16 2
  let successType := region.readU16 4
  let errorType := region.readU16 6
  require (region.readU8 1 = 0 ∧ forward ≠ 0 ∧ forward.toNat ≤ tables.header.nodeCount ∧
    state.sagaSourceType forward ≠ 0 ∧ state.sagaCount = state.sagaOutcomeCount + 1 ∧
    forward = state.lastSagaForward ∧ state.sagaSuccessType forward = 0 ∧
    tables.containsType successType ∧ tables.containsType errorType ∧
    region.readU64 8 = 0) .invalidRecord
  pure { state with
    sagaSuccessType := Function.update state.sagaSuccessType forward successType
    sagaErrorType := Function.update state.sagaErrorType forward errorType
    sagaOutcomeCount := state.sagaOutcomeCount + 1 }

def validateRegion (bytes : Bytes) (tables : Tables) (classes : List NodeClass)
    (state : RegionState) (region : Region) : Except ImageResult RegionState :=
  let kind := region.readU8 0
  if kind = 1 then validateDeadline tables.header.nodeCount state region
  else if kind = 2 then validateEach bytes tables classes state region
  else if kind = 3 then validateSagaStep bytes tables classes state region
  else if kind = 4 then validateSagaOutcome tables state region
  else .error .invalidRecord

def validateRegions (bytes : Bytes) (tables : Tables) (classes : List NodeClass) :
    Except ImageResult RegionState :=
  tables.regions.foldlM (validateRegion bytes tables classes) {}

/-! ## Edges -/

/-- Each regions are numbered from 1. -/
def eachAt (regions : RegionState) (region : UInt16) : Option EachRegion :=
  if region = 0 then none else regions.each[region.toNat - 1]?

/-- The value behind a case of a dispatch is what the variant carries under that tag. -/
def validDispatchSource (bytes : Bytes) (tables : Tables) (classes : List NodeClass)
    (edge : Edge) : Bool :=
  edge.sourceKind == 5 &&
    match classAt classes edge.sourceNode with
    | some (.dispatch type cases) =>
        edge.caseTag.toNat < cases.toNat &&
          match tables.descriptor type, tables.descriptor edge.sourceType with
          | some variant, some source =>
              match representationChild bytes variant.1 variant.2 edge.caseTag.toNat with
              | none => false
              | some child => sameBytes bytes child source
          | _, _ => false
    | _ => false

def validSource (bytes : Bytes) (tables : Tables) (classes : List NodeClass)
    (regions : RegionState) (edge : Edge) : Bool :=
  (edge.sourceKind == 0 && edge.sourceNode == 0 && edge.sourceType == tables.header.inputType &&
    tables.containsType edge.sourceType) ||
  ((edge.sourceKind == 1 || edge.sourceKind == 2) && isActionNode classes edge.sourceNode &&
    tables.containsType edge.sourceType) ||
  ((edge.sourceKind == 3 || edge.sourceKind == 4) && isActionNode classes edge.sourceNode &&
    edge.sourceType == 0 && edge.targetType == 0) ||
  validDispatchSource bytes tables classes edge ||
  (edge.sourceKind == 6 &&
    match classAt classes edge.sourceNode with
    | some (.fork type branches) => edge.caseTag < branches && edge.sourceType == type
    | _ => false) ||
  (edge.sourceKind == 7 &&
    match classAt classes edge.sourceNode with
    | some (.join branches) => edge.caseTag < branches && tables.containsType edge.sourceType
    | _ => false) ||
  (edge.sourceKind == 8 && edge.caseTag == 0 &&
    match eachAt regions edge.sourceNode with
    | some each => edge.sourceType == each.itemInput
    | none => false) ||
  (edge.sourceKind == 9 && edge.caseTag == 0 &&
    match eachAt regions edge.sourceNode with
    | some each => edge.sourceType == each.collected
    | none => false)

def validTarget (tables : Tables) (classes : List NodeClass) (regions : RegionState)
    (edge : Edge) : Bool :=
  0 < edge.targetNode && edge.targetNode.toNat ≤ tables.header.nodeCount &&
    if edge.targetKind = 1 then
      isActionNode classes edge.targetNode && tables.containsType edge.targetType
    else if edge.targetKind = 2 then
      match classAt classes edge.targetNode with
      | some (.terminal subtype) =>
          (subtype == 1 && edge.targetType == tables.header.successType) ||
            (subtype == 2 && tables.errors.contains edge.targetType) ||
            ((subtype == 3 || subtype == 4) && edge.targetType == 0)
      | _ => false
    else if edge.targetKind = 3 then
      match classAt classes edge.targetNode with
      | some (.dispatch type _) => edge.targetType == type
      | _ => false
    else if edge.targetKind = 4 then
      match classAt classes edge.targetNode with
      | some (.fork type _) => edge.targetType == type
      | _ => false
    else if edge.targetKind = 5 then
      match classAt classes edge.targetNode with
      | some (.join branches) => edge.caseTag < branches && tables.containsType edge.targetType
      | _ => false
    else if edge.targetKind = 6 then
      match eachAt regions edge.targetNode with
      | some each => edge.targetType == each.sourceList && edge.caseTag == 0
      | none => false
    else if edge.targetKind = 7 then
      match eachAt regions edge.targetNode with
      | some each => edge.targetType == each.itemOutput && edge.caseTag == 0
      | none => false
    else false

def validPresentation (edge : Edge) : Bool :=
  (edge.flags == 0 && edge.presentation == 0) ||
    (edge.flags == 1 && edge.presentation == edge.targetType)

/-- The five fields that tell two edges apart. -/
def sameEdge (a b : Edge) : Bool :=
  a.sourceKind == b.sourceKind && a.sourceNode == b.sourceNode && a.caseTag == b.caseTag &&
    a.targetKind == b.targetKind && a.targetNode == b.targetNode

/-- `input_counts`: the edges into a node that takes one input. -/
def inputCount (edges : List Edge) (node : UInt16) : Nat :=
  edges.countP fun e =>
    (e.targetKind == 1 || e.targetKind == 3 || e.targetKind == 4) && e.targetNode == node

/-- `join_input_counts`, `each_input_counts` and `each_collect_counts`. -/
def targetCount (edges : List Edge) (kind : UInt8) (node : UInt16) (tag : UInt8) : Nat :=
  edges.countP fun e => e.targetKind == kind && e.targetNode == node && e.caseTag == tag

/-- The edges out of one port. -/
def sourceCount (edges : List Edge) (kind : UInt8) (node : UInt16) : Nat :=
  edges.countP fun e => e.sourceKind == kind && e.sourceNode == node

/-- The edges out of one case, branch or field. -/
def caseCount (edges : List Edge) (kind : UInt8) (node : UInt16) (tag : UInt8) : Nat :=
  edges.countP fun e => e.sourceKind == kind && e.sourceNode == node && e.caseTag == tag

/-- One round of the edge loop; `prior` are the edges of the rounds before. -/
def validateEdge (bytes : Bytes) (tables : Tables) (classes : List NodeClass)
    (regions : RegionState) (prior : List Edge) (edge : Edge) : Except ImageResult Unit := do
  require (validSource bytes tables classes regions edge ∧ validTarget tables classes regions edge ∧
    validPresentation edge ∧
    ¬ (edge.sourceKind ≠ 5 ∧ edge.sourceKind ≠ 6 ∧ edge.sourceKind ≠ 7 ∧ edge.sourceKind ≠ 8 ∧
      edge.sourceKind ≠ 9 ∧ edge.targetKind ≠ 5 ∧ edge.caseTag ≠ 0) ∧
    edge.reserved = 0) .invalidRecord
  require (¬ prior.any (sameEdge edge)) .duplicateRecord
  let edges := prior ++ [edge]
  require (¬ ((edge.targetKind = 1 ∨ edge.targetKind = 3 ∨ edge.targetKind = 4) ∧
    1 < inputCount edges edge.targetNode)) .invalidTopology
  require (¬ ((edge.targetKind = 5 ∨ edge.targetKind = 6 ∨ edge.targetKind = 7) ∧
    1 < targetCount edges edge.targetKind edge.targetNode edge.caseTag)) .invalidTopology
  require (¬ (5 ≤ edge.sourceKind ∧
    1 < caseCount edges edge.sourceKind edge.sourceNode edge.caseTag)) .invalidTopology

def validateEdges (bytes : Bytes) (tables : Tables) (classes : List NodeClass)
    (regions : RegionState) : Except ImageResult Unit := do
  checkEach (validateEdge bytes tables classes regions) [] tables.edges
  require (tables.edges.countP (·.sourceKind == 0) = 1) .invalidTopology

/-! ## Topology -/

/-- The source type of the last success edge of a node. -/
def actionSuccessType (edges : List Edge) (node : UInt16) : UInt16 :=
  match edges.reverse.find? fun e => e.sourceKind == 1 && e.sourceNode == node with
  | some edge => edge.sourceType
  | none => 0

/-- `join_input_types` -/
def joinInputType (edges : List Edge) (node : UInt16) (tag : UInt8) : UInt16 :=
  match edges.find? fun e => e.targetKind == 5 && e.targetNode == node && e.caseTag == tag with
  | some edge => edge.targetType
  | none => 0

/-- `join_output_types` -/
def joinOutputType (edges : List Edge) (node : UInt16) (tag : UInt8) : UInt16 :=
  match edges.find? fun e => e.sourceKind == 7 && e.sourceNode == node && e.caseTag == tag with
  | some edge => edge.sourceType
  | none => 0

/-- The tags `0 .. count - 1`; the counts of an accepted image are below 256. -/
def tags (count : Nat) : List UInt8 := (List.range count).map UInt8.ofNat

def nodeTopology (edges : List Edge) (regions : RegionState) (node : UInt16) :
    NodeClass → Bool
  | .action =>
      inputCount edges node == 1 && sourceCount edges 1 node == 1 &&
        sourceCount edges 2 node == 1 && sourceCount edges 3 node == 1 &&
        sourceCount edges 4 node == 1 &&
        (regions.sagaCount == 0 ||
          (regions.sagaSourceType node != 0 && regions.sagaSuccessType node != 0 &&
            regions.sagaErrorType node != 0 &&
            regions.sagaSourceType node == actionSuccessType edges node))
  | .terminal _ => true
  | .dispatch _ cases =>
      inputCount edges node == 1 &&
        (List.range cases.toNat).all fun tag => caseCount edges 5 node (UInt8.ofNat tag) == 1
  | .fork _ branches =>
      inputCount edges node == 1 &&
        (tags branches.toNat).all fun tag => caseCount edges 6 node tag == 1
  | .join branches =>
      (tags branches.toNat).all (fun tag =>
        targetCount edges 5 node tag == 1 && caseCount edges 7 node tag ≤ 1 &&
          (caseCount edges 7 node tag != 1 ||
            joinInputType edges node tag == joinOutputType edges node tag)) &&
        (tags branches.toNat).any fun tag => caseCount edges 7 node tag != 0

/-- The node ids of an image, in order. -/
def nodeIds (classes : List NodeClass) : List UInt16 :=
  (List.range classes.length).map fun index => UInt16.ofNat (index + 1)

/-- An edge between nodes of the graph, each regions contracted onto their templates. -/
def graphSource (regions : RegionState) (edge : Edge) : UInt16 :=
  if edge.sourceKind = 8 then 0
  else if edge.sourceKind = 9 then (eachAt regions edge.sourceNode).elim 0 (·.template)
  else edge.sourceNode

def graphTarget (regions : RegionState) (edge : Edge) : UInt16 :=
  if edge.targetKind = 6 then (eachAt regions edge.targetNode).elim 0 (·.template)
  else if edge.targetKind = 7 then 0
  else edge.targetNode

/-- One edge of a pass over the edges. -/
def reachEdge (regions : RegionState) (reachable : List UInt16) (edge : Edge) : List UInt16 :=
  let source := graphSource regions edge
  let target := graphTarget regions edge
  if edge.sourceKind ≠ 0 ∧ source ≠ 0 ∧ target ≠ 0 ∧ source ∈ reachable ∧ ¬ target ∈ reachable then
    target :: reachable
  else reachable

/-- At most `passes` passes; one that adds nothing is the last. -/
def reachPasses (regions : RegionState) (edges : List Edge) :
    Nat → List UInt16 → List UInt16
  | 0, reachable => reachable
  | passes + 1, reachable =>
      let next := edges.foldl (reachEdge regions) reachable
      if next.length = reachable.length then next else reachPasses regions edges passes next

def reachableNodes (regions : RegionState) (edges : List Edge) (nodeCount : Nat) : List UInt16 :=
  reachPasses regions edges nodeCount
    ((edges.filter (·.sourceKind == 0)).map (graphTarget regions) |>.filter (· != 0))

def validateTopology (tables : Tables) (classes : List NodeClass) (regions : RegionState) :
    Except ImageResult Unit := do
  require (∀ entry ∈ (nodeIds classes).zip classes,
    nodeTopology tables.edges regions entry.1 entry.2) .invalidTopology
  require (regions.sagaCount = 0 ∨ (regions.sagaCount = classes.countP (· == .action) ∧
    regions.sagaOutcomeCount = regions.sagaCount)) .invalidTopology
  require (∀ index ∈ List.range regions.each.length,
    targetCount tables.edges 6 (UInt16.ofNat (index + 1)) 0 = 1 ∧
    targetCount tables.edges 7 (UInt16.ofNat (index + 1)) 0 = 1 ∧
    caseCount tables.edges 8 (UInt16.ofNat (index + 1)) 0 = 1 ∧
    caseCount tables.edges 9 (UInt16.ofNat (index + 1)) 0 = 1) .invalidTopology
  let reachable := reachableNodes regions tables.edges tables.header.nodeCount
  require ((nodeIds classes).all reachable.contains) .invalidTopology

/-! ## The loader -/

/-- The checks on the tables, with what they establish about nodes and regions. -/
def validateTables (bytes : Bytes) (tables : Tables) :
    Except ImageResult (List NodeClass × RegionState) := do
  validateErrors tables
  validateContracts tables
  validateTypes bytes tables
  let classes ← validateNodes bytes tables
  let regions ← validateRegions bytes tables classes
  validateEdges bytes tables classes regions
  validateTopology tables classes regions
  pure (classes, regions)

def summaryOf (bytes : Bytes) (header : Header) : Summary where
  workflowName := bytes.slice header.nameOffset header.nameLength
  inputType := header.inputType
  successType := header.successType
  errorCount := header.errorCount
  actionContractCount := header.actionContractCount
  typeCount := header.typeCount
  nodeCount := header.nodeCount
  edgeCount := header.edgeCount

/-- `hermas_image_validate` -/
def imageValidate (bytes : Bytes) : Except ImageResult Summary := do
  validateFrame bytes
  validateCounts (readHeader bytes)
  validateOffsets bytes (readHeader bytes)
  validateName bytes (readHeader bytes)
  let _ ← validateTables bytes (readTables bytes)
  pure (summaryOf bytes (readHeader bytes))

end Hermas.Image

namespace Hermas

open Image in
/--
An accepted image with its tables. The daemon validates its image once and holds
it unchanged; the source validates it again inside every lookup, which an
accepted image passes.
-/
structure Image where
  bytes : Bytes
  tables : Tables
  tables_eq : readTables bytes = tables
  valid : (imageValidate bytes).toOption.isSome = true

namespace Image

/-- `hermas_image_validate_value` -/
def validateValue (image : Image) (typeId : UInt16) (payload : Bytes) : Bool :=
  validateValueIn image.bytes image.tables typeId payload

/-- `hermas_image_list_items` -/
def listItems (image : Image) (typeId : UInt16) (payload : Bytes) (capacity : Nat) :
    Option (List (Nat × Nat)) :=
  listItemsIn image.bytes image.tables typeId payload capacity

end Image

end Hermas
