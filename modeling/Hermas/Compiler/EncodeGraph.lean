import Hermas.Compiler.Decode
import Hermas.Compiler.GraphBuilder
import Hermas.Image.Encode
import Mathlib.Data.List.Dedup
import Mathlib.Data.List.Sort

/-!
# From a graph to its image

`image_view` puts next to each edge the types at its two ends, and `encode_graph_image`
lays the records end to end. A loader finds them again: the tables of an image that was
written from a layout are the layout's, because each offset in the header leaves room
for exactly the records in front of it (`Layout.tables_eq`). So what holds of the edges
of a verified graph holds of the edges of its image.
-/

namespace Hermas

open Compiler (EdgeSource EdgeTarget TerminalKind ImageError ImageErrorCode)
open Image (ActionContract EachRegion Layout Node)

namespace GraphBuilder

/-! ## The view of a graph -/

/-- `ImageEdge` -/
structure ImageEdge where
  source : EdgeSource
  target : EdgeTarget
  sourceType : Option UInt16
  targetType : Option UInt16
  presentation : Option UInt16
  deriving DecidableEq, Repr

/-- `SagaStep` -/
structure SagaStep where
  forward : UInt16
  compensation : UInt16
  sourceType : UInt16
  destinationType : UInt16
  successType : UInt16
  errorType : UInt16
  ordinal : UInt16
  deriving DecidableEq, Repr

variable (graph : GraphBuilder) (catalog : Catalog)

/-- An edge of `image_view`; a verified edge has a valid source. -/
def imageEdge (edge : Edge) : ImageEdge :=
  let sourceType := ((graph.sourceValueType catalog edge.source).toOption).join
  { source := edge.source
    target := edge.target
    sourceType
    targetType := edge.presentation.or sourceType
    presentation := edge.presentation }

/-- The compensation of one action of a saga. -/
def sagaStep (entry : NodeKind × Nat) : Option SagaStep :=
  match entry.1 with
  | .action id => do
      let action ← catalog.action id
      match action.compensation with
      | .none => none
      | .action compensation => do
          let compensated ← catalog.action compensation
          some {
            forward := nodeId entry.2
            compensation
            sourceType := action.success
            destinationType := compensated.input
            successType := compensated.success
            errorType := compensated.error
            ordinal := UInt16.ofNat (entry.2 + 1) }
  | _ => none

def imageEdges : List ImageEdge := graph.edges.map (graph.imageEdge catalog)

def sagaSteps : List SagaStep :=
  if graph.saga then graph.nodes.zipIdx.filterMap (sagaStep catalog) else []

/-! ## Records -/

/-- The elements of a `BTreeSet`, in order. -/
def sortedSet (ids : List UInt16) : List UInt16 := ids.dedup.insertionSort (· ≤ ·)

/-- The kind, the node and the tag of the port that an edge leaves. -/
def sourceRecord : EdgeSource → UInt8 × UInt16 × UInt8
  | .workflowInput => (0, 0, 0)
  | .actionSuccess node => (1, node, 0)
  | .actionError node => (2, node, 0)
  | .actionNotSent node => (3, node, 0)
  | .actionUnknown node => (4, node, 0)
  | .dispatchCase node tag => (5, node, tag)
  | .forkBranch node branch => (6, node, branch)
  | .joinField node field => (7, node, field)
  | .eachItem region => (8, region, 0)
  | .eachOutput region => (9, region, 0)

/-- The kind, the node and the tag, if any, of the port that an edge enters. -/
def targetRecord : EdgeTarget → UInt8 × UInt16 × Option UInt8
  | .actionInput node => (1, node, none)
  | .terminal node => (2, node, none)
  | .dispatchInput node => (3, node, none)
  | .forkInput node => (4, node, none)
  | .joinInput node branch => (5, node, some branch)
  | .eachInput region => (6, region, none)
  | .eachCollect region => (7, region, none)

/-- The record of an edge; the tag of the port it enters takes the place of the other. -/
def edgeRecord (edge : ImageEdge) : Image.Edge :=
  let (sourceKind, sourceNode, caseTag) := sourceRecord edge.source
  let (targetKind, targetNode, targetTag) := targetRecord edge.target
  { sourceKind
    targetKind
    flags := if edge.presentation.isSome then 1 else 0
    caseTag := targetTag.getD caseTag
    sourceNode
    targetNode
    sourceType := edge.sourceType.getD 0
    targetType := edge.targetType.getD 0
    presentation := edge.presentation.getD 0
    reserved := 0 }

/-- The subtype of a terminal. -/
def terminalRecord : TerminalKind → UInt8
  | .success => 1
  | .knownFailure => 2
  | .notSent => 3
  | .unknown => 4

/-- The record of a node. -/
def nodeRecord : NodeKind → Node
  | .action id =>
      { kind := 1, subtype := 0, action := id, app := (catalog.action id).elim 0 (·.app),
        reserved := 0 }
  | .dispatch variant => { kind := 3, subtype := 0, action := variant, app := 0, reserved := 0 }
  | .fork input branches =>
      { kind := 4, subtype := branches, action := input, app := 0, reserved := 0 }
  | .join types =>
      { kind := 5, subtype := UInt8.ofNat (branchTypes types).length, action := 0, app := 0,
        reserved := 0 }
  | .terminal kind =>
      { kind := 2, subtype := terminalRecord kind, action := 0, app := 0, reserved := 0 }

/-- The record of a deadline region; the one of the whole workflow names all nodes. -/
def deadlineRecord (nodeCount : Nat) (entry : DeadlineRegion × Nat) : Bytes :=
  let deadline := entry.1
  let root := entry.2 = 0 ∧ deadline.firstNode = 0
  [1, 0] ++ Bytes.writeU16 (if root then 1 else deadline.firstNode) ++
    Bytes.writeU16 (if root then UInt16.ofNat nodeCount else deadline.nodeCount) ++
    Bytes.writeU16 deadline.parent ++ Bytes.writeU64 deadline.durationMs

def eachRecord (region : EachRegion) : Bytes :=
  [2, region.concurrency] ++ Bytes.writeU16 region.template ++ Bytes.writeU16 region.sourceList ++
    Bytes.writeU16 region.itemInput ++ Bytes.writeU16 region.itemOutput ++
    Bytes.writeU16 region.collected ++ Bytes.writeU16 region.bound ++ Bytes.writeU16 0

/-- The two records of a compensation. -/
def sagaRecords (step : SagaStep) : List Bytes :=
  [[3, 0] ++ Bytes.writeU16 step.forward ++
      Bytes.writeU16 ((catalog.action step.compensation).elim 0 (·.app)) ++
      Bytes.writeU16 step.compensation ++ Bytes.writeU16 step.sourceType ++
      Bytes.writeU16 step.destinationType ++ Bytes.writeU16 step.ordinal ++ Bytes.writeU16 0,
    [4, 0] ++ Bytes.writeU16 step.forward ++ Bytes.writeU16 step.successType ++
      Bytes.writeU16 step.errorType ++ Bytes.writeU64 0]

def regionRecords : List Bytes :=
  graph.deadlines.zipIdx.map (deadlineRecord graph.nodes.length) ++
    graph.eachRegions.map eachRecord ++ (graph.sagaSteps catalog).flatMap (sagaRecords catalog)

/-! ## Encoding -/

/-- The actions that the image has a contract for. -/
def requiredActions : List UInt16 :=
  sortedSet (graph.nodes.filterMap (fun node => match node with | .action id => some id | _ => none) ++
    (graph.sagaSteps catalog).map (·.compensation))

/-- The contract of an action. -/
def actionContract (id : UInt16) : Except ImageError ActionContract :=
  match (catalog.action id).bind fun action => action.fingerprint.map fun f => (action.app, f) with
  | some (appId, fingerprint) => .ok { appId, actionId := id, fingerprint := fingerprint.1 }
  | none =>
      let name := catalog.actionName id
      .error {
        code := .missingFingerprint
        offset := none
        message := s!"Action `{name}` has no compiled contract fingerprint" }

/-- The types of the image. -/
def imageTypes : List UInt16 :=
  sortedSet (graph.input :: graph.success :: graph.errors ++
    (graph.imageEdges catalog).flatMap (fun edge =>
      [edge.sourceType, edge.targetType, edge.presentation].filterMap id) ++
    (graph.sagaSteps catalog).flatMap fun step =>
      [step.sourceType, step.destinationType, step.successType, step.errorType])

/-- A type with its descriptor. -/
def typeEntry (id : UInt16) : UInt16 × Bytes :=
  (id, (catalog.typeDef id).elim [] fun type =>
    Image.encodeRepresentation type.representation.nameless)

/-- What the image is written from. -/
def layout (contracts : List ActionContract) : Layout where
  inputType := graph.input
  successType := graph.success
  errors := graph.errors
  contracts
  types := (graph.imageTypes catalog).map (typeEntry catalog)
  nodes := graph.nodes.map (nodeRecord catalog)
  edges := (graph.imageEdges catalog).map edgeRecord
  regions := graph.regionRecords catalog
  name := graph.name.toUTF8.toList

/-- `encode_graph_image` -/
def encodeGraphImage : Except ImageError Bytes := do
  let contracts ← (graph.requiredActions catalog).mapM (actionContract catalog)
  let layout := graph.layout catalog contracts
  require (layout.size ≤ Image.maxSize) {
    code := .sizeOverflow
    offset := none
    message := "graph image exceeds the 1 MiB format limit" }
  require (layout.name.length < 65536) {
    code := .sizeOverflow
    offset := none
    message := "workflow name is too long" }
  pure layout.encode

variable {graph : GraphBuilder} {catalog : Catalog} {image : Image}

/-! ## What an image keeps of its graph -/

theorem mem_sortedSet {ids : List UInt16} {id : UInt16} : id ∈ sortedSet ids ↔ id ∈ ids := by
  rw [sortedSet, List.mem_insertionSort, List.mem_dedup]

theorem nodup_sortedSet (ids : List UInt16) : (sortedSet ids).Nodup :=
  (List.perm_insertionSort _ _).nodup_iff.mpr (List.nodup_dedup ids)

theorem length_sortedSet_le (ids : List UInt16) : (sortedSet ids).length ≤ ids.length := by
  rw [sortedSet, List.length_insertionSort]
  exact (List.dedup_sublist ids).length_le

theorem length_sagaSteps_le : (graph.sagaSteps catalog).length ≤ graph.nodes.length := by
  unfold sagaSteps
  split
  · exact (List.length_filterMap_le _ _).trans (by simp)
  · exact Nat.zero_le _

theorem length_requiredActions_le :
    (graph.requiredActions catalog).length ≤ 2 * graph.nodes.length := by
  have hforward := List.length_filterMap_le
    (fun node => match node with | .action id => some id | _ => none) graph.nodes
  have hsteps : (graph.sagaSteps catalog).length ≤ graph.nodes.length := length_sagaSteps_le
  refine (length_sortedSet_le _).trans ?_
  rw [List.length_append, List.length_map]
  omega

theorem actionContract_ok {id : UInt16} {contract : ActionContract}
    (h : actionContract catalog id = .ok contract) : ∃ action fingerprint,
      catalog.action id = some action ∧ action.fingerprint = some fingerprint ∧
        contract = { appId := action.app, actionId := id, fingerprint := fingerprint.1 } := by
  unfold actionContract at h
  split at h
  · rename_i appId fingerprint hsome
    obtain ⟨action, haction, hcarried⟩ := Option.bind_eq_some_iff.mp hsome
    obtain ⟨carried, hfingerprint, hpair⟩ := Option.map_eq_some_iff.mp hcarried
    obtain ⟨rfl, rfl⟩ := Prod.mk.inj hpair
    exact ⟨action, carried, haction, hfingerprint, (Except.ok.inj h).symm⟩
  · cases h

theorem length_regionRecords (hdeadlines : graph.deadlines.length ≤ 8)
    (heach : graph.eachRegions.length ≤ 8) (hnodes : graph.nodes.length ≤ Image.maxNodes) :
    (graph.regionRecords catalog).length < 65536 := by
  have hsteps : (graph.sagaSteps catalog).length ≤ graph.nodes.length := length_sagaSteps_le
  have hrecords : ((graph.sagaSteps catalog).flatMap (sagaRecords catalog)).length =
      2 * (graph.sagaSteps catalog).length := by
    rw [List.length_flatMap]
    simp [sagaRecords, Nat.mul_comm]
  have : Image.maxNodes = 64 := rfl
  simp only [regionRecords, List.length_append, List.length_map, List.length_zipIdx, hrecords]
  omega

theorem length_of_mem_regionRecords {region : Bytes} (h : region ∈ graph.regionRecords catalog) :
    region.length = 16 := by
  simp only [regionRecords, List.mem_append, List.mem_map, List.mem_flatMap] at h
  rcases h with (⟨entry, -, rfl⟩ | ⟨each, -, rfl⟩) | ⟨step, -, h⟩
  · simp [deadlineRecord]
  · simp [eachRecord]
  · simp only [sagaRecords, List.mem_cons, List.not_mem_nil, or_false] at h
    rcases h with rfl | rfl <;> simp

/-- An image that a verified graph was encoded to. -/
structure ImageOf (graph : GraphBuilder) (catalog : Catalog) (image : Image) : Prop where
  verified : graph.verify catalog = .ok ()
  encoded : graph.encodeGraphImage catalog = .ok image.bytes

/-- The image was written from a layout whose records are found again. -/
theorem ImageOf.written (h : ImageOf graph catalog image) : ∃ contracts,
    (graph.requiredActions catalog).mapM (actionContract catalog) = .ok contracts ∧
      (graph.layout catalog contracts).Fits ∧
      (graph.layout catalog contracts).encode = image.bytes := by
  have hverified := verify_ok h.verified
  obtain ⟨hnodes, hedges, hdeadlines⟩ := hverified.counts
  have hencoded := h.encoded
  simp only [encodeGraphImage, bind_ok, require_ok, pure_ok] at hencoded
  obtain ⟨contracts, hcontracts, ⟨⟩, hsize, ⟨⟩, -, hbytes⟩ := hencoded
  refine ⟨contracts, hcontracts, ⟨hsize, fun contract hmem => ?_, ?_, ?_,
    length_regionRecords hdeadlines hverified.eachCount hnodes,
    fun region hmem => length_of_mem_regionRecords hmem⟩, hbytes⟩
  · obtain ⟨id, -, hid⟩ := mapM_ok hcontracts contract hmem
    obtain ⟨-, fingerprint, -, -, rfl⟩ := actionContract_ok hid
    exact fingerprint.2
  · rw [layout, List.length_map]
    exact Nat.lt_of_le_of_lt hnodes (by decide)
  · rw [layout, List.length_map, imageEdges, List.length_map]
    exact Nat.lt_of_le_of_lt hedges (by decide)

theorem ImageOf.tables (h : ImageOf graph catalog image) :
    image.tables.nodes = graph.nodes.map (nodeRecord catalog) ∧
      image.tables.edges = (graph.imageEdges catalog).map edgeRecord ∧
      image.tables.regions = graph.regionRecords catalog := by
  obtain ⟨contracts, -, hfits, hbytes⟩ := h.written
  rw [← image.tables_eq, ← hbytes]
  exact hfits.readTables

/-- The image has a contract for each action that it needs one for. -/
theorem ImageOf.contracts (h : ImageOf graph catalog image) :
    (graph.requiredActions catalog).mapM (actionContract catalog) = .ok image.tables.contracts := by
  obtain ⟨contracts, hcontracts, hfits, hbytes⟩ := h.written
  have hids : contracts.map (·.actionId) = graph.requiredActions catalog :=
    mapM_map (fun id contract hid => by
      obtain ⟨-, -, -, -, rfl⟩ := actionContract_ok hid
      rfl) hcontracts
  have hcount : (graph.layout catalog contracts).contracts.length < 65536 := by
    have hlength := congrArg List.length hids
    rw [List.length_map] at hlength
    have hrequired : (graph.requiredActions catalog).length ≤ 2 * graph.nodes.length :=
      length_requiredActions_le
    have hnodes := (verify_ok h.verified).counts.1
    have : Image.maxNodes = 64 := rfl
    change contracts.length < 65536
    omega
  rw [← image.tables_eq, ← hbytes, hfits.readContracts hcount]
  exact hcontracts

theorem ImageOf.node (h : ImageOf graph catalog image) {id : UInt16} {node : NodeKind}
    (hnode : graph.nodeAt id = some node) : image.node id = nodeRecord catalog node := by
  unfold nodeAt Catalog.indexed at hnode
  split at hnode
  · cases hnode
  · rw [Image.node, h.tables.1, List.getElem?_map, hnode]
    rfl

theorem read_eachRecord (region : EachRegion) : EachRegion.read (eachRecord region) = region := by
  obtain ⟨concurrency, template, sourceList, itemInput, itemOutput, collected, bound⟩ := region
  simp [EachRegion.read, eachRecord, Bytes.readU8, Image.readU16_cons, Bytes.readU16_skip,
    Bytes.readU16_here]

theorem ImageOf.eachRegions (h : ImageOf graph catalog image) :
    image.eachRegions = graph.eachRegions := by
  have hdeadlines : (graph.deadlines.zipIdx.map (deadlineRecord graph.nodes.length)).filter
      (·.readU8 0 == 2) = [] := by
    rw [List.filter_eq_nil_iff]
    intro record hmem
    obtain ⟨entry, -, rfl⟩ := List.mem_map.mp hmem
    simp [deadlineRecord, Bytes.readU8]
  have heach : (graph.eachRegions.map eachRecord).filter (·.readU8 0 == 2) =
      graph.eachRegions.map eachRecord := by
    rw [List.filter_eq_self]
    simp [eachRecord, Bytes.readU8]
  have hsaga : ((graph.sagaSteps catalog).flatMap (sagaRecords catalog)).filter
      (·.readU8 0 == 2) = [] := by
    rw [List.filter_eq_nil_iff]
    intro record hmem
    obtain ⟨step, -, hrecord⟩ := List.mem_flatMap.mp hmem
    simp only [sagaRecords, List.mem_cons, List.not_mem_nil, or_false] at hrecord
    rcases hrecord with rfl | rfl <;> simp [Bytes.readU8]
  rw [Image.eachRegions, h.tables.2.2, regionRecords, List.filter_append, List.filter_append,
    hdeadlines, heach, hsaga, List.nil_append, List.append_nil, List.map_map]
  exact List.map_id'' read_eachRecord _

theorem ImageOf.eachAt (h : ImageOf graph catalog image) (region : UInt16) :
    Image.eachAt image.eachState region = graph.eachRegion region := by
  rw [Image.eachAt, Image.eachState, h.eachRegions]
  rfl

theorem nodeKind_nodeRecord (node : NodeKind) :
    Compiler.nodeKind (nodeRecord catalog node) = some node.kind := by
  cases node with
  | terminal kind => cases kind <;> rfl
  | _ => rfl

theorem ImageOf.nodeForTarget (h : ImageOf graph catalog image) {target : EdgeTarget}
    {node : NodeKind} (hnode : graph.nodeForTarget target = some node) :
    Compiler.nodeForTarget image target = some node.kind := by
  cases target with
  | eachInput region | eachCollect region =>
      obtain ⟨each, heach, htemplate⟩ := Option.bind_eq_some_iff.mp hnode
      rw [Compiler.nodeForTarget, h.eachAt, heach, Option.bind_some, h.node htemplate,
        nodeKind_nodeRecord]
  | _ => rw [Compiler.nodeForTarget, h.node hnode, nodeKind_nodeRecord]

theorem edgeTarget_edgeRecord (edge : ImageEdge) :
    Compiler.edgeTarget (edgeRecord edge) = some edge.target := by
  obtain ⟨source, target, _, _, _⟩ := edge
  cases target <;> rfl

/-- The tag of an admitted edge is that of its source, unless the edge enters a join. -/
theorem edgeSource_edgeRecord {edge : ImageEdge} {kind : Compiler.NodeKind}
    (h : Compiler.verifyRoute edge.source edge.target kind = true) :
    Compiler.edgeSource (edgeRecord edge) = some edge.source := by
  obtain ⟨source, target, _, _, _⟩ := edge
  cases target with
  | joinInput node branch =>
      cases source with
      | actionSuccess node => rfl
      | _ => cases h
  | _ => cases source <;> rfl

/-- **The edges of an image lead where the kernel lets them.** -/
theorem ImageOf.routed (h : ImageOf graph catalog image) {edge : Image.Edge}
    (he : edge ∈ image.tables.edges) : Compiler.Routed image edge := by
  rw [h.tables.2.1, imageEdges, List.map_map] at he
  obtain ⟨original, hmem, rfl⟩ := List.mem_map.mp he
  obtain ⟨node, hnode, hroute⟩ := (verify_ok h.verified).edge hmem
  exact ⟨original.source, original.target, node.kind, edgeSource_edgeRecord hroute,
    edgeTarget_edgeRecord _, h.nodeForTarget hnode, hroute⟩

/-- A fork that an edge of the image enters is one of the graph. -/
theorem ImageOf.fork (h : ImageOf graph catalog image) {edge : Image.Edge}
    (he : edge ∈ image.tables.edges) (hk : edge.targetKind = 4) :
    ∃ input, .fork input (image.node edge.targetNode).subtype ∈ graph.nodes := by
  rw [h.tables.2.1, imageEdges, List.map_map] at he
  obtain ⟨original, hmem, rfl⟩ := List.mem_map.mp he
  obtain ⟨node, hnode, hroute⟩ := (verify_ok h.verified).edge hmem
  rw [Function.comp_apply] at hk ⊢
  obtain ⟨id, htarget⟩ : ∃ id, original.target = .forkInput id := by
    have htarget := edgeTarget_edgeRecord (graph.imageEdge catalog original)
    rw [Compiler.edgeTarget, hk] at htarget
    exact ⟨_, (Option.some.inj htarget).symm⟩
  rw [htarget] at hnode hroute
  cases node with
  | fork input branches =>
      have hrecord : (edgeRecord (graph.imageEdge catalog original)).targetNode = id := by
        rw [edgeRecord, imageEdge, htarget]
        rfl
      refine ⟨input, ?_⟩
      rw [hrecord, h.node hnode]
      exact mem_of_nodeAt hnode
  | action | dispatch | join | terminal =>
      generalize original.source = source at hroute
      cases source <;> cases hroute

end GraphBuilder

end Hermas
