import Hermas.Image.Cycles
import Hermas.Image.Representation

/-!
# The rules of the graph kernel

The compiler admits an edge by three rules: which port may lead where, exact type
identity without a presentation, and compatible representations with one. An image
keeps the ports and the types of an edge. Neither decoder asks whether the two ends
of an edge fit each other; what they see to is that each end names a port of the
image and the type that the image gives to that port.
-/

namespace Hermas.Compiler

open Hermas.Image

/-! ## Ports -/

/-- `EdgeSource`; an each region is named by its number. -/
inductive EdgeSource where
  | workflowInput
  | actionSuccess (node : UInt16)
  | actionError (node : UInt16)
  | actionNotSent (node : UInt16)
  | actionUnknown (node : UInt16)
  | dispatchCase (node : UInt16) (tag : UInt8)
  | forkBranch (node : UInt16) (branch : UInt8)
  | joinField (node : UInt16) (field : UInt8)
  | eachItem (region : UInt16)
  | eachOutput (region : UInt16)
  deriving DecidableEq, Repr

/-- `EdgeTarget` -/
inductive EdgeTarget where
  | actionInput (node : UInt16)
  | dispatchInput (node : UInt16)
  | forkInput (node : UInt16)
  | joinInput (node : UInt16) (branch : UInt8)
  | eachInput (region : UInt16)
  | eachCollect (region : UInt16)
  | terminal (node : UInt16)
  deriving DecidableEq, Repr

/-- `TerminalKind` -/
inductive TerminalKind where
  | success
  | knownFailure
  | notSent
  | unknown
  deriving DecidableEq, Repr

/-- `NodeKind`; an image does not keep the types of a join. -/
inductive NodeKind where
  | action (action : UInt16)
  | dispatch (variant : UInt16)
  | fork (input : UInt16) (branches : UInt8)
  | join (branches : UInt8)
  | terminal (kind : TerminalKind)
  deriving DecidableEq, Repr

/-- The port that an edge record leaves, as `encode_graph_image` writes ports. -/
def edgeSource (edge : Edge) : Option EdgeSource :=
  match edge.sourceKind with
  | 0 => some .workflowInput
  | 1 => some (.actionSuccess edge.sourceNode)
  | 2 => some (.actionError edge.sourceNode)
  | 3 => some (.actionNotSent edge.sourceNode)
  | 4 => some (.actionUnknown edge.sourceNode)
  | 5 => some (.dispatchCase edge.sourceNode edge.caseTag)
  | 6 => some (.forkBranch edge.sourceNode edge.caseTag)
  | 7 => some (.joinField edge.sourceNode edge.caseTag)
  | 8 => some (.eachItem edge.sourceNode)
  | 9 => some (.eachOutput edge.sourceNode)
  | _ => none

/-- The port that an edge record enters. -/
def edgeTarget (edge : Edge) : Option EdgeTarget :=
  match edge.targetKind with
  | 1 => some (.actionInput edge.targetNode)
  | 2 => some (.terminal edge.targetNode)
  | 3 => some (.dispatchInput edge.targetNode)
  | 4 => some (.forkInput edge.targetNode)
  | 5 => some (.joinInput edge.targetNode edge.caseTag)
  | 6 => some (.eachInput edge.targetNode)
  | 7 => some (.eachCollect edge.targetNode)
  | _ => none

def terminalKind (subtype : UInt8) : Option TerminalKind :=
  match subtype with
  | 1 => some .success
  | 2 => some .knownFailure
  | 3 => some .notSent
  | 4 => some .unknown
  | _ => none

def nodeKind (node : Node) : Option NodeKind :=
  match node.kind with
  | 1 => some (.action node.action)
  | 2 => (terminalKind node.subtype).map .terminal
  | 3 => some (.dispatch node.action)
  | 4 => some (.fork node.action node.subtype)
  | 5 => some (.join node.subtype)
  | _ => none

/-- `node_for_target`: an each region stands for its template. -/
def nodeForTarget (image : Image) : EdgeTarget → Option NodeKind
  | .actionInput node | .dispatchInput node | .forkInput node | .joinInput node _
  | .terminal node => nodeKind (image.node node)
  | .eachInput region | .eachCollect region =>
      (eachAt image.eachState region).bind fun each => nodeKind (image.node each.template)

/-- `verify_route` -/
def verifyRoute : EdgeSource → EdgeTarget → NodeKind → Bool
  | .workflowInput, .actionInput _, .action _
  | .workflowInput, .dispatchInput _, .dispatch _
  | .workflowInput, .forkInput _, .fork _ _
  | .actionSuccess _, .actionInput _, .action _
  | .actionSuccess _, .dispatchInput _, .dispatch _
  | .actionSuccess _, .forkInput _, .fork _ _
  | .dispatchCase _ _, .forkInput _, .fork _ _
  | .joinField _ _, .forkInput _, .fork _ _
  | .forkBranch _ _, .actionInput _, .action _
  | .actionSuccess _, .joinInput _ _, .join _
  | .joinField _ _, .actionInput _, .action _
  | .eachItem _, .actionInput _, .action _
  | .actionSuccess _, .eachInput _, .action _
  | .workflowInput, .eachInput _, .action _
  | .actionSuccess _, .eachCollect _, .action _
  | .eachOutput _, .actionInput _, .action _
  | .actionError _, .actionInput _, .action _
  | .dispatchCase _ _, .actionInput _, .action _
  | .joinField _ _, .terminal _, .terminal .success
  | .eachOutput _, .terminal _, .terminal .success
  | .actionSuccess _, .terminal _, .terminal .success
  | .actionError _, .terminal _, .terminal .knownFailure
  | .actionNotSent _, .terminal _, .terminal .notSent
  | .actionUnknown _, .terminal _, .terminal .unknown => true
  | _, _, _ => false

/-! ## Representations -/

mutual

/-- `compatible_with`; the fields and the cases are compared in their order. -/
def compatibleWith : Representation → Representation → Bool
  | .unit, .unit | .integer, .integer | .boolean, .boolean => true
  | .string source, .string destination | .bytes source, .bytes destination =>
      source ≤ destination
  | .record fields, .record fields' => compatibleAll fields fields'
  | .list element source, .list element' destination =>
      source ≤ destination && compatibleWith element element'
  | .variant cases, .variant cases' => compatibleAll cases cases'
  | _, _ => false

def compatibleAll : List Representation → List Representation → Bool
  | [], [] => true
  | source :: sources, destination :: destinations =>
      compatibleWith source destination && compatibleAll sources destinations
  | _, _ => false

end

theorem encode_head (r : Representation) : (encodeRepresentation r).head? = some r.kind := by
  cases r <;> rfl

theorem compatible_kind {r s : Representation} (h : compatibleWith r s = true) :
    r.kind = s.kind := by
  cases r <;> cases s <;> first | rfl | simp [compatibleWith] at h

/-- The type has this representation in the image. -/
def Represented (image : Image) (typeId : UInt16) (r : Representation) : Prop :=
  ∃ range, image.tables.descriptor typeId = some range ∧
    image.bytes.slice range.1 (range.2 - range.1) = encodeRepresentation r

/-! ## The rules -/

/-- Without a presentation both ends have one type. -/
def Nominal (edge : Edge) : Prop := edge.presentation = 0 → edge.sourceType = edge.targetType

/-- What is presented as another type has a compatible representation. -/
def Presentable (image : Image) (edge : Edge) : Prop :=
  edge.presentation ≠ 0 → ∃ r s, Represented image edge.sourceType r ∧
    Represented image edge.presentation s ∧ compatibleWith r s = true

def Routed (image : Image) (edge : Edge) : Prop :=
  ∃ source target kind, edgeSource edge = some source ∧ edgeTarget edge = some target ∧
    nodeForTarget image target = some kind ∧ verifyRoute source target kind = true

/-- The rules of `verify_edges` for an edge of an image. -/
structure KernelRules (image : Image) (edge : Edge) : Prop where
  nominal : Nominal edge
  presentable : Presentable image edge
  routed : Routed image edge

/-- A port of the image and a type that a value leaving it has. -/
inductive SourcePort (image : Image) : EdgeSource → UInt16 → Prop
  | workflowInput (typed : image.tables.containsType image.tables.header.inputType = true) :
      SourcePort image .workflowInput image.tables.header.inputType
  | actionSuccess {node type : UInt16} (action : (image.node node).kind = 1)
      (typed : image.tables.containsType type = true) : SourcePort image (.actionSuccess node) type
  | actionError {node type : UInt16} (action : (image.node node).kind = 1)
      (typed : image.tables.containsType type = true) : SourcePort image (.actionError node) type
  | actionNotSent {node : UInt16} (action : (image.node node).kind = 1) :
      SourcePort image (.actionNotSent node) 0
  | actionUnknown {node : UInt16} (action : (image.node node).kind = 1) :
      SourcePort image (.actionUnknown node) 0
  | dispatchCase {node type : UInt16} {tag : UInt8} {variant case child : Nat × Nat}
      (dispatch : (image.node node).kind = 3)
      (variantAt : image.tables.descriptor (image.node node).action = some variant)
      (caseAt : image.tables.descriptor type = some case)
      (childAt : representationChild image.bytes variant.1 variant.2 tag.toNat = some child)
      (same : sameBytes image.bytes child case = true) :
      SourcePort image (.dispatchCase node tag) type
  | forkBranch {node : UInt16} {branch : UInt8} (fork : (image.node node).kind = 4)
      (small : branch < (image.node node).subtype) :
      SourcePort image (.forkBranch node branch) (image.node node).action
  | joinField {node : UInt16} {field : UInt8} {input : Edge} (join : (image.node node).kind = 5)
      (small : field < (image.node node).subtype) (input_mem : input ∈ image.tables.edges)
      (enters : edgeTarget input = some (.joinInput node field)) :
      SourcePort image (.joinField node field) input.targetType
  | eachItem {region : UInt16} {each : EachRegion}
      (found : eachAt image.eachState region = some each) :
      SourcePort image (.eachItem region) each.itemInput
  | eachOutput {region : UInt16} {each : EachRegion}
      (found : eachAt image.eachState region = some each) :
      SourcePort image (.eachOutput region) each.collected

/-- A port of the image and a type that a value entering it has. -/
inductive TargetPort (image : Image) : EdgeTarget → UInt16 → Prop
  | actionInput {node type : UInt16} (action : (image.node node).kind = 1)
      (typed : image.tables.containsType type = true) : TargetPort image (.actionInput node) type
  | dispatchInput {node : UInt16} (dispatch : (image.node node).kind = 3) :
      TargetPort image (.dispatchInput node) (image.node node).action
  | forkInput {node : UInt16} (fork : (image.node node).kind = 4) :
      TargetPort image (.forkInput node) (image.node node).action
  | joinInput {node type : UInt16} {branch : UInt8} (join : (image.node node).kind = 5)
      (small : branch < (image.node node).subtype)
      (typed : image.tables.containsType type = true) :
      TargetPort image (.joinInput node branch) type
  | eachInput {region : UInt16} {each : EachRegion}
      (found : eachAt image.eachState region = some each) :
      TargetPort image (.eachInput region) each.sourceList
  | eachCollect {region : UInt16} {each : EachRegion}
      (found : eachAt image.eachState region = some each) :
      TargetPort image (.eachCollect region) each.itemOutput
  | success {node : UInt16} (kind : nodeKind (image.node node) = some (.terminal .success)) :
      TargetPort image (.terminal node) image.tables.header.successType
  | knownFailure {node type : UInt16}
      (kind : nodeKind (image.node node) = some (.terminal .knownFailure))
      (declared : type ∈ image.tables.errors) : TargetPort image (.terminal node) type
  | undelivered {node : UInt16} {kind : TerminalKind}
      (terminal : nodeKind (image.node node) = some (.terminal kind))
      (undelivered : kind = .notSent ∨ kind = .unknown) : TargetPort image (.terminal node) 0

/-- Each end of an edge on its own. -/
structure PortRules (image : Image) (edge : Edge) : Prop where
  source : ∃ source, edgeSource edge = some source ∧ SourcePort image source edge.sourceType
  target : ∃ target, edgeTarget edge = some target ∧ TargetPort image target edge.targetType
  presentation : edge.presentation = 0 ∨ edge.presentation = edge.targetType
  undelivered : ∀ node, edgeSource edge = some (.actionNotSent node) ∨
    edgeSource edge = some (.actionUnknown node) →
      edge.sourceType = 0 ∧ edge.targetType = 0 ∧ edge.presentation = 0 ∧
        ∃ target kind, edgeTarget edge = some (.terminal target) ∧
          nodeKind (image.node target) = some (.terminal kind) ∧
            (kind = .notSent ∨ kind = .unknown)

variable {image : Image} {classes : List NodeClass} {regions : RegionState} {edge : Edge}

theorem mem_tags {tag branches : UInt8} (h : tag < branches) : tag ∈ tags branches.toNat := by
  refine List.mem_map.mpr ⟨tag.toNat, List.mem_range.mpr (UInt8.lt_iff_toNat_lt.mp h), ?_⟩
  exact UInt8.ofNat_toNat

/-- A field that is used carries what the edge into its branch carries. -/
theorem joinField_input (h : Checked image classes regions) (he : edge ∈ image.tables.edges)
    {branches : UInt8} (hkind : edge.sourceKind = 7)
    (hjoin : classAt classes edge.sourceNode = some (.join branches))
    (htag : edge.caseTag < branches) :
    ∃ input ∈ image.tables.edges, input.targetKind = 5 ∧ input.targetNode = edge.sourceNode ∧
      input.caseTag = edge.caseTag ∧ input.targetType = edge.sourceType := by
  have htop := h.nodeTopology_of hjoin
  simp only [nodeTopology, Bool.and_eq_true, List.all_eq_true] at htop
  have hfield := htop.1 edge.caseTag (mem_tags htag)
  simp only [Bool.or_eq_true, beq_iff_eq, decide_eq_true_eq, bne_iff_ne, ne_eq] at hfield
  obtain ⟨⟨hinput, hatMost⟩, hsame⟩ := hfield
  -- The edge itself is the one that leaves the field.
  let leaves : Edge → Bool := fun e =>
    e.sourceKind == 7 && e.sourceNode == edge.sourceNode && e.caseTag == edge.caseTag
  have hleaves : leaves edge = true := by simp [leaves, hkind]
  have hused : caseCount image.tables.edges 7 edge.sourceNode edge.caseTag = 1 := by
    have hpos : 0 < image.tables.edges.countP leaves := List.countP_pos_iff.mpr ⟨edge, he, hleaves⟩
    exact Nat.le_antisymm hatMost hpos
  have hout : joinOutputType image.tables.edges edge.sourceNode edge.caseTag =
      edge.sourceType := by
    unfold joinOutputType
    cases hfind : image.tables.edges.find? fun e =>
        e.sourceKind == 7 && e.sourceNode == edge.sourceNode && e.caseTag == edge.caseTag with
    | none => exact absurd hleaves (List.find?_eq_none.mp hfind edge he)
    | some e =>
        have hone := eq_of_countP_le_one (p := leaves) (Nat.le_of_eq hused)
          (List.mem_of_find?_eq_some hfind) he (List.find?_some hfind) hleaves
        rw [hone]
  have hin := hsame.resolve_left (fun hne => hne hused)
  unfold joinInputType at hin
  cases hfind : image.tables.edges.find? fun e =>
      e.targetKind == 5 && e.targetNode == edge.sourceNode && e.caseTag == edge.caseTag with
  | none =>
      have hnone : targetCount image.tables.edges 5 edge.sourceNode edge.caseTag = 0 :=
        List.countP_eq_zero.mpr (List.find?_eq_none.mp hfind)
      omega
  | some input =>
      have henters := List.find?_some hfind
      simp only [Bool.and_eq_true, beq_iff_eq] at henters
      simp only [hfind, hout] at hin
      exact ⟨input, List.mem_of_find?_eq_some hfind, henters.1.1, henters.1.2, henters.2, hin⟩

theorem source_port (h : Checked image classes regions) (he : edge ∈ image.tables.edges) :
    ∃ source, edgeSource edge = some source ∧ SourcePort image source edge.sourceType := by
  cases h.source he with
  | input kind _ type typed =>
      refine ⟨.workflowInput, by simp [edgeSource, kind], ?_⟩
      rw [type] at typed ⊢
      exact .workflowInput typed
  | result kind action typed =>
      have hnode := (h.node_checked action).1
      rcases kind with kind | kind
      · exact ⟨.actionSuccess _, by simp [edgeSource, kind], .actionSuccess hnode typed⟩
      · exact ⟨.actionError _, by simp [edgeSource, kind], .actionError hnode typed⟩
  | undelivered kind action source =>
      have hnode := (h.node_checked action).1
      rw [source]
      rcases kind with kind | kind
      · exact ⟨.actionNotSent _, by simp [edgeSource, kind], .actionNotSent hnode⟩
      · exact ⟨.actionUnknown _, by simp [edgeSource, kind], .actionUnknown hnode⟩
  | case kind dispatch _ variantAt sourceAt childAt same =>
      obtain ⟨hnode, htype, -⟩ := h.node_checked dispatch
      exact ⟨.dispatchCase _ _, by simp [edgeSource, kind],
        .dispatchCase hnode (htype ▸ variantAt) sourceAt childAt same⟩
  | branch kind fork tag type =>
      obtain ⟨hnode, htype, -, hbranches, -⟩ := h.node_checked fork
      rw [type, htype]
      exact ⟨.forkBranch _ _, by simp [edgeSource, kind], .forkBranch hnode (hbranches ▸ tag)⟩
  | field kind join tag =>
      obtain ⟨hnode, hbranches, -⟩ := h.node_checked join
      obtain ⟨input, hmem, htarget, hjoin, hfield, htype⟩ := joinField_input h he kind join tag
      rw [← htype]
      exact ⟨.joinField _ _, by simp [edgeSource, kind], .joinField hnode (hbranches ▸ tag) hmem
        (by simp [edgeTarget, htarget, hjoin, hfield])⟩
  | item kind _ found type =>
      rw [type]
      exact ⟨.eachItem _, by simp [edgeSource, kind], .eachItem ((h.eachAt_eq _).trans found)⟩
  | collected kind _ found type =>
      rw [type]
      exact ⟨.eachOutput _, by simp [edgeSource, kind],
        .eachOutput ((h.eachAt_eq _).trans found)⟩

theorem target_port (h : Checked image classes regions) (he : edge ∈ image.tables.edges) :
    ∃ target, edgeTarget edge = some target ∧ TargetPort image target edge.targetType := by
  cases h.target he with
  | action kind action typed =>
      exact ⟨.actionInput _, by simp [edgeTarget, kind],
        .actionInput (h.node_checked action).1 typed⟩
  | terminal kind terminal type =>
      obtain ⟨hnode, hsubtype⟩ := h.node_checked terminal
      refine ⟨.terminal edge.targetNode, by simp [edgeTarget, kind], ?_⟩
      rcases type with ⟨rfl, type⟩ | ⟨rfl, type⟩ | ⟨rfl | rfl, type⟩
      · rw [type]
        exact .success (by simp [nodeKind, hnode, ← hsubtype, terminalKind])
      · exact .knownFailure (by simp [nodeKind, hnode, ← hsubtype, terminalKind]) type
      · have hnotSent : nodeKind (image.node edge.targetNode) = some (.terminal .notSent) := by
          simp [nodeKind, hnode, ← hsubtype, terminalKind]
        rw [type]
        exact .undelivered hnotSent (.inl rfl)
      · have hunknown : nodeKind (image.node edge.targetNode) = some (.terminal .unknown) := by
          simp [nodeKind, hnode, ← hsubtype, terminalKind]
        rw [type]
        exact .undelivered hunknown (.inr rfl)
  | dispatch kind dispatch type =>
      obtain ⟨hnode, htype, -⟩ := h.node_checked dispatch
      rw [type, htype]
      exact ⟨.dispatchInput _, by simp [edgeTarget, kind], .dispatchInput hnode⟩
  | fork kind fork type =>
      obtain ⟨hnode, htype, -⟩ := h.node_checked fork
      rw [type, htype]
      exact ⟨.forkInput _, by simp [edgeTarget, kind], .forkInput hnode⟩
  | join kind join tag typed =>
      obtain ⟨hnode, hbranches, -⟩ := h.node_checked join
      exact ⟨.joinInput _ _, by simp [edgeTarget, kind],
        .joinInput hnode (hbranches ▸ tag) typed⟩
  | each kind found type =>
      rw [type]
      exact ⟨.eachInput _, by simp [edgeTarget, kind], .eachInput ((h.eachAt_eq _).trans found)⟩
  | collect kind found type =>
      rw [type]
      exact ⟨.eachCollect _, by simp [edgeTarget, kind],
        .eachCollect ((h.eachAt_eq _).trans found)⟩

theorem edge_presentation (h : Checked image classes regions) (he : edge ∈ image.tables.edges) :
    edge.presentation = 0 ∨ edge.presentation = edge.targetType := by
  have hedges := h.edges
  simp only [validateEdges, bind_ok, require_ok] at hedges
  obtain ⟨⟨⟩, hall, -⟩ := hedges
  obtain ⟨before, hcheck⟩ := checkEach_mem hall he
  simp only [validateEdge, bind_ok, require_ok] at hcheck
  obtain ⟨⟨⟩, ⟨-, -, hpresentation, -⟩, -⟩ := hcheck
  simp only [validPresentation, Bool.or_eq_true, Bool.and_eq_true, beq_iff_eq] at hpresentation
  exact hpresentation.imp And.right And.right

/-- What enters the success and the known-failure terminal is a value. -/
theorem outcome_ne_zero (h : Checked image classes regions) :
    image.tables.header.successType ≠ 0 ∧ (0 : UInt16) ∉ image.tables.errors := by
  refine ⟨?_, fun hzero => ?_⟩
  · have hcounts := h.counts
    simp only [validateCounts, require_ok] at hcounts
    exact hcounts.2.1
  · obtain ⟨before, hcheck⟩ := checkEach_mem h.errors hzero
    rw [require_ok] at hcheck
    exact hcheck.1 rfl

/--
**Each end of an accepted edge is right on its own.** It leaves a port of the image
with a type of that port, and enters a port with a type of that one; a presentation
is the type that arrives. An action that was not reached, or may have been, ends in
one of the two terminals for that, with no value at all.
-/
theorem edge_portRules (image : Image) : ∀ edge ∈ image.tables.edges, PortRules image edge := by
  intro edge he
  obtain ⟨classes, regions, h⟩ := image.checked
  have htarget := target_port h he
  have hpresentation := edge_presentation h he
  refine ⟨source_port h he, htarget, hpresentation, fun node hnode => ?_⟩
  -- Only the records of these two kinds name the two ports.
  have hkind : edge.sourceKind = 3 ∨ edge.sourceKind = 4 := by
    unfold edgeSource at hnode
    rcases hnode with hnode | hnode <;> split at hnode <;> simp_all
  have hterminal := notSent_unknown_terminal image he hkind
  have htypes : edge.sourceType = 0 ∧ edge.targetType = 0 := by
    cases h.source he with
    | undelivered _ _ source target => exact ⟨source, target⟩
    | result kind => rcases kind with kind | kind <;> simp [kind] at hkind
    | input kind | case kind | branch kind | field kind | item kind | collected kind =>
        simp [kind] at hkind
  obtain ⟨hsource, htype⟩ := htypes
  refine ⟨hsource, htype, hpresentation.elim id (·.trans htype), ?_⟩
  obtain ⟨target, hport, htarget⟩ := htarget
  have hport' : edgeTarget edge = some (.terminal edge.targetNode) := by
    simp [edgeTarget, hterminal]
  obtain rfl := Option.some.inj (hport.symm.trans hport')
  rw [htype] at htarget
  obtain ⟨hsuccess, herrors⟩ := outcome_ne_zero h
  generalize hzero : (0 : UInt16) = type at htarget
  cases htarget with
  | success => exact absurd hzero.symm hsuccess
  | knownFailure _ declared => exact absurd (hzero ▸ declared) herrors
  | undelivered terminal undelivered => exact ⟨_, _, hport', terminal, undelivered⟩

/-! ## What the rules ask for in addition -/

/--
One action whose `Bool` input arrives as an `Int`, whose `Int` result is presented as
the `Bool` of a known failure, and whose error is the result of the workflow.
-/
def misroutedLayout : Layout where
  errors := [1]
  contracts := [.of 1]
  types := [boolType, (2, encodeRepresentation .integer)]
  nodes := [.action1 1, .terminal 1, .terminal 2, .terminal 3, .terminal 4]
  edges := [{ Edge.wire 0 0 1 1 with targetType := 2 },
    { Edge.wire 1 1 2 3 with sourceType := 2, flags := 1, presentation := 1 },
    .wire 2 1 2 2, .bare 3 1 4, .bare 4 1 5]

set_option maxRecDepth 20000 in
theorem misrouted_valid : (imageValidate misroutedLayout.encode).toOption.isSome = true := by
  decide +kernel

def misrouted : Image := misroutedLayout.image misrouted_valid

set_option maxRecDepth 20000 in
theorem misrouted_edges : misrouted.tables.edges = misroutedLayout.edges := by
  decide +kernel

set_option maxRecDepth 20000 in
/-- An action's error that ends in success: its two ends are right nevertheless. -/
theorem edge_portRules_misrouted : Edge.wire 2 1 2 2 ∈ misrouted.tables.edges ∧
    PortRules misrouted (.wire 2 1 2 2) := by
  have he : Edge.wire 2 1 2 2 ∈ misrouted.tables.edges := by
    rw [misrouted_edges]
    decide
  exact ⟨he, edge_portRules misrouted (.wire 2 1 2 2) he⟩

/-- A represented type starts with the kind of its representation. -/
theorem Represented.kind {typeId : UInt16} {r : Representation} (h : Represented image typeId r)
    (range : Nat × Nat) (hrange : image.tables.descriptor typeId = some range) :
    (image.bytes.slice range.1 (range.2 - range.1)).head? = some r.kind := by
  obtain ⟨range', hrange', hbytes⟩ := h
  obtain rfl := Option.some.inj (hrange.symm.trans hrange')
  rw [hbytes, encode_head]

set_option maxRecDepth 20000 in
/-- Each of the three rules is broken on its own. -/
theorem misrouted_breaks : (¬ ∀ edge ∈ misrouted.tables.edges, Nominal edge) ∧
    (¬ ∀ edge ∈ misrouted.tables.edges, Presentable misrouted edge) ∧
    ¬ ∀ edge ∈ misrouted.tables.edges, Routed misrouted edge := by
  rw [misrouted_edges]
  refine ⟨fun h => ?_, fun h => ?_, fun h => ?_⟩
  · exact absurd (h { Edge.wire 0 0 1 1 with targetType := 2 } (by decide) rfl) (by decide)
  · obtain ⟨r, s, hr, hs, hcompatible⟩ :=
      h { Edge.wire 1 1 2 3 with sourceType := 2, flags := 1, presentation := 1 } (by decide)
        (by decide)
    have hinteger := hr.kind (264, 272) (by decide +kernel)
    have hboolean := hs.kind (256, 264) (by decide +kernel)
    rw [compatible_kind hcompatible] at hinteger
    have hsame := hinteger.trans hboolean.symm
    exact absurd hsame (by decide +kernel)
  · obtain ⟨source, target, kind, hsource, htarget, hkind, hroute⟩ :=
      h (.wire 2 1 2 2) (by decide)
    obtain rfl := Option.some.inj hsource
    obtain rfl := Option.some.inj htarget
    have hsuccess : nodeForTarget misrouted (.terminal 2) = some (.terminal .success) := by
      decide +kernel
    obtain rfl := Option.some.inj (hkind.symm.trans hsuccess)
    cases hroute

/-- The loader accepts edges that the kernel refuses. -/
theorem not_kernelRules : ¬ ∀ image : Image, ∀ edge ∈ image.tables.edges,
    KernelRules image edge := by
  intro h
  exact misrouted_breaks.2.2 fun edge he => (h misrouted edge he).routed

end Hermas.Compiler
