import Hermas.Runtime.Route
import Mathlib.Tactic.SplitIfs

/-!
# What an accepted image guarantees

The interpreters look edges and nodes up without checking what they find. These
are the facts of the loader that they rely on: every node class is a node record
of that kind, every edge has a valid source and a valid target, and the edges
that carry no value enter a terminal.
-/

namespace Hermas.Image

/-- The checks of an accepted image, with the node classes and regions they establish. -/
structure Checked (image : Image) (classes : List NodeClass) (regions : RegionState) : Prop where
  frame : validateFrame image.bytes = .ok ()
  counts : validateCounts image.tables.header = .ok ()
  offsets : validateOffsets image.bytes image.tables.header = .ok ()
  errors : validateErrors image.tables = .ok ()
  contracts : validateContracts image.tables = .ok ()
  types : validateTypes image.bytes image.tables = .ok ()
  nodes : validateNodes image.bytes image.tables = .ok classes
  regionsOk : validateRegions image.bytes image.tables classes = .ok regions
  edges : validateEdges image.bytes image.tables classes regions = .ok ()
  topology : validateTopology image.tables classes regions = .ok ()

theorem checked (image : Image) : ∃ classes regions, Checked image classes regions := by
  have hv := image.valid
  cases h : imageValidate image.bytes with
  | error e => rw [h] at hv; cases hv
  | ok summary =>
      have hheader : readHeader image.bytes = image.tables.header := by rw [← image.tables_eq]; rfl
      simp only [imageValidate, bind_ok, pure_ok, image.tables_eq, hheader] at h
      obtain ⟨⟨⟩, hframe, ⟨⟩, hcounts, ⟨⟩, hoffsets, ⟨⟩, -, ⟨classes, regions⟩, htables, -⟩ := h
      simp only [validateTables, bind_ok, pure_ok, Prod.mk.injEq] at htables
      obtain ⟨⟨⟩, herrors, ⟨⟩, hcontracts, ⟨⟩, htypes, c, hnodes, r, hregions, ⟨⟩, hedges, ⟨⟩,
        htopology, rfl, rfl⟩ := htables
      exact ⟨c, r, hframe, hcounts, hoffsets, herrors, hcontracts, htypes, hnodes, hregions, hedges,
        htopology⟩

variable {image : Image} {classes : List NodeClass} {regions : RegionState}

/-! ## Types -/

theorem Checked.type_ne_zero (h : Checked image classes regions) {typeId : UInt16}
    (ht : image.tables.containsType typeId = true) : typeId ≠ 0 := by
  have htypes := h.types
  simp only [validateTypes, bind_ok] at htypes
  obtain ⟨state, hfold, -⟩ := htypes
  rw [Tables.containsType, List.any_eq_true] at ht
  obtain ⟨record, hmem, hid⟩ := ht
  obtain ⟨c, c', hrecord⟩ := foldlM_mem hfold record hmem
  simp only [validateType, bind_ok, require_ok] at hrecord
  obtain ⟨⟨⟩, hne, -⟩ := hrecord
  rw [beq_iff_eq] at hid
  exact hid ▸ hne.1

theorem typeDescriptor_mem {stop : Nat} {typeId : UInt16} {types : List TypeRecord}
    {range : Nat × Nat} (h : typeDescriptor stop typeId types = some range) :
    ∃ record ∈ types, record.typeId = typeId := by
  induction types with
  | nil => simp [typeDescriptor] at h
  | cons record rest ih =>
      unfold typeDescriptor at h
      split at h
      · exact ⟨record, by simp, by assumption⟩
      · obtain ⟨r, hr, hid⟩ := ih h
        exact ⟨r, by simp [hr], hid⟩

theorem descriptor_contains {tables : Tables} {typeId : UInt16} {range : Nat × Nat}
    (h : tables.descriptor typeId = some range) : tables.containsType typeId = true := by
  obtain ⟨record, hmem, hid⟩ := typeDescriptor_mem h
  exact List.any_eq_true.mpr ⟨record, hmem, by simp [hid]⟩

/-! ## Nodes -/

theorem Checked.forall_nodes (h : Checked image classes regions) :
    List.Forall₂ (fun node c => ∃ prior, classifyNode image.bytes image.tables prior node = .ok c)
      image.tables.nodes classes := by
  have hnodes := h.nodes
  simp only [validateNodes, bind_ok, pure_ok, require_ok] at hnodes
  obtain ⟨out, hfold, ⟨⟩, -, rfl⟩ := hnodes
  obtain ⟨ys, hys, hall⟩ := foldlM_append hfold
  rw [List.nil_append] at hys
  exact hys ▸ hall

/-- The class of a node is the class of its record. -/
theorem Checked.classAt_some (h : Checked image classes regions) {node : UInt16} {c : NodeClass}
    (hc : classAt classes node = some c) :
    node ≠ 0 ∧ ∃ prior, classifyNode image.bytes image.tables prior (image.node node) = .ok c := by
  unfold classAt at hc
  split at hc
  · cases hc
  · rename_i hne
    refine ⟨hne, ?_⟩
    have hall := h.forall_nodes
    have hlen := hall.length_eq
    obtain ⟨hlt, hget⟩ := List.getElem?_eq_some_iff.mp hc
    obtain ⟨prior, hp⟩ := hall.get (by rw [hlen]; exact hlt) hlt
    refine ⟨prior, ?_⟩
    have hlt' : node.toNat - 1 < image.tables.nodes.length := by rw [hlen]; exact hlt
    have hnode : image.node node = image.tables.nodes[node.toNat - 1] := by
      rw [Image.node, List.getElem?_eq_getElem hlt']
      rfl
    rw [hnode]
    simpa [hget] using hp

section Classify

variable {bytes : Bytes} {tables : Tables} {prior : List NodeClass} {node : Node}

/-- What the loader has checked of a node of each class. -/
def NodeChecked (tables : Tables) (node : Node) : NodeClass → Prop
  | .action => node.kind = 1 ∧ node.action ≠ 0 ∧
      tables.containsActionContract node.app node.action = true
  | .dispatch type _ => node.kind = 3 ∧ type = node.action ∧ type ≠ 0
  | .fork type branches => node.kind = 4 ∧ type = node.action ∧ type ≠ 0 ∧
      branches = node.subtype ∧ 2 ≤ branches ∧ branches.toNat ≤ maxAllBranches
  | .join branches => node.kind = 5 ∧ branches = node.subtype ∧ 2 ≤ branches ∧
      branches.toNat ≤ maxAllBranches
  | .terminal subtype => node.kind = 2 ∧ subtype = node.subtype

theorem classifyNode_ok {c : NodeClass} (h : classifyNode bytes tables prior node = .ok c) :
    NodeChecked tables node c := by
  simp only [classifyNode] at h
  split_ifs at h with h1 h2 h3 h4 h5
  · cases h
    exact ⟨h1.1, h1.2.2.1, h1.2.2.2.2⟩
  · split at h
    · cases h
    · split_ifs at h
      cases h
      exact ⟨h2.1, rfl, h2.2.2.1⟩
  · cases h
    exact ⟨h3.1, rfl, h3.2.2.2.1, rfl, h3.2.1, h3.2.2.1⟩
  · cases h
    exact ⟨h4.1, rfl, h4.2.1, h4.2.2.1⟩
  · cases h
    exact ⟨h5.1, rfl⟩

end Classify

theorem Checked.node_checked (h : Checked image classes regions) {node : UInt16} {c : NodeClass}
    (hc : classAt classes node = some c) : NodeChecked image.tables (image.node node) c := by
  obtain ⟨-, prior, hp⟩ := h.classAt_some hc
  exact classifyNode_ok hp

theorem Checked.isAction_of_class (h : Checked image classes regions) {node : UInt16}
    (hc : isActionNode classes node = true) : image.isAction node = true := by
  rw [isActionNode, beq_iff_eq] at hc
  rw [Image.isAction, (h.node_checked hc).1]
  rfl

/-! ## Regions -/

/-- The each regions, in order; they are numbered from 1. -/
def eachRegions (image : Image) : List EachRegion :=
  (image.tables.regions.filter (·.readU8 0 == 2)).map EachRegion.read

/-- The types of an each region are types of the image. -/
def EachTyped (tables : Tables) (each : EachRegion) : Prop :=
  tables.containsType each.sourceList = true ∧ tables.containsType each.itemInput = true ∧
    tables.containsType each.collected = true ∧ tables.containsType each.itemOutput = true

theorem listOf_types {bytes : Bytes} {tables : Tables} {a b : UInt16} {p : UInt32 → Bool}
    (h : listOf bytes tables a b p = true) :
    tables.containsType a = true ∧ tables.containsType b = true := by
  unfold listOf at h
  split at h
  · rename_i ha hb
    exact ⟨descriptor_contains ha, descriptor_contains hb⟩
  · cases h

/-- What the loader has checked of an each region. -/
structure EachChecked (bytes : Bytes) (tables : Tables) (classes : List NodeClass)
    (each : EachRegion) : Prop where
  concurrency_pos : each.concurrency ≠ 0
  concurrency_le : each.concurrency.toNat ≤ maxAllBranches
  concurrency_bound : each.concurrency.toNat ≤ each.bound.toNat
  template : isActionNode classes each.template = true
  source : listOf bytes tables each.sourceList each.itemInput
    (fun bound => bound.toNat == each.bound.toNat) = true
  output : listOf bytes tables each.collected each.itemOutput
    (fun bound => each.bound.toNat ≤ bound.toNat) = true

theorem Checked.each_checked (h : Checked image classes regions) :
    ∀ each ∈ regions.each, EachChecked image.bytes image.tables classes each := by
  refine foldlM_invariant
    (P := fun state => ∀ each ∈ state.each, EachChecked image.bytes image.tables classes each)
    ?_ (by simp) h.regionsOk
  intro state region state' hstate hregion
  unfold validateRegion at hregion
  simp only at hregion
  split at hregion
  · unfold validateDeadline at hregion
    simp only at hregion
    split at hregion
    · cases hregion
    · cases hregion; exact hstate
  split at hregion
  · simp only [validateEach, bind_ok, pure_ok, require_ok] at hregion
    obtain ⟨⟨⟩, -, ⟨⟩, ⟨hpos, hle, hbound, -, -, htemplate, hsource, houtput, -⟩, rfl⟩ := hregion
    intro each heach
    rcases List.mem_append.mp heach with heach | heach
    · exact hstate each heach
    · rw [List.mem_singleton.mp heach]
      exact ⟨hpos, hle, hbound, htemplate, hsource, houtput⟩
  split at hregion
  · simp only [validateSagaStep, bind_ok, pure_ok, require_ok] at hregion
    obtain ⟨⟨⟩, -, rfl⟩ := hregion
    exact hstate
  split at hregion
  · simp only [validateSagaOutcome, bind_ok, pure_ok, require_ok] at hregion
    obtain ⟨⟨⟩, -, rfl⟩ := hregion
    exact hstate
  · cases hregion

theorem Checked.each_typed (h : Checked image classes regions) :
    ∀ each ∈ regions.each, EachTyped image.tables each := by
  intro each heach
  have hchecked := h.each_checked each heach
  obtain ⟨h1, h2⟩ := listOf_types hchecked.source
  obtain ⟨h3, h4⟩ := listOf_types hchecked.output
  exact ⟨h1, h2, h3, h4⟩

theorem eachAt_mem {region : UInt16} {each : EachRegion} (h : eachAt regions region = some each) :
    each ∈ regions.each := by
  unfold eachAt at h
  split at h
  · cases h
  · exact List.mem_of_getElem? h

/-! ## Edges -/

/-- Every edge has a valid source and a valid target. -/
theorem Checked.edge_valid (h : Checked image classes regions) {edge : Edge}
    (he : edge ∈ image.tables.edges) :
    validSource image.bytes image.tables classes regions edge = true ∧
      validTarget image.tables classes regions edge = true := by
  have hedges := h.edges
  simp only [validateEdges, bind_ok, require_ok] at hedges
  obtain ⟨⟨⟩, hall, -⟩ := hedges
  obtain ⟨before, hcheck⟩ := checkEach_mem hall he
  simp only [validateEdge, bind_ok, require_ok] at hcheck
  obtain ⟨⟨⟩, ⟨hs, ht, -⟩, -⟩ := hcheck
  exact ⟨hs, ht⟩

/-- What an edge may leave. -/
inductive SourceOk (image : Image) (classes : List NodeClass) (regions : RegionState)
    (edge : Edge) : Prop
  | input (kind : edge.sourceKind = 0) (node : edge.sourceNode = 0)
      (type : edge.sourceType = image.tables.header.inputType)
      (typed : image.tables.containsType edge.sourceType = true)
  | result (kind : edge.sourceKind = 1 ∨ edge.sourceKind = 2)
      (action : classAt classes edge.sourceNode = some .action)
      (typed : image.tables.containsType edge.sourceType = true)
  | undelivered (kind : edge.sourceKind = 3 ∨ edge.sourceKind = 4)
      (action : classAt classes edge.sourceNode = some .action)
      (source : edge.sourceType = 0) (target : edge.targetType = 0)
  | case {type cases : UInt16} {variant source child : Nat × Nat} (kind : edge.sourceKind = 5)
      (dispatch : classAt classes edge.sourceNode = some (.dispatch type cases))
      (tag : edge.caseTag.toNat < cases.toNat)
      (variantAt : image.tables.descriptor type = some variant)
      (sourceAt : image.tables.descriptor edge.sourceType = some source)
      (childAt : representationChild image.bytes variant.1 variant.2 edge.caseTag.toNat =
        some child)
      (same : sameBytes image.bytes child source = true)
  | branch {type : UInt16} {branches : UInt8} (kind : edge.sourceKind = 6)
      (fork : classAt classes edge.sourceNode = some (.fork type branches))
      (tag : edge.caseTag < branches) (type : edge.sourceType = type)
  | field {branches : UInt8} (kind : edge.sourceKind = 7)
      (join : classAt classes edge.sourceNode = some (.join branches))
      (tag : edge.caseTag < branches) (typed : image.tables.containsType edge.sourceType = true)
  | item {each : EachRegion} (kind : edge.sourceKind = 8) (tag : edge.caseTag = 0)
      (region : eachAt regions edge.sourceNode = some each)
      (type : edge.sourceType = each.itemInput)
  | collected {each : EachRegion} (kind : edge.sourceKind = 9) (tag : edge.caseTag = 0)
      (region : eachAt regions edge.sourceNode = some each)
      (type : edge.sourceType = each.collected)

theorem validSource_ok {edge : Edge}
    (hs : validSource image.bytes image.tables classes regions edge = true) :
    SourceOk image classes regions edge := by
  simp only [validSource, Bool.or_eq_true, Bool.and_eq_true, beq_iff_eq, isActionNode] at hs
  rcases hs with ((((((hs | hs) | hs) | hs) | hs) | hs) | hs) | hs
  · exact .input hs.1.1.1 hs.1.1.2 hs.1.2 hs.2
  · exact .result hs.1.1 hs.1.2 hs.2
  · exact .undelivered hs.1.1.1 hs.1.1.2 hs.1.2 hs.2
  · simp only [validDispatchSource, Bool.and_eq_true, beq_iff_eq] at hs
    obtain ⟨hkind, hs⟩ := hs
    split at hs
    · rename_i hdispatch
      simp only [Bool.and_eq_true, decide_eq_true_eq] at hs
      obtain ⟨htag, hs⟩ := hs
      split at hs
      · rename_i hvariant hsource
        split at hs
        · cases hs
        · rename_i hchild
          exact .case hkind hdispatch htag hvariant hsource hchild hs
      · cases hs
    · cases hs
  · obtain ⟨hkind, hs⟩ := hs
    split at hs
    · rename_i hfork
      simp only [Bool.and_eq_true, decide_eq_true_eq, beq_iff_eq] at hs
      exact .branch hkind hfork hs.1 hs.2
    · cases hs
  · obtain ⟨hkind, hs⟩ := hs
    split at hs
    · rename_i hjoin
      simp only [Bool.and_eq_true, decide_eq_true_eq] at hs
      exact .field hkind hjoin hs.1 hs.2
    · cases hs
  · obtain ⟨⟨hkind, htag⟩, hs⟩ := hs
    split at hs
    · rename_i hregion
      exact .item hkind htag hregion (beq_iff_eq.mp hs)
    · cases hs
  · obtain ⟨⟨hkind, htag⟩, hs⟩ := hs
    split at hs
    · rename_i hregion
      exact .collected hkind htag hregion (beq_iff_eq.mp hs)
    · cases hs

/-- What an edge may enter. -/
inductive TargetOk (image : Image) (classes : List NodeClass) (regions : RegionState)
    (edge : Edge) : Prop
  | action (kind : edge.targetKind = 1) (action : classAt classes edge.targetNode = some .action)
      (typed : image.tables.containsType edge.targetType = true)
  | terminal {subtype : UInt8} (kind : edge.targetKind = 2)
      (terminal : classAt classes edge.targetNode = some (.terminal subtype))
      (type : (subtype = 1 ∧ edge.targetType = image.tables.header.successType) ∨
        (subtype = 2 ∧ edge.targetType ∈ image.tables.errors) ∨
        ((subtype = 3 ∨ subtype = 4) ∧ edge.targetType = 0))
  | dispatch {type cases : UInt16} (kind : edge.targetKind = 3)
      (dispatch : classAt classes edge.targetNode = some (.dispatch type cases))
      (type : edge.targetType = type)
  | fork {type : UInt16} {branches : UInt8} (kind : edge.targetKind = 4)
      (fork : classAt classes edge.targetNode = some (.fork type branches))
      (type : edge.targetType = type)
  | join {branches : UInt8} (kind : edge.targetKind = 5)
      (join : classAt classes edge.targetNode = some (.join branches))
      (tag : edge.caseTag < branches) (typed : image.tables.containsType edge.targetType = true)
  | each {each : EachRegion} (kind : edge.targetKind = 6)
      (region : eachAt regions edge.targetNode = some each)
      (type : edge.targetType = each.sourceList) (tag : edge.caseTag = 0)
  | collect {each : EachRegion} (kind : edge.targetKind = 7)
      (region : eachAt regions edge.targetNode = some each)
      (type : edge.targetType = each.itemOutput) (tag : edge.caseTag = 0)

theorem validTarget_ok {edge : Edge}
    (ht : validTarget image.tables classes regions edge = true) :
    TargetOk image classes regions edge := by
  simp only [validTarget, Bool.and_eq_true, isActionNode] at ht
  obtain ⟨-, ht⟩ := ht
  split at ht
  · rw [Bool.and_eq_true, beq_iff_eq] at ht
    exact .action (by assumption) ht.1 ht.2
  split at ht
  · split at ht
    · rename_i hterminal
      simp only [Bool.or_eq_true, Bool.and_eq_true, beq_iff_eq, List.contains_iff_mem, or_assoc]
        at ht
      exact .terminal (by assumption) hterminal ht
    · cases ht
  split at ht
  · split at ht
    · exact .dispatch (by assumption) (by assumption) (beq_iff_eq.mp ht)
    · cases ht
  split at ht
  · split at ht
    · exact .fork (by assumption) (by assumption) (beq_iff_eq.mp ht)
    · cases ht
  split at ht
  · split at ht
    · rw [Bool.and_eq_true, decide_eq_true_eq] at ht
      exact .join (by assumption) (by assumption) ht.1 ht.2
    · cases ht
  split at ht
  · split at ht
    · rw [Bool.and_eq_true, beq_iff_eq, beq_iff_eq] at ht
      exact .each (by assumption) (by assumption) ht.1 ht.2
    · cases ht
  split at ht
  · split at ht
    · rw [Bool.and_eq_true, beq_iff_eq, beq_iff_eq] at ht
      exact .collect (by assumption) (by assumption) ht.1 ht.2
    · cases ht
  · cases ht

theorem Checked.source (h : Checked image classes regions) {edge : Edge}
    (he : edge ∈ image.tables.edges) : SourceOk image classes regions edge :=
  validSource_ok (h.edge_valid he).1

theorem Checked.target (h : Checked image classes regions) {edge : Edge}
    (he : edge ∈ image.tables.edges) : TargetOk image classes regions edge :=
  validTarget_ok (h.edge_valid he).2

/-- An edge that carries no value enters a terminal. -/
theorem Checked.target_terminal (h : Checked image classes regions) {edge : Edge}
    (he : edge ∈ image.tables.edges) (hzero : edge.targetType = 0) : edge.targetKind = 2 := by
  have hne : ∀ typeId, image.tables.containsType typeId = true → edge.targetType ≠ typeId := by
    rintro typeId hc rfl
    exact h.type_ne_zero hc hzero
  cases h.target he with
  | terminal kind => exact kind
  | action _ _ typed => exact absurd rfl (hne _ typed)
  | dispatch _ dispatch type => exact absurd (type ▸ hzero) (h.node_checked dispatch).2.2
  | fork _ fork type => exact absurd (type ▸ hzero) (h.node_checked fork).2.2.1
  | join _ _ _ typed => exact absurd rfl (hne _ typed)
  | each _ region type => exact absurd type (hne _ (h.each_typed _ (eachAt_mem region)).1)
  | collect _ region type => exact absurd type (hne _ (h.each_typed _ (eachAt_mem region)).2.2.2)

/-- **A delivery that was not sent, or is lost, ends in a terminal.** -/
theorem notSent_unknown_terminal (image : Image) {edge : Edge} (he : edge ∈ image.tables.edges)
    (hk : edge.sourceKind = 3 ∨ edge.sourceKind = 4) : edge.targetKind = 2 := by
  obtain ⟨classes, regions, h⟩ := image.checked
  refine h.target_terminal he ?_
  cases h.source he with
  | undelivered _ _ _ target => exact target
  | result kind => rcases kind with kind | kind <;> simp [kind] at hk
  | input kind | case kind | branch kind | field kind | item kind | collected kind =>
      simp [kind] at hk

/-- An edge into a join enters a join node. -/
theorem target_join (image : Image) {edge : Edge} (he : edge ∈ image.tables.edges)
    (hk : edge.targetKind = 5) : (image.node edge.targetNode).kind = 5 := by
  obtain ⟨classes, regions, h⟩ := image.checked
  cases h.target he with
  | join _ join => exact (h.node_checked join).1
  | action kind | terminal kind | dispatch kind | fork kind | each kind | collect kind =>
      rw [kind] at hk
      cases hk

/-- An edge into a join enters one of its inputs. -/
theorem target_join_tag (image : Image) {edge : Edge} (he : edge ∈ image.tables.edges)
    (hk : edge.targetKind = 5) : edge.caseTag < (image.node edge.targetNode).subtype := by
  obtain ⟨classes, regions, h⟩ := image.checked
  cases h.target he with
  | join _ join tag => exact (h.node_checked join).2.1 ▸ tag
  | action kind | terminal kind | dispatch kind | fork kind | each kind | collect kind =>
      rw [kind] at hk
      cases hk

/-- A fork and a join have at least two branches. -/
theorem two_branches (image : Image) {node : UInt16}
    (hk : (image.node node).kind = 4 ∨ (image.node node).kind = 5) :
    2 ≤ (image.node node).subtype.toNat := by
  obtain ⟨classes, regions, h⟩ := image.checked
  cases hn : image.tables.nodes[node.toNat - 1]? with
  | none => rw [Image.node, hn] at hk; rcases hk with hk | hk <;> cases hk
  | some record =>
      have hrec : image.node node = record := by rw [Image.node, hn]; rfl
      rw [hrec] at hk ⊢
      obtain ⟨hlt, hget⟩ := List.getElem?_eq_some_iff.mp hn
      obtain ⟨prior, hp⟩ := h.forall_nodes.get hlt (by rw [← h.forall_nodes.length_eq]; exact hlt)
      rw [List.get_eq_getElem, hget] at hp
      have hc := classifyNode_ok hp
      cases hclass : classes.get ⟨node.toNat - 1, by rw [← h.forall_nodes.length_eq]; exact hlt⟩ with
      | fork type branches =>
          rw [hclass] at hc
          obtain ⟨-, -, -, rfl, htwo, -⟩ := hc
          exact htwo
      | join branches =>
          rw [hclass] at hc
          obtain ⟨-, rfl, htwo, -⟩ := hc
          exact htwo
      | _ =>
          rw [hclass] at hc
          rcases hk with hk | hk <;> simp [NodeChecked, hk] at hc

/-- A fork has at least two branches. -/
theorem fork_branches (image : Image) {node : UInt16} (hk : (image.node node).kind = 4) :
    2 ≤ (image.node node).subtype.toNat := two_branches image (.inl hk)

/-- A node with a kind is a record of the image. -/
theorem node_mem {node : UInt16} {kind : UInt8} (hk : (image.node node).kind = kind)
    (hne : kind ≠ 0) : image.node node ∈ image.tables.nodes := by
  unfold Image.node at hk ⊢
  cases hget : image.tables.nodes[node.toNat - 1]? with
  | none =>
      rw [hget] at hk
      exact absurd hk.symm hne
  | some record => exact List.mem_of_getElem? hget

theorem mem_of_findCaseEdge {image : Image} {node : UInt16} {tag : UInt8} {edge : Edge}
    (h : image.findCaseEdge node tag = some edge) : edge ∈ image.tables.edges :=
  List.mem_of_find?_eq_some h

/-- A value comes to rest at an edge of the image. -/
theorem landing_mem {image : Image} {value v : Bytes} {edge e : Edge}
    (he : edge ∈ image.tables.edges) (hl : landing image value edge = .at e v) :
    e ∈ image.tables.edges := by
  fun_induction landing image value edge with
  | case1 => cases hl; exact he
  | case4 edge hk t0 t1 t2 t3 r0 r1 r2 r3 rest tag hbad next hfind hok ih =>
      exact ih (mem_of_findCaseEdge hfind) hl
  | _ => cases hl

theorem mem_of_groupFindEdge {image : Image} {kind : UInt8} {node : UInt16} {tag : UInt8}
    {edge : Edge} (h : image.groupFindEdge kind node tag = some edge) :
    edge ∈ image.tables.edges ∧ edge.sourceKind = kind ∧ edge.sourceNode = node := by
  refine ⟨List.mem_of_find?_eq_some h, ?_⟩
  have := List.find?_some h
  simp only [Bool.and_eq_true, beq_iff_eq] at this
  exact this.1

theorem caseTag_of_groupFindEdge {image : Image} {kind : UInt8} {node : UInt16} {tag : UInt8}
    {edge : Edge} (hk : ¬ kind < 5) (h : image.groupFindEdge kind node tag = some edge) :
    edge.caseTag = tag := by
  have := List.find?_some h
  simp only [Bool.and_eq_true, Bool.or_eq_true, decide_eq_true_eq, beq_iff_eq] at this
  exact this.2.resolve_left hk

theorem mem_of_findEdge {image : Image} {kind : UInt8} {node : UInt16} {edge : Edge}
    (h : image.findEdge kind node = some edge) :
    edge ∈ image.tables.edges ∧ edge.sourceKind = kind ∧ edge.sourceNode = node := by
  refine ⟨List.mem_of_find?_eq_some h, ?_⟩
  have := List.find?_some h
  simpa only [Bool.and_eq_true, beq_iff_eq] using this

/-- The exits of a delivery belong to actions. -/
theorem findEdge_action {kind : UInt8} {node : UInt16} {edge : Edge}
    (hk : kind = 1 ∨ kind = 2 ∨ kind = 3 ∨ kind = 4)
    (hfind : image.findEdge kind node = some edge) : (image.node node).kind = 1 := by
  obtain ⟨classes, regions, h⟩ := image.checked
  obtain ⟨he, rfl, rfl⟩ := mem_of_findEdge hfind
  cases h.source he with
  | result _ action | undelivered _ action => exact (h.node_checked action).1
  | input kind | case kind | branch kind | field kind | item kind | collected kind =>
      simp [kind] at hk

/-- What leaves a delivery with a value, or a dispatch, is typed. -/
theorem source_typed {edge : Edge} (he : edge ∈ image.tables.edges)
    (hk : edge.sourceKind = 1 ∨ edge.sourceKind = 2 ∨ edge.sourceKind = 5) :
    edge.sourceType ≠ 0 := by
  obtain ⟨classes, regions, h⟩ := image.checked
  cases h.source he with
  | result _ _ typed => exact h.type_ne_zero typed
  | case _ _ _ _ sourceAt => exact h.type_ne_zero (descriptor_contains sourceAt)
  | undelivered kind => rcases kind with kind | kind <;> simp [kind] at hk
  | input kind | branch kind | field kind | item kind | collected kind => simp [kind] at hk

/-- The edge into a dispatch enters a dispatch node. -/
theorem target_dispatch {edge : Edge} (he : edge ∈ image.tables.edges)
    (hk : edge.targetKind = 3) : (image.node edge.targetNode).kind = 3 := by
  obtain ⟨classes, regions, h⟩ := image.checked
  cases h.target he with
  | dispatch _ dispatch => exact (h.node_checked dispatch).1
  | action kind | terminal kind | fork kind | join kind | each kind | collect kind =>
      simp [kind] at hk

end Hermas.Image
