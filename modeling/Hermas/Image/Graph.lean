import Hermas.Base.Graph
import Hermas.Image.Facts

/-!
# The node graph of an image

The nodes with the edges between them, every each region contracted onto its
template. The loader sees to it that every node is reachable from the input and
that an action, a dispatch and a fork have one input edge. Only a join, and the
template of an each region, can be entered twice.
-/

namespace Hermas.Image

open Hermas.Graph

variable (image : Image)

/-- What the loader knows of them. -/
def eachState : RegionState := { each := image.eachRegions }

/-- Some edge leads from one node to the other. -/
def Leads (u v : UInt16) : Prop :=
  ∃ edge ∈ image.tables.edges, edge.sourceKind ≠ 0 ∧ graphSource image.eachState edge = u ∧
    graphTarget image.eachState edge = v ∧ u ≠ 0 ∧ v ≠ 0

/-- The input enters here. -/
def IsRoot (v : UInt16) : Prop :=
  ∃ edge ∈ image.tables.edges, edge.sourceKind = 0 ∧ graphTarget image.eachState edge = v ∧ v ≠ 0

def IsNode (v : UInt16) : Prop := v ≠ 0 ∧ v.toNat ≤ image.tables.nodes.length

/-- A join, or the template of an each region. -/
def Meets (v : UInt16) : Prop :=
  (image.node v).kind = 5 ∨ ∃ each ∈ image.eachRegions, each.template = v

variable {image : Image} {classes : List NodeClass} {regions : RegionState}

/-! ## Regions -/

theorem validateRegion_each {bytes : Bytes} {tables : Tables} {state state' : RegionState}
    {region : Region} (h : validateRegion bytes tables classes state region = .ok state') :
    state'.each =
      state.each ++ ([region].filter (·.readU8 0 == 2)).map EachRegion.read := by
  unfold validateRegion at h
  simp only at h
  split at h
  · rename_i hk
    unfold validateDeadline at h
    simp only at h
    split at h
    · cases h
    · cases h
      simp [hk]
  split at h
  · rename_i hk
    simp only [validateEach, bind_ok, pure_ok, require_ok] at h
    obtain ⟨⟨⟩, -, ⟨⟩, -, rfl⟩ := h
    simp [hk]
  rename_i hk
  split at h
  · simp only [validateSagaStep, bind_ok, pure_ok, require_ok] at h
    obtain ⟨⟨⟩, -, rfl⟩ := h
    simp [hk]
  split at h
  · simp only [validateSagaOutcome, bind_ok, pure_ok, require_ok] at h
    obtain ⟨⟨⟩, -, rfl⟩ := h
    simp [hk]
  · cases h

theorem Checked.each_eq (h : Checked image classes regions) : regions.each = image.eachRegions := by
  have hfold : ∀ (records : List Region) (state state' : RegionState),
      records.foldlM (validateRegion image.bytes image.tables classes) state = .ok state' →
      state'.each = state.each ++ (records.filter (·.readU8 0 == 2)).map EachRegion.read := by
    intro records
    induction records with
    | nil =>
        intro state state' h
        rw [List.foldlM_nil, pure_ok] at h
        simp [h]
    | cons region records ih =>
        intro state state' h
        rw [List.foldlM_cons, bind_ok] at h
        obtain ⟨next, hregion, hrest⟩ := h
        rw [ih next state' hrest, validateRegion_each hregion, List.append_assoc,
          ← List.map_append, ← List.filter_append]
        rfl
  have hall := hfold _ _ _ h.regionsOk
  rw [List.nil_append] at hall
  exact hall

theorem Checked.eachAt_eq (h : Checked image classes regions) (region : UInt16) :
    eachAt image.eachState region = eachAt regions region := by
  unfold eachAt
  rw [h.each_eq]
  rfl

theorem Checked.graphSource_eq (h : Checked image classes regions) (edge : Edge) :
    graphSource image.eachState edge = graphSource regions edge := by
  unfold graphSource
  rw [h.eachAt_eq]

theorem Checked.graphTarget_eq (h : Checked image classes regions) (edge : Edge) :
    graphTarget image.eachState edge = graphTarget regions edge := by
  unfold graphTarget
  rw [h.eachAt_eq]

/-! ## Nodes -/

theorem Checked.length_classes (h : Checked image classes regions) :
    classes.length = image.tables.nodes.length := h.forall_nodes.length_eq.symm

theorem nodes_le (image : Image) : image.tables.nodes.length ≤ maxNodes := by
  obtain ⟨classes, regions, h⟩ := image.checked
  have hcounts := h.counts
  simp only [validateCounts, require_ok] at hcounts
  obtain ⟨-, -, -, -, -, -, -, -, hnodes, -⟩ := hcounts
  have hlen : image.tables.nodes.length = image.tables.header.nodeCount := by
    rw [← image.tables_eq]
    simp [readTables, readTable]
  rw [hlen]
  exact hnodes

theorem Checked.isNode_of_class (h : Checked image classes regions) {v : UInt16} {c : NodeClass}
    (hc : classAt classes v = some c) : image.IsNode v := by
  unfold classAt at hc
  split at hc
  · cases hc
  · rename_i hne
    obtain ⟨hlt, -⟩ := List.getElem?_eq_some_iff.mp hc
    have hpos : v.toNat ≠ 0 := fun h0 => hne (UInt16.toNat_inj.mp (by simpa using h0))
    rw [h.length_classes] at hlt
    exact ⟨hne, by omega⟩

theorem Checked.class_of_isNode (h : Checked image classes regions) {v : UInt16}
    (hv : image.IsNode v) : ∃ c, classAt classes v = some c := by
  obtain ⟨hne, hle⟩ := hv
  have hpos : v.toNat ≠ 0 := fun h0 => hne (UInt16.toNat_inj.mp (by simpa using h0))
  have hlt : v.toNat - 1 < classes.length := by rw [h.length_classes]; omega
  exact ⟨classes[v.toNat - 1], by rw [classAt, if_neg hne, List.getElem?_eq_getElem hlt]⟩

/-- The loader went through the nodes with their ids. -/
theorem mem_zip_of_classAt {v : UInt16} {c : NodeClass} (hc : classAt classes v = some c) :
    (v, c) ∈ (nodeIds classes).zip classes := by
  unfold classAt at hc
  split at hc
  · cases hc
  · rename_i hne
    obtain ⟨hlt, hget⟩ := List.getElem?_eq_some_iff.mp hc
    have hpos : v.toNat ≠ 0 := fun h0 => hne (UInt16.toNat_inj.mp (by simpa using h0))
    refine List.mem_iff_getElem.mpr ⟨v.toNat - 1, by simp [nodeIds, hlt], ?_⟩
    have hid : UInt16.ofNat (v.toNat - 1 + 1) = v := by
      rw [Nat.sub_add_cancel (Nat.pos_of_ne_zero hpos)]
      exact UInt16.ofNat_toNat
    rw [List.getElem_zip, hget]
    simp only [nodeIds, List.getElem_map, List.getElem_range, hid]

theorem mem_nodeIds {v : UInt16} {c : NodeClass} (hc : classAt classes v = some c) :
    v ∈ nodeIds classes := (List.of_mem_zip (mem_zip_of_classAt hc)).1

theorem Checked.nodeTopology_of (h : Checked image classes regions) {v : UInt16} {c : NodeClass}
    (hc : classAt classes v = some c) : nodeTopology image.tables.edges regions v c = true := by
  have htop := h.topology
  simp only [validateTopology, bind_ok, require_ok] at htop
  obtain ⟨⟨⟩, hnodes, -⟩ := htop
  exact hnodes (v, c) (mem_zip_of_classAt hc)

/-! ## Reachability -/

section Reach

variable {edges : List Edge}

/-- Nodes and edges as a loader sees them that knows the each regions. -/
def LeadsBy (regions : RegionState) (edges : List Edge) (u v : UInt16) : Prop :=
  ∃ edge ∈ edges, edge.sourceKind ≠ 0 ∧ graphSource regions edge = u ∧
    graphTarget regions edge = v ∧ u ≠ 0 ∧ v ≠ 0

def RootBy (regions : RegionState) (edges : List Edge) (v : UInt16) : Prop :=
  ∃ edge ∈ edges, edge.sourceKind = 0 ∧ graphTarget regions edge = v ∧ v ≠ 0

/-- What a pass over the edges reaches lies behind a root if everything before did. -/
theorem reachEdge_rooted {reachable : List UInt16}
    (hr : ∀ v ∈ reachable, Rooted (LeadsBy regions edges) (RootBy regions edges) v) {edge : Edge}
    (he : edge ∈ edges) :
    ∀ v ∈ reachEdge regions reachable edge,
      Rooted (LeadsBy regions edges) (RootBy regions edges) v := by
  intro v hv
  unfold reachEdge at hv
  simp only at hv
  split at hv
  · rename_i hstep
    obtain ⟨hk, hsource, htarget, hmem, -⟩ := hstep
    rcases List.mem_cons.mp hv with rfl | hv
    · obtain ⟨r, hroot, hpath⟩ := hr _ hmem
      exact ⟨r, hroot, hpath.tail ⟨edge, he, hk, rfl, rfl, hsource, htarget⟩⟩
    · exact hr v hv
  · exact hr v hv

theorem reachPasses_rooted : ∀ (passes : Nat) {reachable : List UInt16},
    (∀ v ∈ reachable, Rooted (LeadsBy regions edges) (RootBy regions edges) v) →
    ∀ v ∈ reachPasses regions edges passes reachable,
      Rooted (LeadsBy regions edges) (RootBy regions edges) v := by
  intro passes
  induction passes with
  | zero => intro reachable hr; exact hr
  | succ passes ih =>
      intro reachable hr
      have hpass : ∀ some_ : List Edge, (∀ e ∈ some_, e ∈ edges) → ∀ start : List UInt16,
          (∀ v ∈ start, Rooted (LeadsBy regions edges) (RootBy regions edges) v) →
          ∀ v ∈ some_.foldl (reachEdge regions) start,
            Rooted (LeadsBy regions edges) (RootBy regions edges) v := by
        intro some_
        induction some_ with
        | nil => intro _ start hstart; exact hstart
        | cons edge some_ ihe =>
            intro hsub start hstart
            exact ihe (fun e he => hsub e (by simp [he])) _
              (reachEdge_rooted hstart (hsub edge (by simp)))
      unfold reachPasses
      simp only
      split
      · exact hpass _ (fun _ he => he) _ hr
      · exact ih (hpass _ (fun _ he => he) _ hr)

/-- The passes start from the nodes that the input enters. -/
theorem mem_start {v : UInt16} :
    v ∈ ((edges.filter (·.sourceKind == 0)).map (graphTarget regions) |>.filter (· != 0)) ↔
      RootBy regions edges v := by
  simp only [List.mem_filter, List.mem_map, beq_iff_eq, bne_iff_ne, RootBy]
  constructor
  · rintro ⟨⟨edge, ⟨he, hk⟩, rfl⟩, hne⟩
    exact ⟨edge, he, hk, rfl, hne⟩
  · rintro ⟨edge, he, hk, rfl, hne⟩
    exact ⟨⟨edge, ⟨he, hk⟩, rfl⟩, hne⟩

/-- What the loader reaches lies behind the input. -/
theorem reachableNodes_rooted {count : Nat} {v : UInt16}
    (hv : v ∈ reachableNodes regions edges count) :
    Rooted (LeadsBy regions edges) (RootBy regions edges) v :=
  reachPasses_rooted count (fun _ hu => ⟨_, mem_start.mp hu, .refl⟩) v hv

end Reach

/-- **Every node is reachable from the input.** -/
theorem Checked.rooted (h : Checked image classes regions) {v : UInt16} (hv : image.IsNode v) :
    Rooted image.Leads image.IsRoot v := by
  obtain ⟨c, hc⟩ := h.class_of_isNode hv
  have htop := h.topology
  simp only [validateTopology, bind_ok, require_ok] at htop
  obtain ⟨⟨⟩, -, ⟨⟩, -, ⟨⟩, -, hall⟩ := htop
  have hmem := List.all_eq_true.mp hall v (mem_nodeIds hc)
  rw [List.contains_iff_mem] at hmem
  obtain ⟨r, ⟨root, hroot, hk, htarget, hne⟩, hpath⟩ := reachableNodes_rooted hmem
  have hsub : ∀ u w, LeadsBy regions image.tables.edges u w → image.Leads u w := by
    rintro u w ⟨edge, he, hkind, hu, hw, hune, hwne⟩
    exact ⟨edge, he, hkind, (h.graphSource_eq edge).trans hu, (h.graphTarget_eq edge).trans hw,
      hune, hwne⟩
  exact ⟨r, ⟨root, hroot, hk, (h.graphTarget_eq root).trans htarget, hne⟩,
    Relation.ReflTransGen.mono hsub _ _ hpath⟩

/-! ## Edges of the node graph -/

/-- Every node that an edge leaves is known to the loader and is no terminal. -/
theorem Checked.source_class (h : Checked image classes regions) {u v : UInt16}
    (hl : image.Leads u v) :
    ∃ c, classAt classes u = some c ∧ ∀ subtype, c ≠ .terminal subtype := by
  obtain ⟨edge, he, hk, hu, -, hune, -⟩ := hl
  rw [h.graphSource_eq] at hu
  unfold graphSource at hu
  cases h.source he with
  | input kind => exact absurd kind hk
  | result kind action =>
      rcases kind with kind | kind <;> simp [kind] at hu <;>
        exact ⟨_, hu ▸ action, fun _ => by simp⟩
  | undelivered kind action =>
      rcases kind with kind | kind <;> simp [kind] at hu <;>
        exact ⟨_, hu ▸ action, fun _ => by simp⟩
  | case kind class_ | branch kind class_ | field kind class_ =>
      simp [kind] at hu
      exact ⟨_, hu ▸ class_, fun _ => by simp⟩
  | item kind =>
      rw [if_pos kind] at hu
      exact absurd hu.symm hune
  | collected kind _ region =>
      simp [kind, region] at hu
      have haction := (h.each_checked _ (eachAt_mem region)).template
      rw [isActionNode, beq_iff_eq, hu] at haction
      exact ⟨_, haction, fun _ => by simp⟩

theorem Checked.class_of_onCycle (h : Checked image classes regions) {v : UInt16}
    (hv : OnCycle image.Leads v) :
    ∃ c, classAt classes v = some c ∧ ∀ subtype, c ≠ .terminal subtype := by
  obtain ⟨w, hvw, -⟩ := Relation.TransGen.head'_iff.mp hv
  exact h.source_class hvw

theorem eq_of_countP_le_one {α : Type} {p : α → Bool} {xs : List α} (hcount : xs.countP p ≤ 1)
    {a b : α} (ha : a ∈ xs) (hb : b ∈ xs) (hpa : p a = true) (hpb : p b = true) : a = b := by
  induction xs with
  | nil => cases ha
  | cons x xs ih =>
      rw [List.countP_cons] at hcount
      have hrest : ∀ c ∈ xs, p c = true → p x = true → False := by
        intro c hc hpc hpx
        have := List.countP_pos_iff.mpr ⟨c, hc, hpc⟩
        rw [if_pos hpx] at hcount
        omega
      rcases List.mem_cons.mp ha with rfl | ha'
      · rcases List.mem_cons.mp hb with rfl | hb'
        · rfl
        · exact (hrest b hb' hpb hpa).elim
      · rcases List.mem_cons.mp hb with rfl | hb'
        · exact (hrest a ha' hpa hpb).elim
        · exact ih (by omega) ha' hb'

/-- Every each region is entered once, collects once, and hands on from one edge each. -/
theorem Checked.each_counts (h : Checked image classes regions) {region : UInt16}
    {each : EachRegion} (hfound : eachAt regions region = some each) :
    targetCount image.tables.edges 6 region 0 = 1 ∧ targetCount image.tables.edges 7 region 0 = 1 ∧
      caseCount image.tables.edges 8 region 0 = 1 ∧ caseCount image.tables.edges 9 region 0 = 1 := by
  have htopology := h.topology
  simp only [validateTopology, bind_ok, require_ok] at htopology
  obtain ⟨⟨⟩, -, ⟨⟩, -, ⟨⟩, hregions, -⟩ := htopology
  unfold eachAt at hfound
  split at hfound
  · cases hfound
  · rename_i hne
    obtain ⟨hlt, -⟩ := List.getElem?_eq_some_iff.mp hfound
    have hcounts := hregions _ (List.mem_range.mpr hlt)
    have hpos : region.toNat ≠ 0 := fun h0 => hne (UInt16.toNat_inj.mp h0)
    have hindex : UInt16.ofNat (region.toNat - 1 + 1) = region := by
      rw [Nat.sub_add_cancel (Nat.pos_of_ne_zero hpos), UInt16.ofNat_toNat]
    rwa [hindex] at hcounts

/-- The counted input edges of a node. -/
def isInput (node : UInt16) (edge : Edge) : Bool :=
  (edge.targetKind == 1 || edge.targetKind == 3 || edge.targetKind == 4) &&
    edge.targetNode == node

/-- An edge into a node that takes one input, and is no template, is counted there. -/
theorem Checked.isInput_of_target (h : Checked image classes regions) {edge : Edge}
    (he : edge ∈ image.tables.edges) {v : UInt16} {c : NodeClass}
    (hc : classAt classes v = some c) (hterminal : ∀ subtype, c ≠ .terminal subtype)
    (hmeet : ¬ image.Meets v) (hv : graphTarget image.eachState edge = v) (hne : v ≠ 0) :
    isInput v edge = true := by
  rw [h.graphTarget_eq] at hv
  unfold graphTarget at hv
  cases h.target he with
  | action kind | dispatch kind | fork kind =>
      simp [kind] at hv
      simp [isInput, kind, hv]
  | terminal kind terminal =>
      simp [kind] at hv
      rw [hv, hc] at terminal
      exact absurd (Option.some.inj terminal) (hterminal _)
  | join kind join =>
      simp [kind] at hv
      rw [hv] at join
      exact absurd (.inl (h.node_checked join).1) hmeet
  | each kind region =>
      simp [kind, region] at hv
      exact absurd (.inr ⟨_, h.each_eq ▸ eachAt_mem region, hv⟩) hmeet
  | collect kind =>
      simp [kind] at hv
      exact absurd hv.symm hne

theorem Checked.input_unique (h : Checked image classes regions) {v : UInt16} {c : NodeClass}
    (hc : classAt classes v = some c) (hterminal : ∀ subtype, c ≠ .terminal subtype)
    (hmeet : ¬ image.Meets v) {a b : Edge} (ha : a ∈ image.tables.edges)
    (hb : b ∈ image.tables.edges) (hia : isInput v a = true) (hib : isInput v b = true) :
    a = b := by
  have htop := h.nodeTopology_of hc
  have hone : inputCount image.tables.edges v = 1 := by
    cases c with
    | terminal subtype => exact absurd rfl (hterminal subtype)
    | join branches => exact absurd (.inl (h.node_checked hc).1) hmeet
    | action =>
        simp only [nodeTopology, Bool.and_eq_true, beq_iff_eq] at htop
        exact htop.1.1.1.1.1
    | dispatch type cases | fork type branches =>
        simp only [nodeTopology, Bool.and_eq_true, beq_iff_eq] at htop
        exact htop.1
  exact eq_of_countP_le_one (p := isInput v) (Nat.le_of_eq hone) ha hb hia hib

/-- **Only joins and templates can be entered twice.** -/
theorem Checked.enteredOnce (h : Checked image classes regions) {v : UInt16} {c : NodeClass}
    (hc : classAt classes v = some c) (hterminal : ∀ subtype, c ≠ .terminal subtype)
    (hmeet : ¬ image.Meets v) : EnteredOnce image.Leads image.IsRoot v where
  root := by
    rintro ⟨root, hroot, hk0, htarget, hne⟩ u ⟨edge, he, hk, -, hv, -⟩
    have hsame := h.input_unique hc hterminal hmeet hroot he
      (h.isInput_of_target hroot hc hterminal hmeet htarget hne)
      (h.isInput_of_target he hc hterminal hmeet hv hne)
    exact hk (hsame ▸ hk0)
  unique := by
    rintro u u' ⟨edge, he, -, hu, hv, -, hne⟩ ⟨edge', he', -, hu', hv', -⟩
    have hsame := h.input_unique hc hterminal hmeet he he'
      (h.isInput_of_target he hc hterminal hmeet hv hne)
      (h.isInput_of_target he' hc hterminal hmeet hv' hne)
    rw [← hu, ← hu', hsame]

/-- An action has all four exits. -/
theorem Checked.exists_exit (h : Checked image classes regions) {node : UInt16} {kind : UInt8}
    (haction : classAt classes node = some .action)
    (hk : kind = 1 ∨ kind = 2 ∨ kind = 3 ∨ kind = 4) :
    ∃ edge, image.groupFindEdge kind node 0 = some edge := by
  have htop := h.nodeTopology_of haction
  simp only [nodeTopology, Bool.and_eq_true, beq_iff_eq] at htop
  have hcount : sourceCount image.tables.edges kind node = 1 := by
    rcases hk with rfl | rfl | rfl | rfl
    · exact htop.1.1.1.1.2
    · exact htop.1.1.1.2
    · exact htop.1.1.2
    · exact htop.1.2
  obtain ⟨edge, hmem, hsource⟩ := List.countP_pos_iff.mp (Nat.lt_of_lt_of_eq Nat.one_pos hcount.symm)
  simp only [Bool.and_eq_true, beq_iff_eq] at hsource
  refine Option.isSome_iff_exists.mp (List.find?_isSome.mpr ⟨edge, hmem, ?_⟩)
  have hsmall : kind < 5 := by rcases hk with rfl | rfl | rfl | rfl <;> decide
  simp [hsource, hsmall]

/-- An action whose delivery can return a value can also lose it. -/
theorem exists_undelivered {kind : UInt8} {node : UInt16} {edge : Edge}
    (hk : kind = 1 ∨ kind = 2 ∨ kind = 3 ∨ kind = 4)
    (hfind : image.groupFindEdge kind node 0 = some edge) :
    ∃ lost, image.groupFindEdge 4 node 0 = some lost := by
  obtain ⟨classes, regions, h⟩ := image.checked
  obtain ⟨he, rfl, rfl⟩ := mem_of_groupFindEdge hfind
  have haction : classAt classes edge.sourceNode = some .action := by
    cases h.source he with
    | result _ action | undelivered _ action => exact action
    | input kind | case kind | branch kind | field kind | item kind | collected kind =>
        simp [kind] at hk
  exact h.exists_exit haction (.inr (.inr (.inr rfl)))

theorem mem_nodeList {v : UInt16} (hv : image.IsNode v) :
    v ∈ (List.range image.tables.nodes.length).map fun index => UInt16.ofNat (index + 1) := by
  obtain ⟨hne, hle⟩ := hv
  have hpos : v.toNat ≠ 0 := fun h0 => hne (UInt16.toNat_inj.mp (by simpa using h0))
  refine List.mem_map.mpr ⟨v.toNat - 1, List.mem_range.mpr (by omega), ?_⟩
  rw [Nat.sub_add_cancel (Nat.pos_of_ne_zero hpos)]
  exact UInt16.ofNat_toNat

/-- On the way through an acyclic image there are no more stations than nodes. -/
theorem stations_le (h : Acyclic image.Leads) {stations : List UInt16}
    (hnodes : ∀ v ∈ stations, image.IsNode v)
    (hs : stations.IsChain (Relation.TransGen image.Leads)) :
    stations.length ≤ image.tables.nodes.length := by
  have hle := h.length_le hs fun v hv => mem_nodeList (hnodes v hv)
  simpa using hle

/-- A cycle goes through a join or a template. -/
theorem leads_acyclic (image : Image)
    (hmeet : ∀ v, image.Meets v → ¬ OnCycle image.Leads v) : Acyclic image.Leads := by
  obtain ⟨classes, regions, h⟩ := image.checked
  refine acyclic_of_merges image.IsRoot (fun v hv => ?_) fun v honce hv => ?_
  · obtain ⟨c, hc, -⟩ := h.class_of_onCycle hv
    exact h.rooted (h.isNode_of_class hc)
  · obtain ⟨c, hc, hterminal⟩ := h.class_of_onCycle hv
    by_cases hm : image.Meets v
    · exact hmeet v hm hv
    · exact honce (h.enteredOnce hc hterminal hm)

/-! ## Images for one flow -/

/-- No fork, no join, no each region. -/
def Sequential (image : Image) : Prop :=
  (∀ node ∈ image.tables.nodes, node.kind ≠ 4 ∧ node.kind ≠ 5) ∧ image.eachRegions = []

instance (image : Image) : Decidable image.Sequential := by
  unfold Sequential
  infer_instance

/-- One flow goes from actions and dispatches to actions, dispatches and terminals. -/
theorem Sequential.target (hseq : image.Sequential) {edge : Edge}
    (he : edge ∈ image.tables.edges) :
    edge.targetKind = 1 ∨ edge.targetKind = 2 ∨ edge.targetKind = 3 := by
  obtain ⟨classes, regions, h⟩ := image.checked
  have hnone : ∀ region each, eachAt regions region ≠ some each := by
    intro region each hat
    have hmem := eachAt_mem hat
    rw [h.each_eq, hseq.2] at hmem
    cases hmem
  cases h.target he with
  | action kind => exact .inl kind
  | terminal kind => exact .inr (.inl kind)
  | dispatch kind => exact .inr (.inr kind)
  | fork _ fork =>
      have hkind := (h.node_checked fork).1
      exact absurd hkind (hseq.1 _ (node_mem hkind (by decide))).1
  | join _ join =>
      have hkind := (h.node_checked join).1
      exact absurd hkind (hseq.1 _ (node_mem hkind (by decide))).2
  | each _ region => exact absurd region (hnone _ _)
  | collect _ region => exact absurd region (hnone _ _)

theorem Sequential.acyclic (hseq : image.Sequential) : Graph.Acyclic image.Leads := by
  refine leads_acyclic image fun v hmeet _ => ?_
  rcases hmeet with hkind | ⟨each, heach, -⟩
  · exact (hseq.1 _ (node_mem hkind (by decide))).2 hkind
  · rw [hseq.2] at heach
    cases heach

theorem Sequential.target_isNode (hseq : image.Sequential) {edge : Edge}
    (he : edge ∈ image.tables.edges) : image.IsNode edge.targetNode := by
  obtain ⟨classes, regions, h⟩ := image.checked
  have hkind := hseq.target he
  cases h.target he with
  | action _ class_ | terminal _ class_ | dispatch _ class_ => exact h.isNode_of_class class_
  | fork kind | join kind | each kind | collect kind => simp [kind] at hkind

/-- The next node is downstream of the last one. -/
theorem Sequential.leads (hseq : image.Sequential) {edge : Edge} (he : edge ∈ image.tables.edges)
    (hk : edge.sourceKind = 1 ∨ edge.sourceKind = 2 ∨ edge.sourceKind = 5) :
    image.Leads edge.sourceNode edge.targetNode := by
  obtain ⟨classes, regions, h⟩ := image.checked
  have hsource : edge.sourceNode ≠ 0 := by
    cases h.source he with
    | result _ class_ | case _ class_ => exact (h.classAt_some class_).1
    | undelivered kind => rcases kind with kind | kind <;> simp [kind] at hk
    | input kind | branch kind | field kind | item kind | collected kind => simp [kind] at hk
  refine ⟨edge, he, ?_, ?_, ?_, hsource, (hseq.target_isNode he).1⟩
  · rcases hk with hk | hk | hk <;> rw [hk] <;> decide
  · unfold graphSource
    rcases hk with hk | hk | hk <;> simp [hk]
  · unfold graphTarget
    rcases hseq.target he with hk | hk | hk <;> simp [hk]

end Hermas.Image
