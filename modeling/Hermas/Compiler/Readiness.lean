import Hermas.Compiler.Acyclic

/-!
# Readiness levels

The plan of a workflow gives every action the stage at which it can be ready. The stages
come from a relaxation: level by level a node is put behind the nodes it depends on, until
nothing changes or every node has had its round. An each region stands for its template:
what enters the region enters the template, what leaves it leaves the template, and the
ports for its items are inside.
-/

namespace Hermas.GraphBuilder

open Compiler (EdgeSource EdgeTarget)
open Image (EachRegion maxNodes)

/-! ## The relaxation -/

/-- `schedulable` -/
def schedulable : NodeKind → Bool
  | .terminal _ => false
  | _ => true

section Relaxation

variable (graph : GraphBuilder)

/-- What an edge says about the level of a node; nothing is level zero. -/
def edgeLevel (levels : List Nat) (id : UInt16) (edge : Edge) : Nat :=
  if graph.targetNode edge.target ≠ some id then 0
  else
    match graph.sourceNode edge.source with
    | some source =>
        if source ≠ id then
          let sourceLevel := levels.getD (source.toNat - 1) 0
          if sourceLevel ≠ 0 then sourceLevel + 1 else 0
        else 0
    | none => if edge.source = .workflowInput then 1 else 0

/-- The highest level that an edge gives a node. -/
def nodeLevel (levels : List Nat) (id : UInt16) : Nat :=
  graph.edges.foldl (fun level edge => max level (graph.edgeLevel levels id edge)) 0

/-- One round over the nodes, and whether it changed a level. -/
def relaxRound : List (NodeKind × Nat) → List Nat → Bool → List Nat × Bool
  | [], levels, changed => (levels, changed)
  | (node, index) :: nodes, levels, changed =>
      let level := graph.nodeLevel levels (nodeId index)
      if schedulable node ∧ levels.getD index 0 < level then
        relaxRound nodes (levels.set index level) true
      else relaxRound nodes levels changed

/-- The rounds, until one changes nothing. -/
def relaxRounds : Nat → List Nat → List Nat
  | 0, levels => levels
  | rounds + 1, levels =>
      let (levels, changed) := graph.relaxRound graph.nodes.zipIdx levels false
      if changed then relaxRounds rounds levels else levels

/-- `VerifiedGraph::readiness_levels` -/
def readinessLevels : List Nat :=
  graph.relaxRounds graph.nodes.length (List.replicate graph.nodes.length 0)

/-- The level of a node. -/
def level (id : UInt16) : Nat := graph.readinessLevels.getD (id.toNat - 1) 0

end Relaxation

/-! ## The emitted plan -/

/-- A type as the plan shows it. -/
structure PlanType where
  typeId : UInt16
  name : String
  deriving DecidableEq, Repr

/-- One entry of `actions` in the plan. -/
structure PlanAction where
  nodeId : UInt16
  appId : UInt16
  actionId : UInt16
  name : String
  stage : Nat
  input : PlanType
  success : PlanType
  error : PlanType
  deriving DecidableEq, Repr

/-- The actions of `VerifiedGraph::execution_plan_json`, in the order of the nodes. -/
def planActions (graph : GraphBuilder) (catalog : Catalog) : List PlanAction :=
  let levels := graph.readinessLevels
  let shown := fun type => PlanType.mk type (catalog.typeName type)
  graph.nodes.zipIdx.filterMap fun (node, index) =>
    match node with
    | .action id => (catalog.action id).map fun action =>
        { nodeId := nodeId index
          appId := action.app
          actionId := action.id
          name := catalog.actionName id
          stage := levels.getD index 0
          input := shown action.input
          success := shown action.success
          error := shown action.error }
    | _ => none

/-! ## Dependencies -/

section Dependencies

variable (graph : GraphBuilder)

/-- The workflow input goes to the node. -/
def Entered (node : UInt16) : Prop :=
  ∃ edge ∈ graph.edges, edge.source = .workflowInput ∧ graph.targetNode edge.target = some node

/-- An edge leads from one node to another. -/
def Depends (source target : UInt16) : Prop :=
  ∃ edge ∈ graph.edges, graph.sourceNode edge.source = some source ∧
    graph.targetNode edge.target = some target

/-- A dependency path from the workflow input to a node, with the number of its edges. -/
abbrev Path : Nat → UInt16 → Prop := Walk graph.Entered graph.Depends

end Dependencies

/-! ## Nodes and their numbers -/

section Nodes

variable {graph : GraphBuilder} {catalog : Catalog} {node : NodeKind} {id : UInt16} {edge : Edge}

theorem nodeId_toNat {index : Nat} (h : index < maxNodes) : (nodeId index).toNat = index + 1 := by
  have : maxNodes = 64 := rfl
  rw [nodeId, UInt16.toNat_ofNat']
  omega

/-- What has a number is a node of the list. -/
theorem nodes_of_nodeAt (h : graph.nodeAt id = some node) :
    id = nodeId (id.toNat - 1) ∧ graph.nodes[id.toNat - 1]? = some node := by
  unfold nodeAt Catalog.indexed at h
  split_ifs at h with hzero
  refine ⟨?_, h⟩
  rw [← UInt16.toNat_inj, UInt16.toNat_zero] at hzero
  rw [nodeId, Nat.sub_add_cancel (Nat.pos_of_ne_zero hzero), UInt16.ofNat_toNat]

theorem action_of_actionForNode {definition : Catalog.ActionDef}
    (h : graph.actionForNode catalog id = .ok definition) :
    ∃ action, graph.nodeAt id = some (.action action) := by
  unfold actionForNode at h
  split at h
  · rename_i action hnode
    exact ⟨action, hnode⟩
  · cases h

/-- A region is left by the action that it repeats. -/
theorem Verified.template (h : Verified graph catalog) {region : UInt16} {each : EachRegion}
    (heach : graph.eachRegion region = some each) :
    ∃ action, graph.nodeAt each.template = some (.action action) := by
  have hmem : each ∈ graph.eachRegions := by
    unfold eachRegion Catalog.indexed at heach
    split_ifs at heach
    exact List.mem_of_getElem? heach
  obtain ⟨before, hcheck⟩ := checkEach_mem h.eachRegions hmem
  simp only [verifyEachRegion, require_ok] at hcheck
  obtain ⟨-, -, -, -, -, htemplate, -⟩ := hcheck
  obtain ⟨definition, hdefinition, -⟩ := (Option.any_eq_true _ _).mp htemplate
  obtain ⟨node, hnode, haction⟩ := Option.bind_eq_some_iff.mp hdefinition
  cases node with
  | action action => exact ⟨action, hnode⟩
  | _ => cases haction

/-- Edges come from nodes that are not terminals. -/
theorem Verified.sourceNode (h : Verified graph catalog) (he : edge ∈ graph.edges)
    (hsource : graph.sourceNode edge.source = some id) :
    ∃ node, graph.nodeAt id = some node ∧ schedulable node = true := by
  obtain ⟨type, htype⟩ := h.source he
  have haction : ∀ {value : Catalog.ActionDef → Option UInt16},
      (graph.actionForNode catalog id).map value = .ok type →
        ∃ node, graph.nodeAt id = some node ∧ schedulable node = true := by
    intro value hvalue
    cases hfor : graph.actionForNode catalog id with
    | error reason => rw [hfor] at hvalue; cases hvalue
    | ok definition =>
        obtain ⟨action, hnode⟩ := action_of_actionForNode hfor
        exact ⟨_, hnode, rfl⟩
  cases hport : edge.source with
  | workflowInput | eachItem =>
      rw [hport] at hsource
      cases hsource
  | actionSuccess node | actionError node | actionNotSent node | actionUnknown node =>
      rw [hport] at hsource htype
      obtain rfl := Option.some.inj hsource
      exact haction htype
  | dispatchCase node tag =>
      rw [hport] at hsource htype
      obtain rfl := Option.some.inj hsource
      simp only [sourceValueType, dispatchCaseType] at htype
      split at htype
      · rename_i variant hnode
        exact ⟨_, hnode, rfl⟩
      · cases htype
  | forkBranch node tag =>
      rw [hport] at hsource htype
      obtain rfl := Option.some.inj hsource
      simp only [sourceValueType] at htype
      split at htype
      · rename_i input branches hnode
        exact ⟨_, hnode, rfl⟩
      · cases htype
  | joinField node tag =>
      rw [hport] at hsource htype
      obtain rfl := Option.some.inj hsource
      simp only [sourceValueType] at htype
      split at htype
      · rename_i types hnode
        exact ⟨_, hnode, rfl⟩
      · cases htype
  | eachOutput region =>
      rw [hport] at hsource
      obtain ⟨each, heach, rfl⟩ := Option.map_eq_some_iff.mp hsource
      obtain ⟨action, hnode⟩ := h.template heach
      exact ⟨_, hnode, rfl⟩

theorem Verified.targetNode (h : Verified graph catalog) (he : edge ∈ graph.edges)
    (htarget : graph.targetNode edge.target = some id) : ∃ node, graph.nodeAt id = some node := by
  obtain ⟨node, hnode, -⟩ := h.edge he
  exact ⟨node, nodeForTarget_eq htarget ▸ hnode⟩

/-- A rank of the nodes that grows along the dependencies. -/
theorem Verified.rank (h : Verified graph catalog) : ∃ rank : UInt16 → Nat,
    ∀ source target, graph.Depends source target →
      rank source < rank target ∧ rank target < graph.nodes.length := by
  obtain ⟨rank, hrank⟩ := verifyAcyclic_rank h.acyclic
  refine ⟨fun id => rank (id.toNat - 1), fun source target hdepends => ?_⟩
  obtain ⟨edge, hedge, hsource, htarget⟩ := hdepends
  refine hrank _ _ (List.mem_filterMap.mpr ⟨edge, hedge, ?_⟩)
  have hplace : ∀ {id : UInt16} {node : NodeKind}, graph.nodeAt id = some node →
      id ≠ 0 ∧ id.toNat ≤ graph.nodes.length := by
    intro id node hnode
    unfold nodeAt Catalog.indexed at hnode
    split_ifs at hnode with hzero
    have := (List.getElem?_eq_some_iff.mp hnode).1
    exact ⟨hzero, by omega⟩
  obtain ⟨_, hsourceNode, -⟩ := h.sourceNode hedge hsource
  obtain ⟨_, htargetNode⟩ := h.targetNode hedge htarget
  have hs := hplace hsourceNode
  have ht := hplace htargetNode
  rw [hsource, htarget]
  exact if_pos ⟨hs.1, hs.2, ht.1, ht.2⟩

end Nodes

/-! ## What the relaxation does -/

section Rounds

variable {graph : GraphBuilder} {catalog : Catalog} {levels levels' : List Nat} {id : UInt16}

/-- The highest of some levels is there, and is not below one of them. -/
theorem foldl_max_spec {α : Type} (f : α → Nat) : ∀ (xs : List α) (start : Nat),
    (∀ x ∈ xs, f x ≤ xs.foldl (fun level x => max level (f x)) start) ∧
      start ≤ xs.foldl (fun level x => max level (f x)) start ∧
      (xs.foldl (fun level x => max level (f x)) start = start ∨
        ∃ x ∈ xs, xs.foldl (fun level x => max level (f x)) start = f x)
  | [], start => ⟨by simp, le_rfl, .inl rfl⟩
  | x :: xs, start => by
      obtain ⟨hall, hstart, hwhich⟩ := foldl_max_spec f xs (max start (f x))
      rw [List.foldl_cons]
      refine ⟨?_, (le_max_left _ _).trans hstart, ?_⟩
      · rw [List.forall_mem_cons]
        exact ⟨(le_max_right _ _).trans hstart, hall⟩
      · rcases hwhich with hwhich | ⟨y, hy, hwhich⟩
        · rcases max_choice start (f x) with hmax | hmax
          · exact .inl (hwhich.trans hmax)
          · exact .inr ⟨x, List.mem_cons_self, hwhich.trans hmax⟩
        · exact .inr ⟨y, List.mem_cons_of_mem _ hy, hwhich⟩

theorem edgeLevel_le {edge : Edge} (he : edge ∈ graph.edges) :
    graph.edgeLevel levels id edge ≤ graph.nodeLevel levels id :=
  (foldl_max_spec (graph.edgeLevel levels id) graph.edges 0).1 edge he

theorem nodeLevel_eq : graph.nodeLevel levels id = 0 ∨
    ∃ edge ∈ graph.edges, graph.nodeLevel levels id = graph.edgeLevel levels id edge :=
  (foldl_max_spec (graph.edgeLevel levels id) graph.edges 0).2.2

/-- Higher levels give higher levels. -/
theorem edgeLevel_mono (h : ∀ index, levels.getD index 0 ≤ levels'.getD index 0) (edge : Edge) :
    graph.edgeLevel levels id edge ≤ graph.edgeLevel levels' id edge := by
  unfold edgeLevel
  by_cases htarget : graph.targetNode edge.target ≠ some id
  · rw [if_pos htarget]
    exact Nat.zero_le _
  rw [if_neg htarget, if_neg htarget]
  cases graph.sourceNode edge.source with
  | none => exact le_rfl
  | some source =>
      have hsource := h (source.toNat - 1)
      dsimp only
      split_ifs <;> omega

theorem nodeLevel_mono (h : ∀ index, levels.getD index 0 ≤ levels'.getD index 0) :
    graph.nodeLevel levels id ≤ graph.nodeLevel levels' id := by
  rcases @nodeLevel_eq graph levels id with hzero | ⟨edge, he, heq⟩
  · omega
  · rw [heq]
    exact (edgeLevel_mono h edge).trans (edgeLevel_le he)

theorem getD_set {index other value : Nat} (h : index < levels.length) :
    (levels.set index value).getD other 0 = if other = index then value else levels.getD other 0 := by
  by_cases hother : other = index
  · subst hother
    rw [if_pos rfl, List.getD_eq_getElem?_getD, List.getElem?_set_self h]
    rfl
  · rw [if_neg hother, List.getD_eq_getElem?_getD, List.getElem?_set_ne (Ne.symm hother),
      List.getD_eq_getElem?_getD]

/-- Where a level goes up, the others stay. -/
theorem le_set {index value : Nat} (h : levels.getD index 0 ≤ value) (other : Nat) :
    levels.getD other 0 ≤ (levels.set index value).getD other 0 := by
  by_cases hindex : index < levels.length
  · rw [getD_set hindex]
    split_ifs with heq
    · exact heq ▸ h
    · exact le_rfl
  · rw [List.set_eq_of_length_le (Nat.le_of_not_lt hindex)]

/-- A round takes no level back, and says whether it changed one. -/
theorem relaxRound_grows : ∀ (nodes : List (NodeKind × Nat)) (levels : List Nat) (changed : Bool),
    (∀ index, levels.getD index 0 ≤ (graph.relaxRound nodes levels changed).1.getD index 0) ∧
      (graph.relaxRound nodes levels changed).1.length = levels.length ∧
      ((graph.relaxRound nodes levels changed).2 = false →
        changed = false ∧ (graph.relaxRound nodes levels changed).1 = levels)
  | [], levels, changed => ⟨fun _ => le_rfl, rfl, fun h => ⟨h, rfl⟩⟩
  | (node, index) :: nodes, levels, changed => by
      rw [relaxRound]
      split_ifs with hup
      · obtain ⟨hgrows, hlength, hchanged⟩ := relaxRound_grows nodes
          (levels.set index (graph.nodeLevel levels (nodeId index))) true
        refine ⟨fun other => (le_set hup.2.le other).trans (hgrows other), ?_, fun hfalse => ?_⟩
        · rw [hlength, List.length_set]
        · exact absurd (hchanged hfalse).1 (by decide)
      · exact relaxRound_grows nodes levels changed

/-- Behind a round every node has at least the level that its edges gave it before. -/
theorem le_relaxRound : ∀ (nodes : List (NodeKind × Nat)) (levels : List Nat) (changed : Bool),
    ∀ node index, (node, index) ∈ nodes → schedulable node = true → index < levels.length →
      graph.nodeLevel levels (nodeId index) ≤
        (graph.relaxRound nodes levels changed).1.getD index 0
  | [], _, _, _, _, hmem, _, _ => by cases hmem
  | (first, place) :: nodes, levels, changed, node, index, hmem, hschedulable, hindex => by
      rw [relaxRound]
      split_ifs with hup
      · rcases List.mem_cons.mp hmem with heq | hmem
        · obtain ⟨rfl, rfl⟩ := Prod.mk.inj heq
          refine le_trans ?_ ((relaxRound_grows nodes _ true).1 index)
          rw [getD_set hindex, if_pos rfl]
        · refine (nodeLevel_mono (le_set hup.2.le)).trans ?_
          exact le_relaxRound nodes _ true node index hmem hschedulable
            (by rwa [List.length_set])
      · rcases List.mem_cons.mp hmem with heq | hmem
        · obtain ⟨rfl, rfl⟩ := Prod.mk.inj heq
          refine le_trans ?_ ((relaxRound_grows nodes levels changed).1 index)
          exact Nat.le_of_not_lt fun hlt => hup ⟨hschedulable, hlt⟩
        · exact le_relaxRound nodes levels changed node index hmem hschedulable hindex

/-- A level that is there is the length of a path. -/
def Sound (graph : GraphBuilder) (levels : List Nat) : Prop :=
  levels.length = graph.nodes.length ∧
    ∀ index, levels.getD index 0 ≠ 0 → graph.Path (levels.getD index 0) (nodeId index)

/-- The levels know every path up to a length. -/
def Complete (graph : GraphBuilder) (length : Nat) (levels : List Nat) : Prop :=
  ∀ n ≤ length, ∀ index node, graph.nodes[index]? = some node → schedulable node = true →
    graph.Path n (nodeId index) → n ≤ levels.getD index 0

theorem Sound.edgeLevel (hv : Verified graph catalog) (h : Sound graph levels) {edge : Edge}
    (he : edge ∈ graph.edges) (hlevel : graph.edgeLevel levels id edge ≠ 0) :
    graph.Path (graph.edgeLevel levels id edge) id := by
  unfold GraphBuilder.edgeLevel at hlevel ⊢
  by_cases htarget : graph.targetNode edge.target = some id
  swap
  · rw [if_pos htarget] at hlevel
    exact absurd rfl hlevel
  rw [if_neg (not_not.mpr htarget)] at hlevel ⊢
  cases hsource : graph.sourceNode edge.source with
  | none =>
      rw [hsource] at hlevel
      dsimp only at hlevel ⊢
      split_ifs at hlevel ⊢ with hinput
      · exact .enter ⟨edge, he, hinput, htarget⟩
      · exact absurd rfl hlevel
  | some source =>
      rw [hsource] at hlevel
      dsimp only at hlevel ⊢
      split_ifs at hlevel ⊢ with hne hzero
      · obtain ⟨node, hnode, -⟩ := hv.sourceNode he hsource
        have hpath := h.2 (source.toNat - 1) hzero
        rw [← (nodes_of_nodeAt hnode).1] at hpath
        exact hpath.step ⟨edge, he, hsource, htarget⟩
      · exact absurd rfl hlevel
      · exact absurd rfl hlevel

theorem Sound.nodeLevel (hv : Verified graph catalog) (h : Sound graph levels)
    (hlevel : graph.nodeLevel levels id ≠ 0) : graph.Path (graph.nodeLevel levels id) id := by
  rcases @nodeLevel_eq graph levels id with hzero | ⟨edge, he, heq⟩
  · exact absurd hzero hlevel
  · rw [heq] at hlevel ⊢
    exact h.edgeLevel hv he hlevel

theorem Sound.relaxRound (hv : Verified graph catalog) : ∀ (nodes : List (NodeKind × Nat))
    {levels : List Nat} {changed : Bool}, Sound graph levels →
      (∀ node index, (node, index) ∈ nodes → index < graph.nodes.length) →
      Sound graph (graph.relaxRound nodes levels changed).1
  | [], _, _, h, _ => h
  | (node, index) :: nodes, levels, changed, h, hnodes => by
      have hrest : ∀ node index, (node, index) ∈ nodes → index < graph.nodes.length :=
        fun node index hmem => hnodes node index (List.mem_cons_of_mem _ hmem)
      rw [GraphBuilder.relaxRound]
      split_ifs with hup
      · refine Sound.relaxRound hv nodes ⟨?_, fun other hother => ?_⟩ hrest
        · rw [List.length_set, h.1]
        · have hindex : index < levels.length := h.1 ▸ hnodes node index List.mem_cons_self
          rw [getD_set hindex] at hother ⊢
          split_ifs at hother ⊢ with heq
          · rw [heq]
            exact h.nodeLevel hv hother
          · exact h.2 other hother
      · exact h.relaxRound hv nodes hrest

theorem mem_zipIdx_nodes {node : NodeKind} {index : Nat} :
    (node, index) ∈ graph.nodes.zipIdx ↔ graph.nodes[index]? = some node := by
  rw [List.mem_zipIdx_iff_getElem?]

/-- A round makes paths known that are longer by one edge. -/
theorem Complete.relaxRound (hv : Verified graph catalog) {length : Nat}
    (h : Complete graph length levels) (hlength : levels.length = graph.nodes.length) :
    Complete graph (length + 1) (graph.relaxRound graph.nodes.zipIdx levels false).1 := by
  intro n hn index node hnode hschedulable hpath
  have hindex : index < levels.length := hlength ▸ (List.getElem?_eq_some_iff.mp hnode).1
  refine le_trans ?_ (le_relaxRound graph.nodes.zipIdx levels false node index
    (mem_zipIdx_nodes.mpr hnode) hschedulable hindex)
  cases hpath with
  | enter hentered =>
      obtain ⟨edge, he, hinput, htarget⟩ := hentered
      refine le_trans (le_of_eq ?_) (edgeLevel_le he)
      rw [GraphBuilder.edgeLevel, if_neg (not_not.mpr htarget), hinput]
      rfl
  | @step m source _ hsourcePath hdepends =>
      obtain ⟨rank, hrank⟩ := hv.rank
      obtain ⟨edge, he, hsource, htarget⟩ := id hdepends
      obtain ⟨kind, hkind, hkindSchedulable⟩ := hv.sourceNode he hsource
      obtain ⟨hid, hplace⟩ := nodes_of_nodeAt hkind
      have hne : source ≠ nodeId index := fun heq => by
        have := (hrank _ _ hdepends).1
        rw [heq] at this
        exact lt_irrefl _ this
      have hsourceLevel := h m (by omega) _ kind hplace hkindSchedulable (hid ▸ hsourcePath)
      have hpos := hsourcePath.pos
      refine le_trans ?_ (edgeLevel_le he)
      rw [GraphBuilder.edgeLevel, if_neg (not_not.mpr htarget), hsource]
      dsimp only
      rw [if_pos hne, if_pos (by omega)]
      omega

/-- **Enough rounds make all paths known**, also when they stop early. -/
theorem Complete.relaxRounds (hv : Verified graph catalog) : ∀ (rounds : Nat) {levels : List Nat}
    {length : Nat}, Complete graph length levels → levels.length = graph.nodes.length →
      Complete graph (length + rounds) (graph.relaxRounds rounds levels)
  | 0, _, _, h, _ => h
  | rounds + 1, levels, length, h, hlength => by
      have hnext := h.relaxRound hv hlength
      obtain ⟨-, hsame, hstill⟩ := @relaxRound_grows graph graph.nodes.zipIdx levels false
      rw [GraphBuilder.relaxRounds]
      dsimp only
      split_ifs with hchanged
      · have hall := hnext.relaxRounds hv rounds (hsame.trans hlength)
        rwa [Nat.add_right_comm, Nat.add_assoc] at hall
      · have hfixed := (hstill (Bool.eq_false_iff.mpr hchanged)).2
        rw [hfixed]
        -- a round that changes nothing can be repeated
        have hrepeat : ∀ more, Complete graph (length + more) levels := by
          intro more
          induction more with
          | zero => exact h
          | succ more ih =>
              have := ih.relaxRound hv hlength
              rwa [hfixed] at this
        exact hrepeat (rounds + 1)

theorem Sound.relaxRounds (hv : Verified graph catalog) : ∀ (rounds : Nat) {levels : List Nat},
    Sound graph levels → Sound graph (graph.relaxRounds rounds levels)
  | 0, _, h => h
  | rounds + 1, levels, h => by
      have hnext : Sound graph (graph.relaxRound graph.nodes.zipIdx levels false).1 :=
        h.relaxRound hv graph.nodes.zipIdx fun node index hmem =>
          (List.getElem?_eq_some_iff.mp (mem_zipIdx_nodes.mp hmem)).1
      rw [GraphBuilder.relaxRounds]
      dsimp only
      split_ifs
      · exact hnext.relaxRounds hv rounds
      · exact hnext

end Rounds

/-! ## The levels are the longest paths -/

section Levels

variable {graph : GraphBuilder} {catalog : Catalog} {id : UInt16}

/-- What the search for unreachable nodes finds is at the end of a path. -/
theorem path_of_reachFrom : ∀ (rounds : Nat) {reached queue : List UInt16},
    (∀ id ∈ reached, ∃ n, graph.Path n id) → (∀ id ∈ queue, ∃ n, graph.Path n id) →
      ∀ id ∈ graph.reachFrom rounds reached queue, ∃ n, graph.Path n id
  | 0, _, _, hreached, _ => hreached
  | _ + 1, _, [], hreached, _ => hreached
  | rounds + 1, reached, first :: queue, hreached, hqueue => by
      rw [List.forall_mem_cons] at hqueue
      obtain ⟨⟨n, hfirst⟩, hqueue⟩ := hqueue
      rw [reachFrom]
      split_ifs
      · exact path_of_reachFrom rounds hreached hqueue
      · refine path_of_reachFrom rounds (List.forall_mem_cons.mpr ⟨⟨n, hfirst⟩, hreached⟩) ?_
        intro id hmem
        rcases List.mem_append.mp hmem with hmem | hmem
        · exact hqueue id hmem
        · obtain ⟨edge, he, hedge⟩ := List.mem_filterMap.mp hmem
          split_ifs at hedge with hsource
          exact ⟨n + 1, hfirst.step ⟨edge, he, hsource, hedge⟩⟩

/-- Every node of a verified graph is at the end of a path. -/
theorem Verified.path (h : Verified graph catalog) {index : Nat} {node : NodeKind}
    (hnode : graph.nodes[index]? = some node) : ∃ n, graph.Path n (nodeId index) := by
  obtain ⟨hindex, hget⟩ := List.getElem?_eq_some_iff.mp hnode
  have hsplit : graph.nodes = graph.nodes.take index ++ node :: graph.nodes.drop (index + 1) := by
    rw [← hget, List.cons_getElem_drop_succ, List.take_append_drop]
  have hreached := checkEach_ok h.reachability _ node _ hsplit
  rw [List.nil_append, require_ok, List.length_take, Nat.min_eq_left hindex.le] at hreached
  refine path_of_reachFrom _ (fun id hmem => by cases hmem) (fun id hmem => ?_) _ hreached
  obtain ⟨edge, he, hedge⟩ := List.mem_filterMap.mp hmem
  split_ifs at hedge with hsource
  exact ⟨1, .enter ⟨edge, he, hsource, hedge⟩⟩

/-- No path has more edges than the graph has nodes. -/
theorem Verified.path_le (h : Verified graph catalog) {n : Nat} (hpath : graph.Path n id)
    (hnodes : graph.nodes ≠ []) : n ≤ graph.nodes.length := by
  obtain ⟨rank, hrank⟩ := h.rank
  cases hpath with
  | enter _ => exact List.length_pos_of_ne_nil hnodes
  | step hsource hdepends =>
      have hshort := hsource.le_rank fun a b hab => (hrank a b hab).1
      have := hrank _ _ hdepends
      omega

/-- The level of a node that is no terminal is the length of the longest path to it. -/
theorem Verified.level (h : Verified graph catalog) {index : Nat} {node : NodeKind}
    (hnode : graph.nodes[index]? = some node) (hschedulable : schedulable node = true) :
    Longest graph.Entered graph.Depends (nodeId index) (graph.readinessLevels.getD index 0) := by
  have hstart : ∀ index, (List.replicate graph.nodes.length 0).getD index 0 = 0 := by
    intro index
    rw [List.getD_eq_getElem?_getD, List.getElem?_replicate]
    split_ifs <;> rfl
  have hsound : Sound graph graph.readinessLevels := by
    refine Sound.relaxRounds h _ ⟨List.length_replicate, fun index hne => ?_⟩
    exact absurd (hstart index) hne
  have hcomplete : Complete graph (0 + graph.nodes.length) graph.readinessLevels := by
    refine Complete.relaxRounds h _ (fun n hn _ _ _ _ hpath => ?_) List.length_replicate
    have := hpath.pos
    omega
  have hnodes : graph.nodes ≠ [] := by
    rintro hnil
    rw [hnil] at hnode
    cases hnode
  have hall : ∀ n, graph.Path n (nodeId index) → n ≤ graph.readinessLevels.getD index 0 :=
    fun n hpath => hcomplete n (by have := h.path_le hpath hnodes; omega) index node hnode
      hschedulable hpath
  obtain ⟨n, hpath⟩ := h.path hnode
  have hpos := hpath.pos
  exact ⟨hsound.2 index (by have := hall n hpath; omega), fun n hpath => hall n hpath⟩

theorem Verified.level_of_nodeAt (h : Verified graph catalog) {node : NodeKind}
    (hnode : graph.nodeAt id = some node) (hschedulable : schedulable node = true) :
    Longest graph.Entered graph.Depends id (graph.level id) := by
  obtain ⟨hid, hplace⟩ := nodes_of_nodeAt hnode
  have hlevel := h.level hplace hschedulable
  rwa [← hid] at hlevel

/-- Every action of the plan is an action of the graph, with its level. -/
theorem Verified.planAction (h : Verified graph catalog) {entry : PlanAction}
    (hentry : entry ∈ graph.planActions catalog) :
    entry.stage = graph.level entry.nodeId ∧
      ∃ action, graph.nodeAt entry.nodeId = some (.action action) := by
  obtain ⟨⟨node, index⟩, hmem, hnode⟩ := List.mem_filterMap.mp hentry
  have hplace := mem_zipIdx_nodes.mp hmem
  obtain ⟨hindex, hget⟩ := List.getElem?_eq_some_iff.mp hplace
  have hsmall : index < maxNodes := hindex.trans_le h.counts.1
  cases node with
  | action action =>
      obtain ⟨definition, -, rfl⟩ := Option.map_eq_some_iff.mp hnode
      have hid : (nodeId index).toNat - 1 = index := by rw [nodeId_toNat hsmall]; rfl
      refine ⟨?_, action, ?_⟩
      · rw [GraphBuilder.level, hid]
      · have hne : nodeId index ≠ 0 := fun hzero => by
          have := nodeId_toNat hsmall
          rw [hzero] at this
          cases this
        rw [nodeAt, Catalog.indexed, if_neg hne, hid, hplace]
  | _ => cases hnode

/--
**Readiness levels are the longest dependency paths.** They start at one, grow along every
edge between nodes that are no terminals, and actions of one stage do not depend on each
other.
-/
theorem readinessLevels_longest (h : graph.verify catalog = .ok ()) :
    (∀ index node, graph.nodes[index]? = some node → schedulable node = true →
      ∃ level, graph.readinessLevels[index]? = some level ∧ 1 ≤ level ∧
        Longest graph.Entered graph.Depends (nodeId index) level) ∧
    (∀ edge ∈ graph.edges, ∀ source target node, graph.sourceNode edge.source = some source →
      graph.targetNode edge.target = some target → graph.nodeAt target = some node →
        schedulable node = true → graph.level source < graph.level target) ∧
    (∀ first ∈ graph.planActions catalog, ∀ second ∈ graph.planActions catalog,
      first.stage = second.stage →
        ¬ Relation.TransGen graph.Depends first.nodeId second.nodeId) := by
  have hv := verify_ok h
  refine ⟨fun index node hnode hschedulable => ?_, ?_, ?_⟩
  · have hlongest := hv.level hnode hschedulable
    have hpos := hlongest.1.pos
    refine ⟨_, ?_, hpos, hlongest⟩
    rw [List.getD_eq_getElem?_getD] at hpos ⊢
    cases hget : graph.readinessLevels[index]? with
    | none =>
        rw [hget] at hpos
        cases hpos
    | some level => rfl
  · intro edge he source target node hsource htarget hnode hschedulable
    obtain ⟨sourceKind, hsourceKind, hsourceSchedulable⟩ := hv.sourceNode he hsource
    exact (hv.level_of_nodeAt hsourceKind hsourceSchedulable).lt
      (hv.level_of_nodeAt hnode hschedulable) (.single ⟨edge, he, hsource, htarget⟩)
  · intro first hfirst second hsecond hstage hdepends
    obtain ⟨hfirstStage, action, haction⟩ := hv.planAction hfirst
    obtain ⟨hsecondStage, other, hother⟩ := hv.planAction hsecond
    have hlt := (hv.level_of_nodeAt haction rfl).lt (hv.level_of_nodeAt hother rfl) hdepends
    omega

end Levels

/-! ## An each region between two actions -/

/-- Lists of flags, and an action on flags between two on lists. -/
def listCatalog : Catalog where
  apps := [{ id := 1, name := "app" }]
  types := [{ id := 1, app := 1, name := "Flag", representation := .boolean },
    { id := 2, app := 1, name := "Flags", representation := .list .boolean 3
      listElement := some 1 }]
  actions := [{ id := 1, app := 1, name := "make", input := 2, success := 2, error := 1 },
    { id := 2, app := 1, name := "flip", input := 1, success := 1, error := 1 },
    { id := 3, app := 1, name := "sum", input := 2, success := 2, error := 1 }]

/-- The list is made, its flags are flipped one by one, and what comes back is summed up. -/
def eachBetween : GraphBuilder where
  name := "between"
  input := 2
  success := 2
  errors := [1]
  nodes := [.action 1, .action 2, .action 3, .terminal .success, .terminal .knownFailure,
    .terminal .notSent, .terminal .unknown]
  edges := [{ source := .workflowInput, target := .actionInput 1 },
      { source := .actionSuccess 1, target := .eachInput 1 },
      { source := .eachItem 1, target := .actionInput 2 },
      { source := .actionSuccess 2, target := .eachCollect 1 },
      { source := .eachOutput 1, target := .actionInput 3 },
      { source := .actionSuccess 3, target := .terminal 4 }] ++
    [1, 2, 3].flatMap fun node => [{ source := .actionError node, target := .terminal 5 },
      { source := .actionNotSent node, target := .terminal 6 },
      { source := .actionUnknown node, target := .terminal 7 }]
  eachRegions := [⟨2, 2, 2, 1, 1, 2, 3⟩]

set_option maxRecDepth 20000 in
theorem readinessLevels_longest_eachBetween : ∃ level,
    eachBetween.readinessLevels[2]? = some level ∧ 1 ≤ level ∧
      Longest eachBetween.Entered eachBetween.Depends (nodeId 2) level := by
  have hok : eachBetween.verify listCatalog = .ok () := ok_of_toOption (by decide +kernel)
  exact (readinessLevels_longest hok).1 2 (.action 3) rfl rfl

/-- The three actions are one behind the other. -/
example : eachBetween.readinessLevels = [1, 2, 3, 0, 0, 0, 0] := by decide +kernel

end Hermas.GraphBuilder
