import Hermas.Compiler.EncodeGraph
import Hermas.Compiler.Readiness
import Hermas.Saga.Steps

/-!
# The ordinals of a saga

`image_view` numbers the steps of a saga by the places of their nodes in the builder, and
a recovery wants the successes of a run in the order of these numbers. `verify` asks for a
pipeline of actions but not for its order in the builder, and it lets an error lead on to
another action. So the numbers are those of the runs exactly if the actions stand first, in
the order of the pipeline, and only a success leads from one to the next (`Pipelined`).
-/

namespace Hermas

open Compiler (EdgeSource EdgeTarget TerminalKind)
open Image (maxNodes)

namespace Execution

/-! ## The runs of the interpreter -/

/-- The runs of the interpreter, with the deliveries that have come to an outcome. -/
inductive Delivers (image : Image) : Execution → List (UInt16 × Outcome) → Prop
  | start {executionId : UInt64} {capacity : Nat} {inputType : UInt16} {input : Bytes}
      {execution : Execution} : start image executionId capacity inputType input = .ok execution →
        Delivers image execution []
  | prepared {execution execution' : Execution} {deliveries : List (UInt16 × Outcome)}
      {frame : Frame} : Delivers image execution deliveries →
        prepare image execution = .ok (frame, execution') → Delivers image execution' deliveries
  | sent {execution execution' : Execution} {deliveries : List (UInt16 × Outcome)} :
      Delivers image execution deliveries → markSent execution = .ok execution' →
        Delivers image execution' deliveries
  | notSent {execution execution' : Execution} {deliveries : List (UInt16 × Outcome)} :
      Delivers image execution deliveries → markNotSent image execution = (.ok, execution') →
        Delivers image execution' (deliveries ++ [(execution.currentNode, .notSent)])
  | unknown {execution execution' : Execution} {deliveries : List (UInt16 × Outcome)} :
      Delivers image execution deliveries → markUnknown image execution = (.ok, execution') →
        Delivers image execution' (deliveries ++ [(execution.currentNode, .unknown)])
  | result {execution execution' : Execution} {deliveries : List (UInt16 × Outcome)}
      {result : Frame} : Delivers image execution deliveries →
        acceptResult image execution result = (.ok, execution') →
          Delivers image execution' (deliveries ++ [(execution.currentNode, result.outcome)])

variable {image : Image} {execution execution' : Execution}

/-- A start enters the edge of the workflow input. -/
theorem start_enters {executionId : UInt64} {capacity : Nat} {inputType : UInt16} {input : Bytes}
    (h : start image executionId capacity inputType input = .ok execution) :
    ∃ root fresh, image.findEdge 0 0 = some root ∧
      enterEdge image fresh.value root .none fresh = (.ok, execution) := by
  unfold start at h
  split at h
  · cases h
  split at h
  · cases h
  split at h
  · cases h
  rename_i fresh _
  split at h
  · cases h
  rename_i root hroot
  split at h
  · cases h
  rename_i htarget
  refine ⟨root, fresh, hroot, ?_⟩
  rw [← Except.ok.inj h]
  have hkind : root.targetKind = 1 := not_not.mp htarget
  unfold enterEdge
  rw [if_pos hkind]

/-- A delivery that ends without a result enters the edge of its outcome. -/
theorem finishDeliveryOutcome_enters {required : ExecutionState} {kind : UInt8} {outcome : Outcome}
    (h : finishDeliveryOutcome image execution required kind outcome = (.ok, execution')) :
    execution.state = required ∧ ∃ edge, image.findEdge kind execution.currentNode = some edge ∧
      enterEdge image [] edge outcome execution = (.ok, execution') := by
  unfold finishDeliveryOutcome at h
  split at h
  · cases h
  rename_i hstate
  split at h
  · cases h
  · rename_i edge hedge
    exact ⟨not_not.mp hstate, edge, hedge, h⟩

/-- A result that is accepted enters the edge of its outcome. -/
theorem acceptResult_enters {result : Frame}
    (h : acceptResult image execution result = (.ok, execution')) :
    execution.state = .sent ∧ (result.outcome = .success ∨ result.outcome = .appError) ∧
      ∃ edge before, image.findEdge (resultKind result.outcome) execution.currentNode = some edge ∧
        enterEdge image before.value edge result.outcome before = (.ok, execution') := by
  unfold acceptResult at h
  split at h
  · cases h
  rename_i hstate
  split at h
  · cases h
  rename_i hanswers
  split at h
  · cases h
  rename_i edge hedge
  split at h
  · cases h
  split at h
  · cases h
  split at h
  · cases h
  split at h
  · cases h
  split at h
  · rename_i e hcopy
    unfold copyValue at hcopy
    split at hcopy
    · cases hcopy
      cases h
    · cases hcopy
  · rename_i copied hcopy
    have houtcome : result.outcome = .success ∨ result.outcome = .appError := by
      have hall := not_not.mp hanswers
      unfold answers at hall
      simp only [Bool.and_eq_true, Bool.or_eq_true, beq_iff_eq] at hall
      exact hall.2
    exact ⟨not_not.mp hstate, houtcome, edge, _, hedge, h⟩

end Execution

namespace GraphBuilder

variable {graph : GraphBuilder} {catalog : Catalog} {node : NodeKind} {id : UInt16} {edge : Edge}

/-! ## The runs of a graph without branches -/

/-- The port through which an action is left when its delivery has come to an outcome. -/
def outcomePort (node : UInt16) : Outcome → Option EdgeSource
  | .success => some (.actionSuccess node)
  | .appError => some (.actionError node)
  | .notSent => some (.actionNotSent node)
  | .unknown => some (.actionUnknown node)
  | .none | .protocolError => none

/-- The deliveries of a run with their outcomes, and the port that the last of them leaves. -/
inductive Delivers (graph : GraphBuilder) : EdgeSource → List (UInt16 × Outcome) → Prop
  | start : Delivers graph .workflowInput []
  | deliver {port : EdgeSource} {deliveries : List (UInt16 × Outcome)} {edge : Edge}
      {node : UInt16} {outcome : Outcome} : Delivers graph edge.source deliveries →
      edge ∈ graph.edges → edge.target = .actionInput node → outcomePort node outcome = some port →
        Delivers graph port (deliveries ++ [(node, outcome)])

/-- The nodes whose deliveries have succeeded, in the order of the run. -/
def successes (deliveries : List (UInt16 × Outcome)) : List UInt16 :=
  (deliveries.filter (·.2 = .success)).map (·.1)

theorem successes_success {deliveries : List (UInt16 × Outcome)} {node : UInt16} :
    successes (deliveries ++ [(node, .success)]) = successes deliveries ++ [node] := by
  rw [successes, List.filter_append, List.map_append]
  rfl

theorem successes_other {deliveries : List (UInt16 × Outcome)} {node : UInt16} {outcome : Outcome}
    (h : outcome ≠ .success) : successes (deliveries ++ [(node, outcome)]) = successes deliveries := by
  rw [successes, List.filter_append, List.filter_cons_of_neg (by simpa using h), List.filter_nil,
    List.append_nil, ← successes]

/-- **The ordinals of the steps are dense, and every run succeeds in their order**: every run of
the graph, and every run of the interpreter over its image by the ordinals of the image. -/
structure Ordered (graph : GraphBuilder) (catalog : Catalog) : Prop where
  dense : (graph.sagaSteps catalog).map (·.ordinal.toNat) =
    List.range' 1 (graph.sagaSteps catalog).length
  succeeds : ∀ port deliveries, graph.Delivers port deliveries → ∀ (k : Nat) (node : UInt16),
    (successes deliveries)[k]? = some node →
      ∃ step ∈ graph.sagaSteps catalog, step.forward = node ∧ step.ordinal.toNat = k + 1
  recovers : ∀ image, ImageOf graph catalog image → ∀ execution deliveries,
    Execution.Delivers image execution deliveries → ∀ (k : Nat) (node : UInt16),
      (successes deliveries)[k]? = some node →
        ∃ region, (Image.sagaRegions image.tables.regions)[k]? = some region ∧
          region.readU16 2 = node ∧ (region.readU16 12).toNat = k + 1

/-- The actions stand first, in the order in which one leads to the next. -/
structure Pipelined (graph : GraphBuilder) (catalog : Catalog) : Prop where
  /-- The catalog knows the compensations. -/
  compensated : ∀ id action compensation, .action id ∈ graph.nodes →
    catalog.action id = some action → action.compensation = .action compensation →
      (catalog.action compensation).isSome = true
  first : ∀ index id, graph.nodes[index + 1]? = some (.action id) →
    ∃ id, graph.nodes[index]? = some (.action id)
  next : ∀ edge ∈ graph.edges, ∀ node, edge.target = .actionInput node →
    (edge.source = .workflowInput ∧ node.toNat = 1) ∨
      ∃ previous, edge.source = .actionSuccess previous ∧ node.toNat = previous.toNat + 1

/-! ## What a saga is made of -/

section Saga

variable (h : Verified graph catalog) (hsaga : graph.saga = true)
include h hsaga

/-- A saga has actions and terminals, and no regions. -/
theorem Verified.sagaNode (hnode : node ∈ graph.nodes) :
    (∃ id, node = .action id) ∨ ∃ kind, node = .terminal kind := by
  have hcheck := h.saga
  rw [verifySaga, if_pos hsaga] at hcheck
  simp only [bind_ok, require_ok] at hcheck
  obtain ⟨⟨⟩, -, ⟨⟩, ⟨hbranching, -⟩, -⟩ := hcheck
  have hplain : isBranching node = false := by
    by_contra hne
    exact hbranching (List.any_eq_true.mpr ⟨node, hnode, Bool.eq_true_of_not_eq_false hne⟩)
  cases node with
  | action id => exact .inl ⟨id, rfl⟩
  | terminal kind => exact .inr ⟨kind, rfl⟩
  | _ => cases hplain

theorem Verified.sagaRegions : graph.eachRegions = [] := by
  have hcheck := h.saga
  rw [verifySaga, if_pos hsaga] at hcheck
  simp only [bind_ok, require_ok] at hcheck
  obtain ⟨⟨⟩, -, ⟨⟩, ⟨-, hregions⟩, -⟩ := hcheck
  exact List.isEmpty_iff.mp hregions

/-- Every action of a saga declares its compensation. -/
theorem Verified.sagaAction (hnode : .action id ∈ graph.nodes) :
    ∃ action compensation, catalog.action id = some action ∧
      action.compensation = .action compensation := by
  have hcheck := h.saga
  rw [verifySaga, if_pos hsaga] at hcheck
  simp only [bind_ok, require_ok] at hcheck
  obtain ⟨⟨⟩, -, ⟨⟩, -, hactions⟩ := hcheck
  obtain ⟨before, haction⟩ := checkEach_mem hactions hnode
  rw [verifyCompensation] at haction
  dsimp only at haction
  split at haction
  · cases haction
  rename_i action hdefinition
  rw [require_ok] at haction
  cases hcompensation : action.compensation with
  | none => exact absurd hcompensation haction
  | action compensation => exact ⟨action, compensation, hdefinition, hcompensation⟩

/-- An edge of a saga goes to an action or to an end. -/
theorem Verified.sagaTarget (he : edge ∈ graph.edges) :
    (∃ id action, edge.target = .actionInput id ∧ graph.nodeAt id = some (.action action)) ∨
      ∃ id kind, edge.target = .terminal id ∧ graph.nodeAt id = some (.terminal kind) := by
  obtain ⟨target, hfor, hroute⟩ := h.edge he
  have hregion : ∀ region, graph.eachRegion region = none := fun region => by
    rw [eachRegion, h.sagaRegions hsaga, Catalog.indexed]
    split_ifs <;> rfl
  generalize edge.source = source at hroute
  cases hport : edge.target with
  | eachInput region | eachCollect region =>
      rw [hport, nodeForTarget, hregion] at hfor
      cases hfor
  | actionInput id | dispatchInput id | forkInput id | joinInput id branch | terminal id =>
      rw [hport] at hfor hroute
      rcases h.sagaNode hsaga (mem_of_nodeAt hfor) with ⟨action, rfl⟩ | ⟨kind, rfl⟩
      · first
          | exact .inl ⟨id, action, rfl, hfor⟩
          | cases source <;> cases hroute
      · first
          | exact .inr ⟨id, kind, rfl, hfor⟩
          | cases source <;> cases hroute

/-- An edge of a saga comes from the input or from an action, by an outcome. -/
theorem Verified.sagaSource (he : edge ∈ graph.edges) : edge.source = .workflowInput ∨
    ∃ id action outcome, outcomePort id outcome = some edge.source ∧
      graph.sourceNode edge.source = some id ∧ graph.nodeAt id = some (.action action) := by
  have hregion : ∀ region, graph.eachRegion region = none := fun region => by
    rw [eachRegion, h.sagaRegions hsaga, Catalog.indexed]
    split_ifs <;> rfl
  have haction : ∀ {id : UInt16}, graph.sourceNode edge.source = some id →
      ∃ action, graph.nodeAt id = some (.action action) := by
    intro id hid
    obtain ⟨node, hnode, hschedulable⟩ := h.sourceNode he hid
    rcases h.sagaNode hsaga (mem_of_nodeAt hnode) with ⟨action, rfl⟩ | ⟨kind, rfl⟩
    · exact ⟨action, hnode⟩
    · cases hschedulable
  obtain ⟨type, htype⟩ := h.source he
  cases hport : edge.source with
  | workflowInput => exact .inl rfl
  | actionSuccess id =>
      obtain ⟨action, hnode⟩ := haction (by rw [hport]; rfl)
      exact .inr ⟨id, action, .success, rfl, rfl, hnode⟩
  | actionError id =>
      obtain ⟨action, hnode⟩ := haction (by rw [hport]; rfl)
      exact .inr ⟨id, action, .appError, rfl, rfl, hnode⟩
  | actionNotSent id =>
      obtain ⟨action, hnode⟩ := haction (by rw [hport]; rfl)
      exact .inr ⟨id, action, .notSent, rfl, rfl, hnode⟩
  | actionUnknown id =>
      obtain ⟨action, hnode⟩ := haction (by rw [hport]; rfl)
      exact .inr ⟨id, action, .unknown, rfl, rfl, hnode⟩
  | dispatchCase id tag =>
      obtain ⟨action, hnode⟩ := haction (by rw [hport]; rfl)
      rw [hport, sourceValueType, dispatchCaseType, hnode] at htype
      cases htype
  | forkBranch id tag | joinField id tag =>
      obtain ⟨action, hnode⟩ := haction (by rw [hport]; rfl)
      rw [hport, sourceValueType, hnode] at htype
      cases htype
  | eachItem region | eachOutput region =>
      rw [hport, sourceValueType, hregion] at htype
      cases htype

/-- Every action of a saga is in front of some run. -/
theorem Verified.delivers {n : Nat} (hpath : graph.Path n id) {action : UInt16}
    (hnode : graph.nodeAt id = some (.action action)) :
    ∃ edge ∈ graph.edges, edge.target = .actionInput id ∧
      ∃ deliveries, graph.Delivers edge.source deliveries := by
  have htarget : ∀ {edge : Edge} {id action : UInt16}, edge ∈ graph.edges →
      graph.targetNode edge.target = some id → graph.nodeAt id = some (.action action) →
        edge.target = .actionInput id := by
    intro edge id action he hid hnode
    rcases h.sagaTarget hsaga he with ⟨id', _, hport, -⟩ | ⟨id', kind, hport, hkind⟩
    · rw [hport] at hid
      rw [hport, Option.some.inj hid]
    · rw [hport] at hid
      rw [Option.some.inj hid, hnode] at hkind
      cases hkind
  induction hpath generalizing action with
  | enter hentered =>
      obtain ⟨edge, he, hsource, hid⟩ := hentered
      exact ⟨edge, he, htarget he hid hnode, [], hsource ▸ .start⟩
  | step _ hdepends ih =>
      obtain ⟨edge, he, hsource, hid⟩ := hdepends
      rcases h.sagaSource hsaga he with hinput | ⟨previous, _, outcome, hport, hprevious, hat⟩
      · rw [hinput] at hsource
        cases hsource
      · obtain rfl := Option.some.inj (hprevious.symm.trans hsource)
        obtain ⟨before, hbefore, hinto, deliveries, hrun⟩ := ih hat
        exact ⟨edge, he, htarget he hid hnode, _, hrun.deliver hbefore hinto hport⟩

end Saga

/-! ## The steps and their places -/

section Steps

variable {step : SagaStep}

/-- The step of a node has its number. -/
theorem sagaStep_eq {index : Nat} (h : sagaStep catalog (node, index) = some step) :
    (∃ id, node = .action id) ∧ step.forward = nodeId index ∧ step.ordinal = nodeId index := by
  cases node with
  | action id =>
      simp only [sagaStep, Option.bind_eq_bind, Option.bind_eq_some_iff] at h
      obtain ⟨action, -, h⟩ := h
      split at h
      · cases h
      · obtain ⟨compensated, -, h⟩ := Option.bind_eq_some_iff.mp h
        obtain rfl := Option.some.inj h
        exact ⟨⟨id, rfl⟩, rfl, rfl⟩
  | _ => cases h

theorem mem_sagaSteps (hsaga : graph.saga = true) : step ∈ graph.sagaSteps catalog ↔
    ∃ index node, graph.nodes[index]? = some node ∧ sagaStep catalog (node, index) = some step := by
  rw [sagaSteps, if_pos hsaga, List.mem_filterMap]
  constructor
  · rintro ⟨⟨node, index⟩, hmem, hstep⟩
    exact ⟨index, node, mem_zipIdx_nodes.mp hmem, hstep⟩
  · rintro ⟨index, node, hnode, hstep⟩
    exact ⟨(node, index), mem_zipIdx_nodes.mpr hnode, hstep⟩

/-- A step is the one of its node, and its ordinal is the number of the node. -/
theorem Verified.sagaStep (h : Verified graph catalog) (hsaga : graph.saga = true)
    (hstep : step ∈ graph.sagaSteps catalog) : ∃ index id,
      graph.nodes[index]? = some (.action id) ∧
        GraphBuilder.sagaStep catalog (.action id, index) = some step ∧
        step.forward = nodeId index ∧ step.forward.toNat = index + 1 ∧
        step.ordinal.toNat = index + 1 := by
  obtain ⟨index, node, hnode, hsome⟩ := (mem_sagaSteps hsaga).mp hstep
  obtain ⟨⟨id, rfl⟩, hforward, hordinal⟩ := sagaStep_eq hsome
  have hsmall : index < maxNodes :=
    (List.getElem?_eq_some_iff.mp hnode).1.trans_le h.counts.1
  exact ⟨index, id, hnode, hsome, hforward, by rw [hforward, nodeId_toNat hsmall],
    by rw [hordinal, nodeId_toNat hsmall]⟩

/-- An action with a known compensation has a step. -/
theorem exists_sagaStep {action : Catalog.ActionDef} {compensation : UInt16} {index : Nat}
    (haction : catalog.action id = some action)
    (hcompensation : action.compensation = .action compensation)
    (hknown : (catalog.action compensation).isSome = true) :
    ∃ step, sagaStep catalog (NodeKind.action id, index) = some step := by
  obtain ⟨compensated, hcompensated⟩ := Option.isSome_iff_exists.mp hknown
  simp [sagaStep, haction, hcompensation, hcompensated]

/-- And without one it has none. -/
theorem known_of_sagaStep {action : Catalog.ActionDef} {compensation : UInt16} {index : Nat}
    (haction : catalog.action id = some action)
    (hcompensation : action.compensation = .action compensation)
    (h : sagaStep catalog (.action id, index) = some step) :
    (catalog.action compensation).isSome = true := by
  simp only [sagaStep, haction, hcompensation, Option.bind_eq_bind, Option.bind_some] at h
  obtain ⟨compensated, hcompensated, -⟩ := Option.bind_eq_some_iff.mp h
  exact Option.isSome_iff_exists.mpr ⟨compensated, hcompensated⟩

/-- Steps of nodes that stand first are numbered without a gap. -/
theorem steps_dense : ∀ (nodes : List NodeKind) (offset : Nat), offset + nodes.length ≤ maxNodes →
    (∀ index id, nodes[index + 1]? = some (.action id) → ∃ id, nodes[index]? = some (.action id)) →
      (∀ id index, NodeKind.action id ∈ nodes →
        ∃ step, sagaStep catalog (NodeKind.action id, index) = some step) →
        let steps := (nodes.zipIdx offset).filterMap (sagaStep catalog)
        steps.map (·.ordinal.toNat) = List.range' (offset + 1) steps.length
  | [], _, _, _, _ => rfl
  | node :: nodes, offset, hsize, hfirst, hsome => by
      rw [List.length_cons] at hsize
      have hrestFirst : ∀ index id, nodes[index + 1]? = some (.action id) →
          ∃ id, nodes[index]? = some (.action id) := fun index id hnode => by
        have hprior := hfirst (index + 1) id (by rw [List.getElem?_cons_succ]; exact hnode)
        rwa [List.getElem?_cons_succ] at hprior
      have hrest := steps_dense nodes (offset + 1) (by omega) hrestFirst
        fun id index hmem => hsome id index (List.mem_cons_of_mem _ hmem)
      dsimp only at hrest ⊢
      rw [List.zipIdx_cons, List.filterMap_cons]
      cases hhead : sagaStep catalog (node, offset) with
      | some step =>
          have hordinal : step.ordinal.toNat = offset + 1 := by
            rw [(sagaStep_eq hhead).2.2, nodeId_toNat (by omega)]
          dsimp only
          rw [List.map_cons, hrest, hordinal, List.length_cons, List.range'_succ]
      | none =>
          -- behind the first node that is no action there is none
          have hnone : ∀ (index : Nat) (id : UInt16), nodes[index]? ≠ some (.action id) := by
            intro index
            induction index with
            | zero =>
                intro id hnode
                obtain ⟨id', hnode'⟩ := hfirst 0 id hnode
                obtain rfl := Option.some.inj hnode'
                obtain ⟨step, hstep⟩ := hsome id' offset List.mem_cons_self
                cases hhead.symm.trans hstep
            | succ index ih =>
                intro id hnode
                obtain ⟨id', hnode'⟩ := hrestFirst index id hnode
                exact ih id' hnode'
          have hnil : (nodes.zipIdx (offset + 1)).filterMap (sagaStep catalog) = [] := by
            rw [List.filterMap_eq_nil_iff]
            rintro ⟨node, index⟩ hmem
            cases hstep : sagaStep catalog (node, index) with
            | none => rfl
            | some step =>
                obtain ⟨⟨id, rfl⟩, -, -⟩ := sagaStep_eq hstep
                obtain ⟨-, hplace⟩ := List.mem_zipIdx_iff_le_and_getElem?_sub.mp hmem
                exact absurd hplace (hnone _ _)
          rw [hnil]
          rfl

end Steps

/-! ## The order of the steps is the order of the runs -/

/-- **In a pipeline every run succeeds in the order of the nodes.** -/
theorem Pipelined.delivers (hp : Pipelined graph catalog) {port : EdgeSource}
    {deliveries : List (UInt16 × Outcome)} (h : graph.Delivers port deliveries) :
    (∀ (k : Nat) (node : UInt16), (successes deliveries)[k]? = some node → node.toNat = k + 1) ∧
      (port = .workflowInput → successes deliveries = []) ∧
      ∀ node, port = .actionSuccess node → node.toNat = (successes deliveries).length := by
  induction h with
  | start =>
      refine ⟨fun k node hnode => ?_, fun _ => rfl, fun node hport => ?_⟩
      · cases hnode
      · cases hport
  | @deliver port deliveries edge node outcome _ he hinto hport ih =>
      obtain ⟨hnumbered, hinput, hsuccess⟩ := ih
      -- the node is the one behind those that have succeeded
      have hnode : node.toNat = (successes deliveries).length + 1 := by
        rcases hp.next edge he node hinto with ⟨hsource, hone⟩ | ⟨previous, hsource, hnext⟩
        · rw [hinput hsource, hone]
          rfl
        · rw [hnext, hsuccess previous hsource]
      by_cases houtcome : outcome = .success
      · subst houtcome
        obtain rfl := Option.some.inj hport
        rw [successes_success]
        refine ⟨fun k other hother => ?_, fun hbad => ?_, fun other hother => ?_⟩
        · rcases Nat.lt_or_ge k (successes deliveries).length with hlt | hge
          · rw [List.getElem?_append_left hlt] at hother
            exact hnumbered k other hother
          · rw [List.getElem?_append_right hge, List.getElem?_singleton] at hother
            split_ifs at hother
            rw [← Option.some.inj hother, hnode]
            omega
        · cases hbad
        · rw [List.length_append, ← EdgeSource.actionSuccess.inj hother]
          exact hnode
      · rw [successes_other houtcome]
        refine ⟨hnumbered, fun hbad => ?_, fun other hother => ?_⟩
        · rw [hbad] at hport
          cases outcome <;> cases hport
        · rw [hother] at hport
          cases outcome <;> first | exact absurd rfl houtcome | cases hport

/-- What is delivered are actions. -/
theorem Verified.deliversActions (h : Verified graph catalog) (hsaga : graph.saga = true)
    {port : EdgeSource} {deliveries : List (UInt16 × Outcome)} (hrun : graph.Delivers port deliveries) :
    ∀ node ∈ successes deliveries, ∃ action, graph.nodeAt node = some (.action action) := by
  induction hrun with
  | start => exact fun node hmem => by cases hmem
  | @deliver port deliveries edge node outcome _ he hinto hport ih =>
      by_cases houtcome : outcome = .success
      · subst houtcome
        rw [successes_success]
        intro other hother
        rcases List.mem_append.mp hother with hother | hother
        · exact ih other hother
        · obtain rfl := List.mem_singleton.mp hother
          rcases h.sagaTarget hsaga he with ⟨id, action, hid, hnode⟩ | ⟨id, kind, hid, -⟩
          · rw [hinto] at hid
            exact ⟨action, EdgeTarget.actionInput.inj hid ▸ hnode⟩
          · cases hinto.symm.trans hid
      · rw [successes_other houtcome]
        exact ih

/-- **What is in order is a pipeline.** -/
theorem Ordered.pipelined (h : Verified graph catalog) (hsaga : graph.saga = true)
    (ho : Ordered graph catalog) : Pipelined graph catalog := by
  -- a node that succeeds behind so many others has the number of its turn
  have hturn : ∀ {edge : Edge} {deliveries : List (UInt16 × Outcome)} {node : UInt16},
      graph.Delivers edge.source deliveries → edge ∈ graph.edges →
        edge.target = .actionInput node →
          ∃ step ∈ graph.sagaSteps catalog, step.forward = node ∧
            node.toNat = (successes deliveries).length + 1 := by
    intro edge deliveries node hrun he hinto
    have hport : outcomePort node .success = some (.actionSuccess node) := rfl
    have hsucceeds := ho.succeeds _ _ (hrun.deliver he hinto hport)
      (successes deliveries).length node (by
        rw [successes_success, List.getElem?_append_right (Nat.le_refl _), Nat.sub_self]
        rfl)
    obtain ⟨step, hstep, hforward, hordinal⟩ := hsucceeds
    obtain ⟨index, id, -, -, -, hforwardNat, hordinalNat⟩ := h.sagaStep hsaga hstep
    exact ⟨step, hstep, hforward, by rw [← hforward, hforwardNat, ← hordinal, hordinalNat]⟩
  have hstep : ∀ {index : Nat} {id : UInt16}, graph.nodes[index]? = some (.action id) →
      ∃ step ∈ graph.sagaSteps catalog, step.forward = nodeId index ∧
        GraphBuilder.sagaStep catalog (.action id, index) = some step := by
    intro index id hnode
    have hsmall : index < maxNodes :=
      (List.getElem?_eq_some_iff.mp hnode).1.trans_le h.counts.1
    obtain ⟨n, hpath⟩ := h.path hnode
    have hne : nodeId index ≠ 0 := fun hzero => by
      have hnat := nodeId_toNat hsmall
      rw [hzero] at hnat
      cases hnat
    have hat : graph.nodeAt (nodeId index) = some (.action id) := by
      rw [nodeAt, Catalog.indexed, if_neg hne, nodeId_toNat hsmall]
      exact hnode
    obtain ⟨edge, he, hinto, deliveries, hrun⟩ := h.delivers hsaga hpath hat
    obtain ⟨step, hmem, hforward, -⟩ := hturn hrun he hinto
    obtain ⟨index', id', hnode', hsome, hforward', -, -⟩ := h.sagaStep hsaga hmem
    have hsame : index' = index := by
      have hnat := congrArg UInt16.toNat (hforward'.symm.trans hforward)
      rw [nodeId_toNat hsmall, nodeId_toNat
        ((List.getElem?_eq_some_iff.mp hnode').1.trans_le h.counts.1)] at hnat
      omega
    subst hsame
    rw [hnode] at hnode'
    obtain rfl := NodeKind.action.inj (Option.some.inj hnode')
    exact ⟨step, hmem, hforward, hsome⟩
  refine ⟨fun id action compensation hnode haction hcompensation => ?_, fun index id hnode => ?_,
    fun edge he node hinto => ?_⟩
  · obtain ⟨index, hplace⟩ := List.mem_iff_getElem?.mp hnode
    obtain ⟨step, -, -, hsome⟩ := hstep hplace
    exact known_of_sagaStep haction hcompensation hsome
  · -- the ordinal in front of the action's is there too
    obtain ⟨step, hmem, hforward, -⟩ := hstep hnode
    obtain ⟨index', _, hnode', -, hforward', -, hordinal⟩ := h.sagaStep hsaga hmem
    have hplaced : step.ordinal.toNat = index + 2 := by
      have hsmall := (List.getElem?_eq_some_iff.mp hnode).1.trans_le h.counts.1
      have hsmall' := (List.getElem?_eq_some_iff.mp hnode').1.trans_le h.counts.1
      have hnat := congrArg UInt16.toNat (hforward'.symm.trans hforward)
      rw [nodeId_toNat hsmall, nodeId_toNat hsmall'] at hnat
      omega
    have hin := List.mem_map_of_mem (f := fun step => step.ordinal.toNat) hmem
    rw [ho.dense, List.mem_range'_1, hplaced] at hin
    have hprior : index + 1 ∈ (graph.sagaSteps catalog).map (·.ordinal.toNat) := by
      rw [ho.dense, List.mem_range'_1]
      omega
    obtain ⟨prior, hpriorMem, hpriorOrdinal⟩ := List.mem_map.mp hprior
    obtain ⟨place, id', hplace, -, -, -, hplaceOrdinal⟩ := h.sagaStep hsaga hpriorMem
    rw [hpriorOrdinal] at hplaceOrdinal
    obtain rfl : index = place := by omega
    exact ⟨id', hplace⟩
  · rcases h.sagaSource hsaga he with hinput | ⟨previous, action, outcome, hport, hsource, hat⟩
    · refine .inl ⟨hinput, ?_⟩
      have hstart : graph.Delivers edge.source [] := by
        rw [hinput]
        exact .start
      obtain ⟨-, -, -, hnumber⟩ := hturn hstart he hinto
      exact hnumber
    · -- a run stands in front of the action that the edge leaves
      obtain ⟨hid, hplace⟩ := nodes_of_nodeAt hat
      obtain ⟨n, hpath⟩ := h.path hplace
      rw [← hid] at hpath
      obtain ⟨before, hbefore, hbeforeInto, deliveries, hrun⟩ := h.delivers hsaga hpath hat
      obtain ⟨-, -, -, hprevious⟩ := hturn hrun hbefore hbeforeInto
      obtain ⟨-, -, -, hnumber⟩ := hturn (hrun.deliver hbefore hbeforeInto hport) he hinto
      by_cases houtcome : outcome = .success
      · subst houtcome
        rw [successes_success, List.length_append] at hnumber
        refine .inr ⟨previous, (Option.some.inj hport).symm, ?_⟩
        rw [hnumber, hprevious]
        rfl
      · -- an error that leads on would lead back to the same action
        rw [successes_other houtcome, ← hprevious, UInt16.toNat_inj] at hnumber
        obtain ⟨rank, hrank⟩ := h.rank
        have hloop := (hrank previous node ⟨edge, he, hsource, by rw [hinto]; rfl⟩).1
        rw [hnumber] at hloop
        exact absurd hloop (Nat.lt_irrefl _)

/-! ## The runs of the interpreter are runs of the graph -/

section Stands

variable {image : Image} {deliveries : List (UInt16 × Outcome)}

/-- Where an execution of the image stands in the graph. -/
def Stands (graph : GraphBuilder) (execution : Execution) (deliveries : List (UInt16 × Outcome)) :
    Prop :=
  ∃ edge ∈ graph.edges, graph.Delivers edge.source deliveries ∧
    (execution.state = .complete ∨ edge.target = .actionInput execution.currentNode)

/-- The edge that the interpreter finds is an edge of the graph. -/
theorem ImageOf.findEdge (h : ImageOf graph catalog image) {kind : UInt8} {node : UInt16}
    {record : Image.Edge} (hfind : image.findEdge kind node = some record) :
    ∃ edge ∈ graph.edges, Compiler.edgeSource record = some edge.source ∧
      Compiler.edgeTarget record = some edge.target ∧ record.sourceKind = kind ∧
        record.sourceNode = node := by
  obtain ⟨hmem, hkind, hnode⟩ := Image.mem_of_findEdge hfind
  rw [h.tables.2.1, imageEdges, List.map_map] at hmem
  obtain ⟨edge, he, rfl⟩ := List.mem_map.mp hmem
  obtain ⟨node, -, hroute⟩ := (verify_ok h.verified).edge he
  exact ⟨edge, he, edgeSource_edgeRecord hroute, edgeTarget_edgeRecord _, hkind, hnode⟩

/-- An edge that is entered leads in front of an action or to the end. -/
theorem ImageOf.enters (h : ImageOf graph catalog image) (hsaga : graph.saga = true)
    {edge : Edge} {record : Image.Edge} (he : edge ∈ graph.edges)
    (htarget : Compiler.edgeTarget record = some edge.target)
    (hrun : graph.Delivers edge.source deliveries) {value : Bytes} {outcome : Outcome}
    {execution execution' : Execution}
    (henter : Execution.enterEdge image value record outcome execution = (.ok, execution')) :
    graph.Stands execution' deliveries := by
  refine ⟨edge, he, hrun, ?_⟩
  unfold Compiler.edgeTarget at htarget
  unfold Execution.enterEdge at henter
  rcases (verify_ok h.verified).sagaTarget hsaga he with ⟨id, _, hport, -⟩ | ⟨id, _, hport, -⟩
  · rw [hport] at htarget ⊢
    split at htarget <;> cases htarget
    rename_i hkind
    rw [if_pos hkind] at henter
    obtain rfl := (Prod.mk.inj henter).2
    exact .inr rfl
  · rw [hport] at htarget
    split at htarget <;> cases htarget
    rename_i hkind
    rw [if_neg (by rw [hkind]; decide), if_neg (by rw [hkind]; decide)] at henter
    obtain rfl := (Prod.mk.inj henter).2
    exact .inl rfl

/-- An outcome leads on from where the execution stands. -/
theorem ImageOf.leaves (h : ImageOf graph catalog image) (hsaga : graph.saga = true)
    {execution execution' before : Execution} (hstands : graph.Stands execution deliveries)
    (hstate : execution.state ≠ .complete) {kind : UInt8} {outcome : Outcome} {port : EdgeSource}
    (hport : outcomePort execution.currentNode outcome = some port)
    (hkind : ∀ record : Image.Edge, record.sourceKind = kind →
      record.sourceNode = execution.currentNode → Compiler.edgeSource record = some port)
    {record : Image.Edge} (hfind : image.findEdge kind execution.currentNode = some record)
    {value : Bytes} (henter : Execution.enterEdge image value record outcome before = (.ok, execution')) :
    graph.Stands execution' (deliveries ++ [(execution.currentNode, outcome)]) := by
  obtain ⟨edge, he, hrun, hat⟩ := hstands
  obtain ⟨next, hnext, hsource, htarget, hrecordKind, hrecordNode⟩ := h.findEdge hfind
  have hleft : next.source = port :=
    Option.some.inj (hsource.symm.trans (hkind record hrecordKind hrecordNode))
  refine h.enters hsaga hnext htarget ?_ henter
  rw [hleft]
  exact hrun.deliver he (hat.resolve_left hstate) hport

/-- **Every run of the interpreter is a run of the graph.** -/
theorem ImageOf.stands (h : ImageOf graph catalog image) (hsaga : graph.saga = true)
    {execution : Execution} (hrun : Execution.Delivers image execution deliveries) :
    graph.Stands execution deliveries := by
  induction hrun with
  | start hstart =>
      obtain ⟨root, fresh, hfind, henter⟩ := Execution.start_enters hstart
      obtain ⟨edge, he, hsource, htarget, hkind, -⟩ := h.findEdge hfind
      refine h.enters hsaga he htarget ?_ henter
      rw [Compiler.edgeSource, hkind] at hsource
      rw [← Option.some.inj hsource]
      exact .start
  | @prepared execution execution' _ frame _ hprepare ih =>
      unfold Execution.prepare at hprepare
      split at hprepare
      · cases hprepare
      rename_i hstate
      dsimp only at hprepare
      split at hprepare
      · cases hprepare
      obtain ⟨-, rfl⟩ := Prod.mk.inj (Except.ok.inj hprepare)
      obtain ⟨edge, he, hrun, hat⟩ := ih
      exact ⟨edge, he, hrun, .inr (hat.resolve_left (by rw [not_not.mp hstate]; decide))⟩
  | sent _ hsent ih =>
      unfold Execution.markSent at hsent
      split at hsent
      · cases hsent
      rename_i hstate
      obtain rfl := Except.ok.inj hsent
      obtain ⟨edge, he, hrun, hat⟩ := ih
      exact ⟨edge, he, hrun, .inr (hat.resolve_left (by rw [not_not.mp hstate]; decide))⟩
  | notSent _ hnotSent ih =>
      obtain ⟨hstate, record, hfind, henter⟩ := Execution.finishDeliveryOutcome_enters hnotSent
      refine h.leaves hsaga ih (by rw [hstate]; decide) rfl ?_ hfind henter
      intro record hkind hnode
      rw [Compiler.edgeSource, hkind, hnode]
      rfl
  | unknown _ hunknown ih =>
      obtain ⟨hstate, record, hfind, henter⟩ := Execution.finishDeliveryOutcome_enters hunknown
      refine h.leaves hsaga ih (by rw [hstate]; decide) rfl ?_ hfind henter
      intro record hkind hnode
      rw [Compiler.edgeSource, hkind, hnode]
      rfl
  | result _ hresult ih =>
      obtain ⟨hstate, houtcome, record, before, hfind, henter⟩ :=
        Execution.acceptResult_enters hresult
      rcases houtcome with houtcome | houtcome
      · rw [houtcome] at hfind henter ⊢
        refine h.leaves hsaga ih (by rw [hstate]; decide) rfl ?_ hfind henter
        intro record hkind hnode
        rw [Compiler.edgeSource, hkind, hnode]
        rfl
      · rw [houtcome] at hfind henter ⊢
        refine h.leaves hsaga ih (by rw [hstate]; decide) rfl ?_ hfind henter
        intro record hkind hnode
        rw [Compiler.edgeSource, hkind, hnode]
        rfl

end Stands

/-- The steps of the image are those of the graph. -/
theorem ImageOf.sagaRegions {image : Image} (h : ImageOf graph catalog image) :
    (Image.sagaRegions image.tables.regions).map (fun region =>
        (region.readU16 2, region.readU16 12)) =
      (graph.sagaSteps catalog).map fun step => (step.forward, step.ordinal) := by
  have hdeadlines : (graph.deadlines.zipIdx.map (deadlineRecord graph.nodes.length)).filter
      (·.readU8 0 == 3) = [] := by
    rw [List.filter_eq_nil_iff]
    intro record hmem
    obtain ⟨entry, -, rfl⟩ := List.mem_map.mp hmem
    simp [deadlineRecord, Bytes.readU8]
  have heach : (graph.eachRegions.map eachRecord).filter (·.readU8 0 == 3) = [] := by
    rw [List.filter_eq_nil_iff]
    intro record hmem
    obtain ⟨region, -, rfl⟩ := List.mem_map.mp hmem
    simp [eachRecord, Bytes.readU8]
  rw [Image.sagaRegions, h.tables.2.2, regionRecords, List.filter_append, List.filter_append,
    hdeadlines, heach, List.nil_append, List.nil_append]
  induction graph.sagaSteps catalog with
  | nil => rfl
  | cons step steps ih =>
      rw [List.flatMap_cons, List.filter_append, List.map_append, ih, List.map_cons]
      simp [sagaRecords, Bytes.readU8, Image.readU16_cons, Bytes.readU16_skip, Bytes.readU16_here]

/-- **Pipelines are in order.** -/
theorem Pipelined.ordered (h : Verified graph catalog) (hsaga : graph.saga = true)
    (hp : Pipelined graph catalog) : Ordered graph catalog := by
  have hstep : ∀ id index, .action id ∈ graph.nodes →
      ∃ step, sagaStep catalog (NodeKind.action id, index) = some step := by
    intro id index hnode
    obtain ⟨action, compensation, haction, hcompensation⟩ := h.sagaAction hsaga hnode
    exact exists_sagaStep haction hcompensation
      (hp.compensated id action compensation hnode haction hcompensation)
  have hdense : (graph.sagaSteps catalog).map (·.ordinal.toNat) =
      List.range' 1 (graph.sagaSteps catalog).length := by
    have hsteps := steps_dense graph.nodes 0 (by rw [Nat.zero_add]; exact h.counts.1) hp.first hstep
    rw [sagaSteps, if_pos hsaga]
    exact hsteps
  have hsucceeds : ∀ port deliveries, graph.Delivers port deliveries → ∀ (k : Nat) (node : UInt16),
      (successes deliveries)[k]? = some node →
        ∃ step ∈ graph.sagaSteps catalog, step.forward = node ∧ step.ordinal.toNat = k + 1 := by
    intro port deliveries hrun k node hnode
    have hnumber := (hp.delivers hrun).1 k node hnode
    obtain ⟨action, hat⟩ := h.deliversActions hsaga hrun node (List.mem_of_getElem? hnode)
    obtain ⟨hid, hplace⟩ := nodes_of_nodeAt hat
    obtain ⟨step, hsome⟩ := hstep action (node.toNat - 1) (List.mem_of_getElem? hplace)
    obtain ⟨-, hforward, hordinal⟩ := sagaStep_eq hsome
    exact ⟨step, (mem_sagaSteps hsaga).mpr ⟨_, _, hplace, hsome⟩, hforward.trans hid.symm,
      by rw [hordinal, ← hid, hnumber]⟩
  refine ⟨hdense, hsucceeds, fun image himage execution deliveries hrun k node hnode => ?_⟩
  obtain ⟨edge, -, hdelivers, -⟩ := himage.stands hsaga hrun
  obtain ⟨step, hmem, hforward, hordinal⟩ := hsucceeds _ _ hdelivers k node hnode
  -- the step with this ordinal stands at its place
  obtain ⟨place, hplace⟩ := List.mem_iff_getElem?.mp hmem
  have hplaced : place = k := by
    have hnumber := congrArg (·[place]?) hdense
    rw [List.getElem?_map, hplace, List.getElem?_range' (List.getElem?_eq_some_iff.mp hplace).1,
      Option.map_some, Option.some.injEq, hordinal] at hnumber
    omega
  subst hplaced
  have hregion := congrArg (·[place]?) himage.sagaRegions
  rw [List.getElem?_map, List.getElem?_map, hplace] at hregion
  obtain ⟨region, hat, hfields⟩ := Option.map_eq_some_iff.mp hregion
  obtain ⟨hnodeField, hordinalField⟩ := Prod.mk.inj hfields
  exact ⟨region, hat, hnodeField.trans hforward, by rw [hordinalField, hordinal]⟩

/-- **The ordinals of an accepted saga are those of its runs exactly if its builder is a
pipeline.** -/
theorem ordered_iff_pipelined (h : graph.verify catalog = .ok ()) (hsaga : graph.saga = true) :
    Ordered graph catalog ↔ Pipelined graph catalog :=
  ⟨Ordered.pipelined (verify_ok h) hsaga, Pipelined.ordered (verify_ok h) hsaga⟩

/-! ## Two actions in a row -/

/-- An action on flags with its compensation. -/
def undoCatalog : Catalog where
  apps := [{ id := 1, name := "app" }]
  types := [{ id := 1, app := 1, name := "Flag", representation := .boolean }]
  actions := [{ id := 1, app := 1, name := "set", input := 1, success := 1, error := 1
                compensation := .action 2 },
    { id := 2, app := 1, name := "unset", input := 1, success := 1, error := 1 }]

/-- A saga of two actions; the workflow input goes to the first of the two nodes. -/
def rowOf (first second : UInt16) : GraphBuilder where
  name := "row"
  input := 1
  success := 1
  errors := [1]
  saga := true
  nodes := [.action 1, .action 1, .terminal .success, .terminal .knownFailure, .terminal .notSent,
    .terminal .unknown]
  edges := [{ source := .workflowInput, target := .actionInput first },
      { source := .actionSuccess first, target := .actionInput second },
      { source := .actionSuccess second, target := .terminal 3 }] ++
    [first, second].flatMap fun node => [{ source := .actionError node, target := .terminal 4 },
      { source := .actionNotSent node, target := .terminal 5 },
      { source := .actionUnknown node, target := .terminal 6 }]

theorem rowOf_verify :
    (rowOf 1 2).verify undoCatalog = .ok () ∧ (rowOf 2 1).verify undoCatalog = .ok () :=
  ⟨ok_of_toOption (by decide +kernel), ok_of_toOption (by decide +kernel)⟩

theorem rowOf_pipelined : Pipelined (rowOf 1 2) undoCatalog := by
  refine ⟨fun id action compensation hnode haction hcompensation => ?_, fun index id hnode => ?_,
    fun edge he node hinto => ?_⟩
  · have hid : id = 1 := by simpa [rowOf] using hnode
    subst hid
    obtain rfl := Option.some.inj haction
    obtain rfl := Catalog.Compensation.action.inj hcompensation
    rfl
  · rcases index with _ | _ | _ | _ | _ | index
    · exact ⟨1, rfl⟩
    all_goals cases hnode
  · simp only [rowOf, List.mem_append, List.mem_cons, List.flatMap_cons, List.flatMap_nil,
      List.not_mem_nil, or_false] at he
    rcases he with (rfl | rfl | rfl) | (rfl | rfl | rfl) | (rfl | rfl | rfl)
    · obtain rfl := EdgeTarget.actionInput.inj hinto
      exact .inl ⟨rfl, rfl⟩
    · obtain rfl := EdgeTarget.actionInput.inj hinto
      exact .inr ⟨1, rfl, rfl⟩
    all_goals cases hinto

theorem ordered_iff_pipelined_rowOf : Ordered (rowOf 1 2) undoCatalog :=
  (ordered_iff_pipelined rowOf_verify.1 rfl).mpr rowOf_pipelined

/-- A saga is accepted whose builder has the second action in front of the first: its run
succeeds at the second ordinal first. -/
theorem rowOf_disordered : (rowOf 2 1).verify undoCatalog = .ok () ∧ (rowOf 2 1).saga = true ∧
    (rowOf 2 1).Delivers (.actionSuccess 1) [(2, .success), (1, .success)] ∧
      ((rowOf 2 1).sagaSteps undoCatalog).map (fun step => (step.forward, step.ordinal)) =
        [(1, 1), (2, 2)] ∧
      ¬ Ordered (rowOf 2 1) undoCatalog := by
  have hfirst : (rowOf 2 1).Delivers (.actionSuccess 2) [(2, .success)] :=
    @Delivers.deliver (rowOf 2 1) _ [] { source := .workflowInput, target := .actionInput 2 } 2
      .success .start (by simp [rowOf]) rfl rfl
  refine ⟨rowOf_verify.2, rfl, ?_, by decide +kernel, fun h => ?_⟩
  · exact @Delivers.deliver (rowOf 2 1) _ [(2, .success)]
      { source := .actionSuccess 2, target := .actionInput 1 } 1 .success hfirst (by simp [rowOf])
      rfl rfl
  · rcases (Ordered.pipelined (verify_ok rowOf_verify.2) rfl h).next
      { source := .workflowInput, target := .actionInput 2 } (by simp [rowOf]) 2 rfl with
      ⟨-, hnumber⟩ | ⟨previous, hsource, -⟩
    · exact absurd hnumber (by decide)
    · cases hsource

end GraphBuilder

end Hermas
