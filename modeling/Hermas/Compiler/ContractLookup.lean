import Hermas.Image.Contract
import Hermas.Saga.Ordinals

/-!
# The contracts of a compiled graph

The compiler writes a record for every action that a graph delivers or compensates with,
and the types of the action only at its edges and in the records of the saga steps. The
lookup by fingerprint puts them together again. Every place that names an action gives the
types of the catalog, because `verify` has compared them there, so what is left is whether
the fingerprint is that of one action, of several or of none.
-/

namespace Hermas

open Compiler (EdgeSource EdgeTarget ImageError)
open Image (ActionContract ContractTypes ImageResult ResolvedContract)

namespace GraphBuilder

/-- The graph uses an action. -/
inductive Uses (graph : GraphBuilder) (catalog : Catalog) (id : UInt16) : Prop
  | forward (node : .action id ∈ graph.nodes)
  | compensation {other : UInt16} {action : Catalog.ActionDef} (saga : graph.saga = true)
      (node : .action other ∈ graph.nodes) (found : catalog.action other = some action)
      (compensated : action.compensation = .action id)

/-- The action was installed with the fingerprint. -/
def Carries (catalog : Catalog) (id : UInt16) (fingerprint : Catalog.Fingerprint) : Prop :=
  ∃ action, catalog.action id = some action ∧ action.fingerprint = some fingerprint

variable {graph : GraphBuilder} {catalog : Catalog} {image : Image} {id node : UInt16}
  {index : Nat} {action : Catalog.ActionDef} {edge : Edge}

/-- The types of an action of the catalog. -/
def actionTypes (action : Catalog.ActionDef) : ContractTypes where
  input := action.input
  success := action.success
  error := action.error

/-! ## The ports of an action -/

theorem exists_of_countP_one {α : Type} {p : α → Bool} {xs : List α} (h : xs.countP p = 1) :
    ∃ x ∈ xs, p x = true :=
  List.countP_pos_iff.mp (h ▸ Nat.one_pos)

/-- Every port of an action with a value has its edge. -/
theorem Verified.actionPorts (h : Verified graph catalog)
    (hnode : graph.nodes[index]? = some (.action id)) :
    (∃ edge ∈ graph.edges, edge.target = .actionInput (nodeId index)) ∧
      (∃ edge ∈ graph.edges, edge.source = .actionSuccess (nodeId index)) ∧
      ∃ edge ∈ graph.edges, edge.source = .actionError (nodeId index) := by
  obtain ⟨hlt, hget⟩ := List.getElem?_eq_some_iff.mp hnode
  have hsplit : graph.nodes = graph.nodes.take index ++ .action id :: graph.nodes.drop (index + 1) := by
    rw [← hget, ← List.drop_eq_getElem_cons hlt, List.take_append_drop]
  have hcardinality := h.cardinality
  simp only [verifyCardinality, bind_ok, require_ok] at hcardinality
  obtain ⟨⟨⟩, -, ⟨⟩, hports, -⟩ := hcardinality
  have hcheck := checkEach_ok hports _ _ _ hsplit
  have hlength : (graph.nodes.take index).length = index := by
    rw [List.length_take, Nat.min_eq_left (Nat.le_of_lt hlt)]
  simp only [verifyPorts, List.nil_append, hlength, bind_ok, expectOne, require_ok] at hcheck
  obtain ⟨⟨⟩, hinput, houtputs⟩ := hcheck
  have houtput : ∀ port ∈ [("success", EdgeSource.actionSuccess (nodeId index)),
      ("error", .actionError (nodeId index)), ("not-sent", .actionNotSent (nodeId index)),
      ("unknown", .actionUnknown (nodeId index))], ∃ edge ∈ graph.edges, edge.source = port.2 := by
    intro port hport
    obtain ⟨-, hone⟩ := checkEach_mem houtputs hport
    rw [require_ok] at hone
    obtain ⟨edge, he, hsource⟩ := exists_of_countP_one hone
    exact ⟨edge, he, beq_iff_eq.mp hsource⟩
  obtain ⟨edge, he, htarget⟩ := exists_of_countP_one hinput
  exact ⟨⟨edge, he, beq_iff_eq.mp htarget⟩, houtput ("success", _) (by simp),
    houtput ("error", _) (by simp)⟩

/-- What may enter an action carries a value. -/
theorem sourceValueType_valued {source : EdgeSource} {kind : Compiler.NodeKind}
    {type : Option UInt16}
    (hroute : Compiler.verifyRoute source (.actionInput node) kind = true)
    (htype : graph.sourceValueType catalog source = .ok type) : ∃ value, type = some value := by
  cases source with
  | actionNotSent | actionUnknown => cases kind <;> cases hroute
  | workflowInput => exact ⟨_, (Except.ok.inj htype).symm⟩
  | actionSuccess port | actionError port =>
      simp only [sourceValueType] at htype
      cases hfor : graph.actionForNode catalog port with
      | error reason => rw [hfor] at htype; cases htype
      | ok definition => rw [hfor] at htype; exact ⟨_, (Except.ok.inj htype).symm⟩
  | dispatchCase port tag =>
      simp only [sourceValueType] at htype
      cases hcase : graph.dispatchCaseType catalog port tag with
      | error reason => rw [hcase] at htype; cases htype
      | ok payload => rw [hcase] at htype; exact ⟨_, (Except.ok.inj htype).symm⟩
  | forkBranch port tag =>
      simp only [sourceValueType] at htype
      split at htype
      · split at htype
        · exact ⟨_, (Except.ok.inj htype).symm⟩
        · cases htype
      · cases htype
  | joinField port tag =>
      simp only [sourceValueType] at htype
      split at htype
      · split at htype
        · exact ⟨_, (Except.ok.inj htype).symm⟩
        · cases htype
      · cases htype
  | eachItem region | eachOutput region =>
      simp only [sourceValueType] at htype
      split at htype
      · exact ⟨_, (Except.ok.inj htype).symm⟩
      · cases htype

/-- A presentation takes the place of the type it presents. -/
theorem presentedType_ok {place : Nat} {sourceType effective : UInt16}
    (h : presentedType catalog place edge sourceType = .ok effective) :
    edge.presentation.or (some sourceType) = some effective := by
  unfold presentedType at h
  split at h
  · rename_i hnone
    rw [hnone, Except.ok.inj h]
    rfl
  · rename_i presentation hsome
    simp only [bind_ok] at h
    obtain ⟨⟨⟩, -, h⟩ := h
    split at h
    · cases h
    · rw [hsome, Except.ok.inj h]
      rfl

/-- **What enters an action is its input.** -/
theorem Verified.inputType (h : Verified graph catalog) (he : edge ∈ graph.edges)
    (htarget : edge.target = .actionInput node) (hnode : graph.nodeAt node = some (.action id))
    (haction : catalog.action id = some action) :
    (graph.imageEdge catalog edge).targetType = some action.input := by
  obtain ⟨before, hcheck⟩ := checkEach_mem h.edges he
  simp only [verifyEdge, bind_ok, require_ok, htarget, nodeForTarget, hnode] at hcheck
  obtain ⟨⟨⟩, -, type, htype, ⟨⟩, hroute, hcheck⟩ := hcheck
  obtain ⟨sourceType, rfl⟩ := sourceValueType_valued hroute htype
  simp only [bind_ok, targetExpectedType, haction, Option.elim, verifyExpectation,
    require_ok] at hcheck
  obtain ⟨effective, hpresented, rfl⟩ := hcheck
  rw [imageEdge, htype]
  exact presentedType_ok hpresented

theorem imageEdge_success (hsource : edge.source = .actionSuccess node)
    (hnode : graph.nodeAt node = some (.action id)) (haction : catalog.action id = some action) :
    (graph.imageEdge catalog edge).sourceType = some action.success := by
  simp only [imageEdge, hsource, sourceValueType, actionForNode, hnode, haction]
  rfl

theorem imageEdge_error (hsource : edge.source = .actionError node)
    (hnode : graph.nodeAt node = some (.action id)) (haction : catalog.action id = some action) :
    (graph.imageEdge catalog edge).sourceType = some action.error := by
  simp only [imageEdge, hsource, sourceValueType, actionForNode, hnode, haction]
  rfl

theorem entersAction_edgeRecord {edge : ImageEdge} :
    Image.entersAction node (edgeRecord edge) = true ↔ edge.target = .actionInput node := by
  obtain ⟨source, target, _, _, _⟩ := edge
  cases target <;> simp [Image.entersAction, edgeRecord, targetRecord]

theorem leavesAction_success {edge : ImageEdge} :
    Image.leavesAction 1 node (edgeRecord edge) = true ↔ edge.source = .actionSuccess node := by
  obtain ⟨source, target, _, _, _⟩ := edge
  cases source <;> simp [Image.leavesAction, edgeRecord, sourceRecord]

theorem leavesAction_error {edge : ImageEdge} :
    Image.leavesAction 2 node (edgeRecord edge) = true ↔ edge.source = .actionError node := by
  obtain ⟨source, target, _, _, _⟩ := edge
  cases source <;> simp [Image.leavesAction, edgeRecord, sourceRecord]

theorem ImageOf.mem_edges (h : ImageOf graph catalog image) {record : Image.Edge} :
    record ∈ image.tables.edges ↔
      ∃ edge ∈ graph.edges, edgeRecord (graph.imageEdge catalog edge) = record := by
  rw [h.tables.2.1, imageEdges, List.map_map]
  exact List.mem_map

/-- The edges at an action say what its types are. -/
theorem ImageOf.edgesAgree (h : ImageOf graph catalog image)
    (hnode : graph.nodes[index]? = some (.action id)) (haction : catalog.action id = some action) :
    Image.EdgesAgree image.tables.edges (nodeId index) (actionTypes action) := by
  have hverified := verify_ok h.verified
  have hat : graph.nodeAt (nodeId index) = some (.action id) := by
    have hid := nodeId_toNat
      (Nat.lt_of_lt_of_le (List.getElem?_eq_some_iff.mp hnode).1 hverified.counts.1)
    unfold nodeAt Catalog.indexed
    rw [if_neg (by rw [← UInt16.toNat_inj, hid]; simp), hid]
    exact hnode
  refine ⟨fun record hmem hport => ?_, fun record hmem hport => ?_, fun record hmem hport => ?_⟩
  · obtain ⟨edge, he, rfl⟩ := h.mem_edges.mp hmem
    rw [edgeRecord, hverified.inputType he (entersAction_edgeRecord.mp hport) hat haction]
    rfl
  · obtain ⟨edge, -, rfl⟩ := h.mem_edges.mp hmem
    rw [edgeRecord, imageEdge_success (leavesAction_success.mp hport) hat haction]
    rfl
  · obtain ⟨edge, -, rfl⟩ := h.mem_edges.mp hmem
    rw [edgeRecord, imageEdge_error (leavesAction_error.mp hport) hat haction]
    rfl

/-- And all of them are in the image. -/
theorem ImageOf.actionPorts (h : ImageOf graph catalog image)
    (hnode : graph.nodes[index]? = some (.action id)) :
    (∃ record ∈ image.tables.edges, Image.entersAction (nodeId index) record = true) ∧
      (∃ record ∈ image.tables.edges, Image.leavesAction 1 (nodeId index) record = true) ∧
      ∃ record ∈ image.tables.edges, Image.leavesAction 2 (nodeId index) record = true := by
  obtain ⟨⟨into, hinto, htarget⟩, ⟨success, hsuccess, hfirst⟩, error, herror, hsecond⟩ :=
    (verify_ok h.verified).actionPorts hnode
  exact ⟨⟨_, h.mem_edges.mpr ⟨into, hinto, rfl⟩, entersAction_edgeRecord.mpr htarget⟩,
    ⟨_, h.mem_edges.mpr ⟨success, hsuccess, rfl⟩, leavesAction_success.mpr hfirst⟩,
    _, h.mem_edges.mpr ⟨error, herror, rfl⟩, leavesAction_error.mpr hsecond⟩

/-- **The edges at an action give its types.** -/
theorem ImageOf.nodeTypes (h : ImageOf graph catalog image)
    (hnode : graph.nodes[index]? = some (.action id)) (haction : catalog.action id = some action) :
    Image.nodeTypes image.tables.edges (nodeId index) = actionTypes action := by
  obtain ⟨hinput, hsuccess, herror⟩ := h.actionPorts hnode
  exact (h.edgesAgree hnode haction).nodeTypes hinput hsuccess herror

/-! ## The steps of a saga -/

section Steps

variable {step : SagaStep} {region : Bytes}

theorem sagaStep_types (h : sagaStep catalog (.action id, index) = some step) :
    ∃ action compensated, catalog.action id = some action ∧
      action.compensation = .action step.compensation ∧
      catalog.action step.compensation = some compensated ∧
      step.destinationType = compensated.input ∧ step.successType = compensated.success ∧
      step.errorType = compensated.error := by
  simp only [sagaStep, Option.bind_eq_bind, Option.bind_eq_some_iff] at h
  obtain ⟨action, haction, h⟩ := h
  split at h
  · cases h
  · rename_i compensation hcompensation
    obtain ⟨compensated, hcompensated, h⟩ := Option.bind_eq_some_iff.mp h
    obtain rfl := Option.some.inj h
    exact ⟨action, compensated, haction, hcompensation, hcompensated, rfl, rfl, rfl⟩

/-- What the two records of a step say. -/
theorem sagaRecords_fields (hmem : region ∈ sagaRecords catalog step) :
    region.readU16 2 = step.forward ∧
      (region.readU8 0 = 3 → region.readU16 6 = step.compensation ∧
        region.readU16 4 = (catalog.action step.compensation).elim 0 (·.app) ∧
        region.readU16 10 = step.destinationType) ∧
      (region.readU8 0 = 4 → region.readU16 4 = step.successType ∧
        region.readU16 6 = step.errorType) := by
  simp only [sagaRecords, List.mem_cons, List.not_mem_nil, or_false] at hmem
  rcases hmem with rfl | rfl <;>
    simp [Bytes.readU8, Image.readU16_cons, Bytes.readU16_skip, Bytes.readU16_here]

theorem exists_sagaRecords (catalog : Catalog) (step : SagaStep) :
    (∃ region ∈ sagaRecords catalog step, region.readU8 0 = 3) ∧
      ∃ region ∈ sagaRecords catalog step, region.readU8 0 = 4 :=
  ⟨⟨_, List.mem_cons_self, rfl⟩, _, List.mem_cons_of_mem _ List.mem_cons_self, rfl⟩

/-- The other records are of other kinds. -/
theorem sagaRecords_of_kind (hmem : region ∈ graph.regionRecords catalog)
    (hkind : region.readU8 0 = 3 ∨ region.readU8 0 = 4) :
    ∃ step ∈ graph.sagaSteps catalog, region ∈ sagaRecords catalog step := by
  simp only [regionRecords, List.mem_append, List.mem_map, List.mem_flatMap] at hmem
  rcases hmem with (⟨entry, -, rfl⟩ | ⟨each, -, rfl⟩) | hstep
  · simp [deadlineRecord, Bytes.readU8] at hkind
  · simp [eachRecord, Bytes.readU8] at hkind
  · exact hstep

theorem mem_regionRecords (hstep : step ∈ graph.sagaSteps catalog)
    (hmem : region ∈ sagaRecords catalog step) : region ∈ graph.regionRecords catalog :=
  List.mem_append_right _ (List.mem_flatMap.mpr ⟨step, hstep, hmem⟩)

theorem saga_of_step (hstep : step ∈ graph.sagaSteps catalog) : graph.saga = true := by
  unfold sagaSteps at hstep
  split at hstep
  · assumption
  · cases hstep

/-- A node has one step. -/
theorem Verified.step_unique (h : Verified graph catalog) {other : SagaStep}
    (hstep : step ∈ graph.sagaSteps catalog) (hother : other ∈ graph.sagaSteps catalog)
    (hforward : other.forward = step.forward) : other = step := by
  have hsaga := saga_of_step hstep
  obtain ⟨index, id, hnode, hsome, -, hnumber⟩ := h.sagaStep hsaga hstep
  obtain ⟨index', id', hnode', hsome', -, hnumber'⟩ := h.sagaStep hsaga hother
  obtain rfl : index' = index := by
    rw [hforward] at hnumber'
    omega
  obtain rfl := NodeKind.action.inj (Option.some.inj (hnode'.symm.trans hnode))
  exact Option.some.inj (hsome'.symm.trans hsome)

/-- **The records of a step give the types of its compensation.** -/
theorem ImageOf.compensationTypes (h : ImageOf graph catalog image)
    (hstep : step ∈ graph.sagaSteps catalog) (hmem : region ∈ sagaRecords catalog step)
    (hkind : region.readU8 0 = 3) (haction : catalog.action step.compensation = some action) :
    Image.compensationTypes image.tables.regions region = actionTypes action := by
  have hverified := verify_ok h.verified
  obtain ⟨index, id, -, hsome, -⟩ := hverified.sagaStep (saga_of_step hstep) hstep
  obtain ⟨-, compensated, -, -, hcompensated, hinput, hsuccess, herror⟩ := sagaStep_types hsome
  obtain rfl := Option.some.inj (hcompensated.symm.trans haction)
  obtain ⟨hforward, hfields, -⟩ := sagaRecords_fields hmem
  obtain ⟨-, -, hdestination⟩ := hfields hkind
  -- the first outcome record of the node is that of the step
  have hfind : ∃ outcome, image.tables.regions.find? (Image.isOutcome step.forward) = some outcome := by
    obtain ⟨outcome, houtcome, hfour⟩ := (exists_sagaRecords catalog step).2
    refine Option.isSome_iff_exists.mp (List.find?_isSome.mpr ⟨outcome, ?_, ?_⟩)
    · rw [h.tables.2.2]
      exact mem_regionRecords hstep houtcome
    · rw [Image.isOutcome, hfour, (sagaRecords_fields houtcome).1]
      simp
  obtain ⟨outcome, houtcome⟩ := hfind
  have hmatch := List.find?_some houtcome
  simp only [Image.isOutcome, Bool.and_eq_true, beq_iff_eq] at hmatch
  have hrecord := List.mem_of_find?_eq_some houtcome
  rw [h.tables.2.2] at hrecord
  obtain ⟨other, hother, hin⟩ := sagaRecords_of_kind hrecord (.inr hmatch.1)
  obtain ⟨hnode, -, hrest⟩ := sagaRecords_fields hin
  obtain rfl := hverified.step_unique hstep hother (hnode.symm.trans hmatch.2)
  obtain ⟨hfirst, hsecond⟩ := hrest hmatch.1
  simp only [Image.compensationTypes, hforward, houtcome, hdestination, hfirst, hsecond, hinput,
    hsuccess, herror]
  rfl

end Steps

/-! ## The actions that have a contract -/

/-- The steps of a saga compensate with actions that are used. -/
theorem Uses.of_step (h : Verified graph catalog) {step : SagaStep}
    (hstep : step ∈ graph.sagaSteps catalog) : Uses graph catalog step.compensation := by
  obtain ⟨index, id, hnode, hsome, -⟩ := h.sagaStep (saga_of_step hstep) hstep
  obtain ⟨action, -, haction, hcompensated, -⟩ := sagaStep_types hsome
  exact .compensation (saga_of_step hstep) (List.mem_of_getElem? hnode) haction hcompensated

/-- An action of the catalog that is used stands at a node or in a step. -/
theorem Uses.places (h : Uses graph catalog id) (haction : catalog.action id = some action) :
    (∃ index : Nat, graph.nodes[index]? = some (NodeKind.action id)) ∨
      ∃ step ∈ graph.sagaSteps catalog, step.compensation = id := by
  cases h with
  | forward node => exact .inl (List.mem_iff_getElem?.mp node)
  | compensation saga node found compensated =>
      obtain ⟨index, hnode⟩ := List.mem_iff_getElem?.mp node
      obtain ⟨step, hsome⟩ := exists_sagaStep found compensated (Option.isSome_of_eq_some haction)
      obtain ⟨other, -, hother, hcompensation, -⟩ := sagaStep_types hsome
      obtain rfl := Option.some.inj (found.symm.trans hother)
      refine .inr ⟨step, (mem_sagaSteps saga).mpr ⟨index, _, hnode, hsome⟩, ?_⟩
      exact (Catalog.Compensation.action.inj (compensated.symm.trans hcompensation)).symm

theorem mem_requiredActions (h : Verified graph catalog) (haction : catalog.action id = some action) :
    id ∈ graph.requiredActions catalog ↔ Uses graph catalog id := by
  rw [requiredActions, mem_sortedSet, List.mem_append, List.mem_filterMap, List.mem_map]
  constructor
  · rintro (⟨node, hmem, hnode⟩ | ⟨step, hstep, rfl⟩)
    · cases node with
      | action other => exact .forward (Option.some.inj hnode ▸ hmem)
      | _ => cases hnode
    · exact .of_step h hstep
  · intro huses
    rcases huses.places haction with ⟨index, hnode⟩ | hstep
    · exact .inl ⟨_, List.mem_of_getElem? hnode, rfl⟩
    · exact .inr hstep

/-- The record of an action. -/
def contractOf (id : UInt16) (action : Catalog.ActionDef) (fingerprint : Catalog.Fingerprint) :
    ActionContract where
  appId := action.app
  actionId := id
  fingerprint := fingerprint.1

/-- The records of a fingerprint are those of the actions that are used and carry it. -/
theorem ImageOf.mem_carriers (h : ImageOf graph catalog image) {fingerprint : Catalog.Fingerprint}
    {contract : ActionContract} :
    contract ∈ Image.carriers fingerprint.1 image.tables.contracts ↔
      ∃ id action, Uses graph catalog id ∧ catalog.action id = some action ∧
        action.fingerprint = some fingerprint ∧ contract = contractOf id action fingerprint := by
  have hverified := verify_ok h.verified
  rw [Image.carriers, List.mem_filter, beq_iff_eq]
  constructor
  · rintro ⟨hmem, hcarried⟩
    obtain ⟨id, hid, hcontract⟩ := mapM_ok h.contracts contract hmem
    obtain ⟨action, carried, haction, hfingerprint, rfl⟩ := actionContract_ok hcontract
    obtain rfl : carried = fingerprint := Subtype.ext hcarried
    exact ⟨id, action, (mem_requiredActions hverified haction).mp hid, haction, hfingerprint, rfl⟩
  · rintro ⟨id, action, huses, haction, hfingerprint, rfl⟩
    obtain ⟨contract, hmem, hcontract⟩ := mapM_mem h.contracts id
      ((mem_requiredActions hverified haction).mpr huses)
    obtain ⟨other, carried, hother, hcarried, rfl⟩ := actionContract_ok hcontract
    obtain rfl := Option.some.inj (hother.symm.trans haction)
    obtain rfl := Option.some.inj (hcarried.symm.trans hfingerprint)
    exact ⟨hmem, rfl⟩

theorem ImageOf.contracts_nodup (h : ImageOf graph catalog image) :
    image.tables.contracts.Nodup := by
  have hids : image.tables.contracts.map (·.actionId) = graph.requiredActions catalog :=
    mapM_map (fun id contract hid => by
      obtain ⟨-, -, -, -, rfl⟩ := actionContract_ok hid
      rfl) h.contracts
  exact List.Nodup.of_map (·.actionId) (hids ▸ nodup_sortedSet _)

/-! ## The types are there -/

section Typed

variable {classes : List Image.NodeClass} {regions : Image.RegionState} {region : Bytes}

theorem compensation_typed (h : Image.Checked image classes regions)
    (hmem : region ∈ image.tables.regions) (hkind : region.readU8 0 = 3) :
    region.readU16 10 ≠ 0 := by
  obtain ⟨before, state, hround⟩ := foldlM_mem h.regionsOk region hmem
  unfold Image.validateRegion at hround
  simp only [hkind] at hround
  rw [if_neg (by decide), if_neg (by decide), if_pos trivial] at hround
  simp only [Image.validateSagaStep, bind_ok, require_ok] at hround
  obtain ⟨⟨⟩, ⟨-, -, -, -, -, -, -, -, -, hcompatible, -⟩, -⟩ := hround
  split at hcompatible
  · rename_i hdestination
    exact h.type_ne_zero (Image.descriptor_contains hdestination)
  · cases hcompatible

theorem outcome_typed (h : Image.Checked image classes regions)
    (hmem : region ∈ image.tables.regions) (hkind : region.readU8 0 = 4) :
    region.readU16 4 ≠ 0 ∧ region.readU16 6 ≠ 0 := by
  obtain ⟨before, state, hround⟩ := foldlM_mem h.regionsOk region hmem
  unfold Image.validateRegion at hround
  simp only [hkind] at hround
  rw [if_neg (by decide), if_neg (by decide), if_neg (by decide), if_pos trivial] at hround
  simp only [Image.validateSagaOutcome, bind_ok, require_ok] at hround
  obtain ⟨⟨⟩, ⟨-, -, -, -, -, -, -, hsuccess, herror, -⟩, -⟩ := hround
  exact ⟨h.type_ne_zero hsuccess, h.type_ne_zero herror⟩

/-- **The loader has seen the types of every action that is used.** -/
theorem ImageOf.types_found (h : ImageOf graph catalog image) (huses : Uses graph catalog id)
    (haction : catalog.action id = some action) : (actionTypes action).Found := by
  obtain ⟨classes, regions, hchecked⟩ := image.checked
  rcases huses.places haction with ⟨index, hnode⟩ | ⟨step, hstep, rfl⟩
  · obtain ⟨⟨into, hinto, hport⟩, ⟨success, hsuccess, hfirst⟩, error, herror, hsecond⟩ :=
      h.actionPorts hnode
    have hagree := h.edgesAgree hnode haction
    refine ⟨fun hzero => ?_, ?_, ?_⟩
    · have hkind := hchecked.target_terminal hinto ((hagree.input into hinto hport).trans hzero)
      simp [Image.entersAction, hkind] at hport
    · rw [← hagree.success success hsuccess hfirst]
      simp only [Image.leavesAction, Bool.and_eq_true, beq_iff_eq] at hfirst
      exact Image.source_typed hsuccess (.inl hfirst.2)
    · rw [← hagree.error error herror hsecond]
      simp only [Image.leavesAction, Bool.and_eq_true, beq_iff_eq] at hsecond
      exact Image.source_typed herror (.inr (.inl hsecond.2))
  · obtain ⟨index, id, -, hsome, -⟩ := (verify_ok h.verified).sagaStep (saga_of_step hstep) hstep
    obtain ⟨-, compensated, -, -, hcompensated, hinput, hsuccess, herror⟩ := sagaStep_types hsome
    obtain rfl := Option.some.inj (hcompensated.symm.trans haction)
    obtain ⟨⟨region, hregion, hthree⟩, outcome, houtcome, hfour⟩ :=
      exists_sagaRecords catalog step
    have hmem : ∀ record ∈ sagaRecords catalog step, record ∈ image.tables.regions :=
      fun record hrecord => h.tables.2.2 ▸ mem_regionRecords hstep hrecord
    obtain ⟨-, -, hdestination⟩ := (sagaRecords_fields hregion).2.1 hthree
    obtain ⟨hfirst, hsecond⟩ := (sagaRecords_fields houtcome).2.2 hfour
    have htyped := outcome_typed hchecked (hmem outcome houtcome) hfour
    rw [hfirst, hsecond, hsuccess, herror] at htyped
    refine ⟨?_, htyped⟩
    rw [actionTypes, ← hinput, ← hdestination]
    exact compensation_typed hchecked (hmem region hregion) hthree

end Typed

/-! ## The lookup -/

/-- **Every place of an action gives its types.** -/
theorem ImageOf.contractTypes (h : ImageOf graph catalog image) (huses : Uses graph catalog id)
    (haction : catalog.action id = some action) (fingerprint : Catalog.Fingerprint) :
    Image.contractTypes image.tables (contractOf id action fingerprint) =
      .ok (actionTypes action) := by
  refine (h.types_found huses haction).contractTypes ?_ ?_ ?_
  · rintro ⟨record, index⟩ hentry hdelivers
    rw [List.mem_zipIdx_iff_getElem?, h.tables.1, List.getElem?_map] at hentry
    obtain ⟨node, hnode, rfl⟩ := Option.map_eq_some_iff.mp hentry
    simp only [Image.deliversContract, Bool.and_eq_true, beq_iff_eq] at hdelivers
    obtain ⟨⟨hkind, hid⟩, -⟩ := hdelivers
    cases node with
    | action other =>
        obtain rfl : other = id := hid
        exact h.nodeTypes hnode haction
    | _ => cases hkind
  · intro region hmem hcompensates
    simp only [Image.compensatesContract, Bool.and_eq_true, beq_iff_eq] at hcompensates
    obtain ⟨⟨hkind, -⟩, hid⟩ := hcompensates
    rw [h.tables.2.2] at hmem
    obtain ⟨step, hstep, hin⟩ := sagaRecords_of_kind hmem (.inl hkind)
    obtain ⟨hcompensation, -⟩ := (sagaRecords_fields hin).2.1 hkind
    have hsame : step.compensation = id := hcompensation.symm.trans hid
    exact h.compensationTypes hstep hin hkind (hsame ▸ haction)
  · rcases huses.places haction with ⟨index, hnode⟩ | ⟨step, hstep, rfl⟩
    · refine .inl (List.any_eq_true.mpr ⟨(nodeRecord catalog (.action id), index), ?_, ?_⟩)
      · rw [List.mem_zipIdx_iff_getElem?, h.tables.1, List.getElem?_map, hnode]
        rfl
      · simp [Image.deliversContract, nodeRecord, contractOf, haction]
    · obtain ⟨region, hregion, hkind⟩ := (exists_sagaRecords catalog step).1
      obtain ⟨hcompensation, happ, -⟩ := (sagaRecords_fields hregion).2.1 hkind
      refine .inr (List.any_eq_true.mpr ⟨region, ?_, ?_⟩)
      · rw [h.tables.2.2]
        exact mem_regionRecords hstep hregion
      · simp [Image.compensatesContract, contractOf, hkind, hcompensation, happ, haction]

/-- What the lookup makes of a fingerprint. -/
structure Resolves (graph : GraphBuilder) (catalog : Catalog) (bytes : Bytes)
    (fingerprint : Catalog.Fingerprint) : Prop where
  one : ∀ id action, Uses graph catalog id → catalog.action id = some action →
    action.fingerprint = some fingerprint →
    (∀ other, Uses graph catalog other → Carries catalog other fingerprint → other = id) →
    Image.findActionContract bytes fingerprint.1 = .ok {
      appId := action.app
      actionId := id
      inputType := action.input
      successType := action.success
      errorType := action.error
      fingerprint := fingerprint.1 }
  several : ∀ id other, id ≠ other → Uses graph catalog id → Carries catalog id fingerprint →
    Uses graph catalog other → Carries catalog other fingerprint →
    Image.findActionContract bytes fingerprint.1 = .error .invalidRecord
  none : (∀ id, Uses graph catalog id → ¬ Carries catalog id fingerprint) →
    Image.findActionContract bytes fingerprint.1 = .error .actionNotFound

theorem findActionContract_accepted {bytes : Bytes}
    (h : (Image.imageValidate bytes).toOption.isSome = true) (fingerprint : Bytes) :
    Image.findActionContract bytes fingerprint =
      (do
        match ← (Image.readTables bytes).contracts.foldlM (Image.matchContract fingerprint) none with
        | none => .error .actionNotFound
        | some contract =>
            let types ← Image.contractTypes (Image.readTables bytes) contract
            pure {
              appId := contract.appId
              actionId := contract.actionId
              inputType := types.input
              successType := types.success
              errorType := types.error
              fingerprint }) := by
  cases hvalid : Image.imageValidate bytes with
  | error reason => rw [hvalid] at h; cases h
  | ok summary => rw [Image.findActionContract, hvalid]; rfl

theorem ImageOf.resolves (h : ImageOf graph catalog image) (fingerprint : Catalog.Fingerprint) :
    Resolves graph catalog image.bytes fingerprint := by
  have hfind := findActionContract_accepted image.valid fingerprint.1
  rw [image.tables_eq, Image.matchContract_eq] at hfind
  have hnodup : (Image.carriers fingerprint.1 image.tables.contracts).Nodup :=
    h.contracts_nodup.filter _
  refine ⟨fun id action huses haction hfingerprint honly => ?_, ?_, fun hnone => ?_⟩
  · have hone : Image.carriers fingerprint.1 image.tables.contracts =
        [contractOf id action fingerprint] := by
      refine List.perm_singleton.mp ((List.perm_ext_iff_of_nodup hnodup
        (List.nodup_singleton _)).mpr fun contract => ?_)
      rw [h.mem_carriers, List.mem_singleton]
      constructor
      · rintro ⟨other, definition, hother, hdefinition, hcarried, rfl⟩
        obtain rfl := honly other hother ⟨definition, hdefinition, hcarried⟩
        obtain rfl := Option.some.inj (hdefinition.symm.trans haction)
        rfl
      · rintro rfl
        exact ⟨id, action, huses, haction, hfingerprint, rfl⟩
    rw [hfind, hone]
    change (Image.contractTypes image.tables _ >>= _) = _
    rw [h.contractTypes huses haction]
    rfl
  · rintro id other hne huses ⟨action, haction, hfingerprint⟩ hother
      ⟨definition, hdefinition, hcarried⟩
    have hfirst := h.mem_carriers.mpr ⟨id, action, huses, haction, hfingerprint, rfl⟩
    have hsecond := h.mem_carriers.mpr ⟨other, definition, hother, hdefinition, hcarried, rfl⟩
    rw [hfind]
    cases hcarriers : Image.carriers fingerprint.1 image.tables.contracts with
    | nil => rw [hcarriers] at hfirst; cases hfirst
    | cons contract rest =>
        cases rest with
        | cons => rfl
        | nil =>
            rw [hcarriers, List.mem_singleton] at hfirst hsecond
            exact absurd (congrArg ActionContract.actionId (hfirst.trans hsecond.symm)) hne
  · have hnil : Image.carriers fingerprint.1 image.tables.contracts = [] := by
      refine List.eq_nil_iff_forall_not_mem.mpr fun contract hmem => ?_
      obtain ⟨id, action, huses, haction, hfingerprint, -⟩ := h.mem_carriers.mp hmem
      exact hnone id huses ⟨action, haction, hfingerprint⟩
    rw [hfind, hnil]
    rfl

/-- **A fingerprint of one action is resolved to what the catalog has.** -/
theorem findActionContract_encoded {bytes : Bytes} (hverify : graph.verify catalog = .ok ())
    (hencode : graph.encodeGraphImage catalog = .ok bytes) (fingerprint : Catalog.Fingerprint) :
    (∀ reason, Image.imageValidate bytes = .error reason →
      Image.findActionContract bytes fingerprint.1 = .error reason) ∧
    ((Image.imageValidate bytes).toOption.isSome = true →
      Resolves graph catalog bytes fingerprint) := by
  constructor
  · intro reason hrefused
    rw [Image.findActionContract, hrefused]
    rfl
  · intro haccepted
    have himage : ImageOf graph catalog ⟨bytes, Image.readTables bytes, rfl, haccepted⟩ :=
      ⟨hverify, hencode⟩
    exact himage.resolves fingerprint

/-! ## An action and its compensation -/

/-- A digest of 32 equal bytes. -/
def digest (b : UInt8) : Catalog.Fingerprint := ⟨List.replicate 32 b, List.length_replicate⟩

/-- An action with its compensation, which has other results, and their fingerprints. -/
def undoContracts (forward compensation : Catalog.Fingerprint) : Catalog where
  apps := [{ id := 1, name := "app" }]
  types := [{ id := 1, app := 1, name := "Flag", representation := .boolean },
    { id := 2, app := 1, name := "Undone", representation := .unit },
    { id := 3, app := 1, name := "Fault", representation := .integer }]
  actions := [{ id := 1, app := 1, name := "set", input := 1, success := 1, error := 1
                compensation := .action 2, fingerprint := some forward },
    { id := 2, app := 1, name := "unset", input := 1, success := 2, error := 3
      fingerprint := some compensation }]

def undoBytes (forward compensation : Catalog.Fingerprint) : Bytes :=
  ((rowOf 1 2).encodeGraphImage (undoContracts forward compensation)).toOption.getD []

theorem rowOf_uses (forward compensation : Catalog.Fingerprint) :
    Uses (rowOf 1 2) (undoContracts forward compensation) 1 ∧
      Uses (rowOf 1 2) (undoContracts forward compensation) 2 :=
  ⟨.forward (by simp [rowOf]),
    @Uses.compensation _ _ 2 1 _ rfl (by simp [rowOf]) rfl rfl⟩

/-- The compensation is found by its own fingerprint. -/
theorem findActionContract_encoded_undo :
    Image.findActionContract (undoBytes (digest 1) (digest 2)) (digest 2).1 = .ok {
      appId := 1, actionId := 2, inputType := 1, successType := 2, errorType := 3
      fingerprint := (digest 2).1 } := by
  have hencode : (rowOf 1 2).encodeGraphImage (undoContracts (digest 1) (digest 2)) =
      .ok (undoBytes (digest 1) (digest 2)) := ok_of_isSome (by decide +kernel) []
  have haccepted : (Image.imageValidate (undoBytes (digest 1) (digest 2))).toOption.isSome = true := by
    decide +kernel
  obtain ⟨-, hresolves⟩ := findActionContract_encoded (ok_of_toOption (by decide +kernel)) hencode
    (digest 2)
  refine (hresolves haccepted).one 2 _ (rowOf_uses _ _).2 rfl rfl ?_
  rintro other huses ⟨action, haction, hcarried⟩
  cases huses with
  | forward node =>
      obtain rfl : other = 1 := by simpa [rowOf] using node
      obtain rfl := Option.some.inj haction
      exact absurd (congrArg Subtype.val (Option.some.inj hcarried)) (by decide)
  | @compensation earlier _ saga node found compensated =>
      obtain rfl : earlier = 1 := by simpa [rowOf] using node
      obtain rfl := Option.some.inj found
      exact (Catalog.Compensation.action.inj compensated).symm

/-- Two actions that were installed with one fingerprint are told apart by nothing. -/
theorem findActionContract_shared : ¬ ∀ (graph : GraphBuilder) (catalog : Catalog) (bytes : Bytes)
    (fingerprint : Catalog.Fingerprint) (id : UInt16) (action : Catalog.ActionDef),
    graph.verify catalog = .ok () → graph.encodeGraphImage catalog = .ok bytes →
    (Image.imageValidate bytes).toOption.isSome = true → Uses graph catalog id →
    catalog.action id = some action → action.fingerprint = some fingerprint →
    Image.findActionContract bytes fingerprint.1 = .ok {
      appId := action.app
      actionId := id
      inputType := action.input
      successType := action.success
      errorType := action.error
      fingerprint := fingerprint.1 } := by
  intro hall
  have hverify : (rowOf 1 2).verify (undoContracts (digest 0) (digest 0)) = .ok () :=
    ok_of_toOption (by decide +kernel)
  have hencode : (rowOf 1 2).encodeGraphImage (undoContracts (digest 0) (digest 0)) =
      .ok (undoBytes (digest 0) (digest 0)) := ok_of_isSome (by decide +kernel) []
  have haccepted : (Image.imageValidate (undoBytes (digest 0) (digest 0))).toOption.isSome = true := by
    decide +kernel
  have hfound := hall _ _ _ (digest 0) 2 _ hverify hencode haccepted (rowOf_uses _ _).2 rfl rfl
  have himage : ImageOf (rowOf 1 2) (undoContracts (digest 0) (digest 0))
      ⟨_, Image.readTables (undoBytes (digest 0) (digest 0)), rfl, haccepted⟩ := ⟨hverify, hencode⟩
  rw [(himage.resolves (digest 0)).several 1 2 (by decide) (rowOf_uses _ _).1 ⟨_, rfl, rfl⟩
    (rowOf_uses _ _).2 ⟨_, rfl, rfl⟩] at hfound
  cases hfound

end GraphBuilder

end Hermas
