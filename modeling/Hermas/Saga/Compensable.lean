import Hermas.Saga.Recover

/-!
# Which sagas can be undone

The loader accepts only sagas whose steps are paired: behind every step is the region that
says what its compensation may return, and no node has two steps. What the loader does not
look at is how many steps there are. An image has room for twenty, a plan for sixteen, so
`load_steps` loads a saga exactly if it has at most `maxSteps` steps.

Of a saga that is loaded the plan can be built from what a run leaves behind: the facts in
the journal and the tokens in the store (`Run`, `TokenKept`).
-/

namespace Hermas.Image

/-! ## Steps and outcomes in an accepted image -/

section Regions

variable {bytes : Bytes} {tables : Tables} {classes : List NodeClass} {region : Region}
variable {state state' : RegionState}

/-- A region that is a step of a saga. -/
structure StepRead (state state' : RegionState) (region : Region) : Prop where
  fresh : state.sagaSourceType (region.readU16 2) = 0
  typed : state'.sagaSourceType (region.readU16 2) ≠ 0
  others : ∀ node, node ≠ region.readU16 2 → state'.sagaSourceType node = state.sagaSourceType node
  last : state'.lastSagaForward = region.readU16 2
  count : state'.sagaCount = state.sagaCount + 1
  outcomes : state'.sagaOutcomeCount = state.sagaOutcomeCount

/-- A region that says what a compensation may return. -/
structure OutcomeRead (state state' : RegionState) (region : Region) : Prop where
  forward : region.readU16 2 = state.lastSagaForward
  open_ : state.sagaCount = state.sagaOutcomeCount + 1
  count : state'.sagaCount = state.sagaCount
  outcomes : state'.sagaOutcomeCount = state.sagaOutcomeCount + 1
  same : state'.sagaSourceType = state.sagaSourceType

/-- A region of another kind; these stand in front of the saga. -/
structure OtherRead (state state' : RegionState) : Prop where
  none : state.sagaCount = 0
  count : state'.sagaCount = 0
  outcomes : state'.sagaOutcomeCount = state.sagaOutcomeCount
  same : state'.sagaSourceType = state.sagaSourceType

/-- **What a region does to the loader's view of the saga**, by its kind. -/
theorem validateRegion_saga (htypes : ∀ id, tables.containsType id = true → id ≠ 0)
    (h : validateRegion bytes tables classes state region = .ok state') :
    (region.readU8 0 = 3 ∧ StepRead state state' region) ∨
      (region.readU8 0 = 4 ∧ OutcomeRead state state' region) ∨
      (region.readU8 0 ≠ 3 ∧ region.readU8 0 ≠ 4 ∧ OtherRead state state') := by
  unfold validateRegion at h
  simp only at h
  split at h
  · rename_i hkind
    unfold validateDeadline at h
    simp only at h
    split at h
    · cases h
    · rename_i hchecks
      cases h
      simp only [not_or, not_not] at hchecks
      have hnone := hchecks.2.2.1
      exact .inr (.inr ⟨by rw [hkind]; decide, by rw [hkind]; decide, hnone, hnone, rfl, rfl⟩)
  split at h
  · rename_i hkind
    simp only [validateEach, bind_ok, pure_ok, require_ok] at h
    obtain ⟨⟨⟩, ⟨-, hnone⟩, ⟨⟩, -, rfl⟩ := h
    exact .inr (.inr ⟨by rw [hkind]; decide, by rw [hkind]; decide, hnone, hnone, rfl, rfl⟩)
  split at h
  · rename_i hkind
    simp only [validateSagaStep, bind_ok, pure_ok, require_ok] at h
    obtain ⟨⟨⟩, ⟨-, -, -, -, -, -, -, -, hfresh, hcompatible, -⟩, rfl⟩ := h
    refine .inl ⟨hkind, hfresh, ?_, fun node hnode => Function.update_of_ne hnode _ _, rfl, rfl, rfl⟩
    change Function.update state.sagaSourceType (region.readU16 2) (region.readU16 8)
      (region.readU16 2) ≠ 0
    rw [Function.update_self]
    cases hsource : tables.descriptor (region.readU16 8) with
    | none =>
        rw [hsource] at hcompatible
        cases hcompatible
    | some range => exact htypes _ (descriptor_contains hsource)
  split at h
  · rename_i hkind
    simp only [validateSagaOutcome, bind_ok, pure_ok, require_ok] at h
    obtain ⟨⟨⟩, ⟨-, -, -, -, hopen, hforward, -⟩, rfl⟩ := h
    exact .inr (.inl ⟨hkind, hforward, hopen, rfl, rfl, rfl⟩)
  · cases h

/-- No more outcomes than steps. -/
theorem outcomes_le (htypes : ∀ id, tables.containsType id = true → id ≠ 0) :
    ∀ (regions : List Region) {state state' : RegionState},
      regions.foldlM (validateRegion bytes tables classes) state = .ok state' →
        state.sagaOutcomeCount ≤ state.sagaCount → state'.sagaOutcomeCount ≤ state'.sagaCount := by
  intro regions
  induction regions with
  | nil =>
      intro state state' h hle
      cases h
      exact hle
  | cons region regions ih =>
      intro state state' h hle
      rw [List.foldlM_cons, bind_ok] at h
      obtain ⟨next, hregion, hrest⟩ := h
      refine ih hrest ?_
      rcases validateRegion_saga htypes hregion with ⟨-, hr⟩ | ⟨-, hr⟩ | ⟨-, -, hr⟩
      · rw [hr.count, hr.outcomes]
        omega
      · have := hr.open_
        rw [hr.count, hr.outcomes]
        omega
      · have := hr.none
        rw [hr.count, hr.outcomes]
        omega

/-- Two steps without an outcome in between are never made up for. -/
theorem unpaired_stays (htypes : ∀ id, tables.containsType id = true → id ≠ 0) :
    ∀ (regions : List Region) {state state' : RegionState},
      regions.foldlM (validateRegion bytes tables classes) state = .ok state' →
        state.sagaOutcomeCount + 2 ≤ state.sagaCount →
          state'.sagaOutcomeCount + 2 ≤ state'.sagaCount := by
  intro regions
  induction regions with
  | nil =>
      intro state state' h hle
      cases h
      exact hle
  | cons region regions ih =>
      intro state state' h hle
      rw [List.foldlM_cons, bind_ok] at h
      obtain ⟨next, hregion, hrest⟩ := h
      refine ih hrest ?_
      rcases validateRegion_saga htypes hregion with ⟨-, hr⟩ | ⟨-, hr⟩ | ⟨-, -, hr⟩
      · rw [hr.count, hr.outcomes]
        omega
      · have := hr.open_
        omega
      · have := hr.none
        omega

end Regions

/-- **Behind every step is its outcome.** -/
theorem sagaOutcome_next (image : Image) {before after : List Region} {region : Region}
    (hregions : image.tables.regions = before ++ region :: after) (hkind : region.readU8 0 = 3) :
    ∃ outcome rest, after = outcome :: rest ∧ outcome.readU8 0 = 4 ∧
      outcome.readU16 2 = region.readU16 2 := by
  obtain ⟨classes, regions, h⟩ := checked image
  have htypes : ∀ id, image.tables.containsType id = true → id ≠ 0 := fun id hid =>
    h.type_ne_zero hid
  have hfold := h.regionsOk
  rw [validateRegions, hregions, List.foldlM_append, bind_ok] at hfold
  obtain ⟨prior, hbefore, hfold⟩ := hfold
  rw [List.foldlM_cons, bind_ok] at hfold
  obtain ⟨next, hregion, hafter⟩ := hfold
  have hprior := outcomes_le htypes before hbefore (Nat.le_refl 0)
  rcases validateRegion_saga htypes hregion with ⟨-, hstep⟩ | ⟨hbad, -⟩ | ⟨hbad, -, -⟩
  swap
  · rw [hkind] at hbad
    cases hbad
  swap
  · exact absurd hkind hbad
  have hnext : next.sagaOutcomeCount + 1 ≤ next.sagaCount := by
    rw [hstep.count, hstep.outcomes]
    omega
  have hfinal : regions.sagaOutcomeCount = regions.sagaCount := by
    have htopology := h.topology
    simp only [validateTopology, bind_ok, require_ok] at htopology
    obtain ⟨⟨⟩, -, ⟨⟩, hsaga, -⟩ := htopology
    rcases hsaga with hzero | ⟨-, heq⟩
    · have := outcomes_le htypes after hafter (Nat.le_of_succ_le hnext)
      omega
    · exact heq
  cases after with
  | nil =>
      cases hafter
      omega
  | cons outcome rest =>
      rw [List.foldlM_cons, bind_ok] at hafter
      obtain ⟨behind, houtcome, hrest⟩ := hafter
      rcases validateRegion_saga htypes houtcome with ⟨-, hr⟩ | ⟨hfour, hr⟩ | ⟨-, -, hr⟩
      · -- a second step in a row
        have := unpaired_stays htypes rest hrest (by
          rw [hr.count, hr.outcomes]
          omega)
        omega
      · exact ⟨outcome, rest, rfl, hfour, hr.forward.trans hstep.last⟩
      · have := hr.none
        omega

/-- The nodes of the steps read so far have a type. -/
theorem sagaForward_typed {bytes : Bytes} {tables : Tables} {classes : List NodeClass}
    (htypes : ∀ id, tables.containsType id = true → id ≠ 0) (before : List Region) :
    ∀ {state : RegionState},
      before.foldlM (validateRegion bytes tables classes) {} = .ok state →
        (∀ region ∈ sagaRegions before, state.sagaSourceType (region.readU16 2) ≠ 0) ∧
          ((sagaRegions before).map (·.readU16 2)).Nodup := by
  induction before using List.reverseRecOn with
  | nil =>
      intro state _
      exact ⟨fun region hmem => (List.not_mem_nil hmem).elim, List.nodup_nil⟩
  | append_singleton before region ih =>
      intro state h
      rw [List.foldlM_append, bind_ok] at h
      obtain ⟨prior, hbefore, hregion⟩ := h
      rw [List.foldlM_cons, bind_ok] at hregion
      obtain ⟨next, hregion, hnext⟩ := hregion
      cases hnext
      obtain ⟨htyped, hnodup⟩ := ih hbefore
      rw [sagaRegions_snoc]
      rcases validateRegion_saga htypes hregion with ⟨hkind, hr⟩ | ⟨hkind, hr⟩ | ⟨hkind, -, hr⟩
      · rw [if_pos hkind]
        have hother : ∀ step ∈ sagaRegions before, step.readU16 2 ≠ region.readU16 2 :=
          fun step hstep heq => htyped step hstep (heq ▸ hr.fresh)
        refine ⟨fun step hstep => ?_, ?_⟩
        · rcases List.mem_append.mp hstep with hstep | hstep
          · rw [hr.others _ (hother step hstep)]
            exact htyped step hstep
          · rw [List.mem_singleton.mp hstep]
            exact hr.typed
        · rw [List.map_append]
          refine List.nodup_append.mpr ⟨hnodup, List.nodup_singleton _, ?_⟩
          intro node hnode last hlast heq
          obtain ⟨step, hstep, rfl⟩ := List.mem_map.mp hnode
          exact hother step hstep (heq.trans (List.mem_singleton.mp hlast))
      · rw [if_neg (by rw [hkind]; decide), hr.same]
        exact ⟨htyped, hnodup⟩
      · rw [if_neg hkind, hr.same]
        exact ⟨htyped, hnodup⟩

/-- **No node has two steps.** -/
theorem sagaForward_nodup (image : Image) :
    ((sagaRegions image.tables.regions).map (·.readU16 2)).Nodup := by
  obtain ⟨classes, regions, h⟩ := checked image
  exact (sagaForward_typed (fun id hid => h.type_ne_zero hid) _ h.regionsOk).2

end Hermas.Image

namespace Hermas.Saga

open Image (sagaRegions sagaOutcome_next sagaForward_nodup sagaRegion_ordinal)

/-! ## Loading -/

/-- The loop of `load_steps` stops nowhere if the ordinals fit into the plan. -/
theorem loadRegions_some (image : Image)
    (hbound : (sagaRegions image.tables.regions).length ≤ maxSteps) :
    ∀ {before rest : List Image.Region} {execution : Execution},
      image.tables.regions = before ++ rest →
        execution.stepCount ≠ 0 ∨ sagaRegions rest ≠ [] →
          ∃ execution', loadRegions rest execution = some execution'
  | before, [], execution, _, hsome => by
      have hcount := hsome.resolve_right (fun h => h rfl)
      exact ⟨execution, by rw [loadRegions, if_neg hcount]⟩
  | before, region :: rest, execution, hregions, hsome => by
      have hnext : image.tables.regions = (before ++ [region]) ++ rest := by
        rw [hregions, List.append_assoc]
        rfl
      by_cases hkind : region.readU8 0 = 3
      · obtain ⟨outcome, behind, rfl, hfour, hforward⟩ := sagaOutcome_next image hregions hkind
        have hordinal := sagaRegion_ordinal image hregions hkind
        have hlength : (sagaRegions before).length + 1 ≤ maxSteps := by
          refine le_trans ?_ hbound
          rw [hregions, sagaRegions, sagaRegions, List.filter_append, List.filter_cons_of_pos
            (by rw [hkind]; rfl), List.length_append, List.length_cons]
          omega
        have hne : region.readU16 12 ≠ 0 := fun hzero => by
          rw [hzero] at hordinal
          cases hordinal
        rw [loadRegions, if_neg (not_not.mpr hkind)]
        dsimp only
        rw [if_neg (by
          simp only [not_or, not_not]
          exact ⟨hne, by omega, hfour, hforward⟩)]
        exact loadRegions_some image hbound hnext (.inl (Nat.succ_ne_zero _))
      · rw [loadRegions, if_pos hkind]
        refine loadRegions_some image hbound hnext (hsome.imp_right fun h => ?_)
        rwa [sagaRegions, List.filter_cons_of_neg (by simpa using hkind)] at h

/-- **`load_steps` loads a saga exactly if its steps fit into a plan.** -/
theorem loadSteps_iff (image : Image) {execution : Execution} (hcount : execution.stepCount = 0)
    (hsaga : sagaRegions image.tables.regions ≠ []) :
    (∃ execution', loadSteps image execution = some execution' ∧
      Loaded image.tables.regions execution') ↔
        (sagaRegions image.tables.regions).length ≤ maxSteps := by
  refine ⟨fun ⟨execution', hload, hloaded⟩ => hloaded.count ▸ hloaded.bounded, fun hbound => ?_⟩
  obtain ⟨execution', hload⟩ : ∃ execution', loadRegions image.tables.regions execution =
      some execution' := loadRegions_some image hbound (List.nil_append _).symm (.inr hsaga)
  exact ⟨execution', hload, (loaded_loadSteps hcount hload).1⟩

/-! ## What a run leaves behind -/

/-- How far a run of a saga has got by its facts; so many steps have succeeded. -/
inductive RunPhase where
  | fresh
  | running (completed : Nat)
  | stopped (completed : Nat) (outcome : Outcome)
  | finished (completed : Nat) (outcome : Outcome)

/-- A fact about the step behind those that have succeeded. -/
def AtStep (image : Image) (completed : Nat) (record : Journal.Record) : Prop :=
  ∃ region, (sagaRegions image.tables.regions)[completed]? = some region ∧
    record.nodeId = region.readU16 2 ∧ record.appId = (image.node record.nodeId).app ∧
      record.actionId = (image.node record.nodeId).action

/-- The facts of a run that takes the steps by their ordinals and ends at the first failure. -/
inductive Proceeds (image : Image) : RunPhase → Journal.Record → RunPhase → Prop
  | started {r : Journal.Record} : r.kind = .executionStarted → Proceeds image .fresh r (.running 0)
  | delivery {r : Journal.Record} {n : Nat} : r.kind = .deliveryPrepared ∨ r.kind = .deliverySent →
      Proceeds image (.running n) r (.running n)
  | succeeded {r : Journal.Record} {n : Nat} : r.kind = .actionSucceeded → AtStep image n r →
      Proceeds image (.running n) r (.running (n + 1))
  | failed {r : Journal.Record} {n : Nat} : r.kind = .actionFailed → AtStep image n r →
      Proceeds image (.running n) r (.stopped n r.outcome)
  | finished {r : Journal.Record} {n : Nat} {outcome : Outcome} : r.kind = .executionFinished →
      r.outcome = outcome → Proceeds image (.stopped n outcome) r (.finished n outcome)

inductive Run (image : Image) : RunPhase → List Journal.Record → RunPhase → Prop
  | done {phase : RunPhase} : Run image phase [] phase
  | step {phase phase' phase'' : RunPhase} {r : Journal.Record} {rs : List Journal.Record} :
      Proceeds image phase r phase' → Run image phase' rs phase'' → Run image phase (r :: rs) phase''

/-- How many steps have succeeded. -/
def RunPhase.completed : RunPhase → Nat
  | .fresh => 0
  | .running n => n
  | .stopped n _ => n
  | .finished n _ => n

/-- The one token of a success is in the store, with what its step declares. -/
def TokenKept (image : Image) (stored : List Compensation.Record) (record : Journal.Record) : Prop :=
  ∀ region ∈ sagaRegions image.tables.regions, region.readU16 2 = record.nodeId →
    ∃ token, stored.filter (·.key = ⟨record.executionId, record.workflowId, record.requestId,
        record.nodeId, record.imageFingerprint⟩) = [token] ∧
      token.compensationAppId = region.readU16 4 ∧ token.compensationActionId = region.readU16 6 ∧
      token.sourceType = region.readU16 8 ∧ token.destinationType = region.readU16 10 ∧
      image.validateValue (region.readU16 10) token.token = true

/-- A run of a saga that has failed after at least one step, as the files have it. -/
structure FailedRun (image : Image) where
  executionId : UInt64
  workflowId : UInt32
  imageFingerprint : UInt64
  journal : Bytes
  tokens : Bytes
  completed : Nat
  outcome : Outcome
  execution_ne : executionId ≠ 0
  workflow_ne : workflowId ≠ 0
  journal_scanned : (Journal.scan journal).toOption.isSome = true
  tokens_scanned : (Compensation.scan tokens).toOption.isSome = true
  run : Run image .fresh (Journal.recordsOf (Journal.journalRecords journal) executionId)
    (.finished completed outcome)
  owned : ∀ r ∈ Journal.recordsOf (Journal.journalRecords journal) executionId,
    r.workflowId = workflowId ∧ r.imageFingerprint = imageFingerprint
  completed_ne : completed ≠ 0
  failed : outcome = .appError ∨ outcome = .notSent
  /-- The requests have not run out. -/
  numbered : ∀ r ∈ Journal.recordsOf (Journal.journalRecords journal) executionId,
    r.requestId < uint64Max
  kept : ∀ r ∈ Journal.recordsOf (Journal.journalRecords journal) executionId,
    r.kind = .actionSucceeded → TokenKept image (Compensation.records tokens) r

namespace FailedRun

variable {image : Image} (run : FailedRun image)

/-- The facts of the run. -/
def facts : List Journal.Record :=
  Journal.recordsOf (Journal.journalRecords run.journal) run.executionId

/-- The requests of the steps that have succeeded, by their ordinals. -/
def requests (i : Fin maxSteps) : UInt64 :=
  ((run.facts.filter (·.kind = .actionSucceeded))[i.val]?).elim 0 (·.requestId)

end FailedRun

/-! ## Recovering from the facts -/

section Replay

variable {image : Image} {origin : Execution} {recovery : Recovery} {phase phase' : RunPhase}
variable {record : Journal.Record}

/-- Where the recovery stands when it has walked the facts up to a phase. -/
def InPhase (recovery : Recovery) : RunPhase → Prop
  | .fresh => recovery.started = false ∧ recovery.finished = false ∧
      recovery.terminalAction = false ∧ recovery.execution.remaining = 0
  | .running n => recovery.started = true ∧ recovery.finished = false ∧
      recovery.terminalAction = false ∧ recovery.execution.remaining = n
  | .stopped n o => recovery.started = true ∧ recovery.finished = false ∧
      recovery.terminalAction = true ∧ recovery.execution.remaining = n ∧
      recovery.execution.originalOutcome = o
  | .finished n o => recovery.started = true ∧ recovery.finished = true ∧
      recovery.terminalAction = true ∧ recovery.execution.remaining = n ∧
      recovery.execution.originalOutcome = o

/-- What the recovery does not change: whose execution it is and what the steps declare. -/
structure Steady (origin : Execution) (recovery : Recovery) : Prop where
  executionId : recovery.execution.executionId = origin.executionId
  workflowId : recovery.execution.workflowId = origin.workflowId
  imageFingerprint : recovery.execution.imageFingerprint = origin.imageFingerprint
  stepCount : recovery.execution.stepCount = origin.stepCount
  steps : ∀ i, (recovery.execution.steps i).declaration = (origin.steps i).declaration
  /-- No step that is to come has a request. -/
  open_ : ∀ i, recovery.execution.remaining ≤ i.val →
    (recovery.execution.steps i).forwardRequestId = 0
  numbered : recovery.largestRequest < uint64Max

theorem Loaded.forward_injective (h : Loaded image.tables.regions origin) {i j : Fin maxSteps}
    (hi : i.val < origin.stepCount) (hj : j.val < origin.stepCount)
    (hsame : (origin.steps i).forwardNode = (origin.steps j).forwardNode) : i = j := by
  rw [h.count] at hi hj
  rw [(h.declared i _ (List.getElem?_eq_getElem hi)).1.forwardNode,
    (h.declared j _ (List.getElem?_eq_getElem hj)).1.forwardNode] at hsame
  have hinj := @List.Nodup.getElem_inj_iff _ _ (sagaForward_nodup image) i.val
    (by rwa [List.length_map]) j.val (by rwa [List.length_map])
  rw [List.getElem_map, List.getElem_map] at hinj
  exact Fin.ext (hinj.mp hsame)

/-- The step of a fact is the one behind those that have succeeded. -/
theorem nextStep_eq (hloaded : Loaded image.tables.regions origin) (h : Steady origin recovery)
    {n : Nat} (hremaining : recovery.execution.remaining = n)
    (hterminal : recovery.terminalAction = false) (hat : AtStep image n record) :
    ∃ i : Fin maxSteps, i.val = n ∧ n < origin.stepCount ∧
      nextStep image recovery record = some i := by
  obtain ⟨region, hregion, hnode, happ, haction⟩ := hat
  have hn : n < origin.stepCount := hloaded.count ▸ (List.getElem?_eq_some_iff.mp hregion).1
  have hsize : n < maxSteps := hn.trans_le hloaded.bounded
  have hforward : ∀ j, (recovery.execution.steps j).forwardNode = (origin.steps j).forwardNode :=
    fun j => by
      have hsame := congrArg Step.forwardNode (h.steps j)
      exact hsame
  obtain ⟨hdeclared, hordinal⟩ := hloaded.declared ⟨n, hsize⟩ region hregion
  have hfind : findStep recovery.execution record.nodeId = some ⟨n, hsize⟩ := by
    cases hcase : findStep recovery.execution record.nodeId with
    | none =>
        have hnone := List.find?_eq_none.mp hcase ⟨n, hsize⟩
          (finRange_take_mem (h.stepCount ▸ hn) _ rfl)
        rw [hforward, hdeclared.forwardNode, hnode] at hnone
        simp at hnone
    | some j =>
        obtain ⟨hj, hjnode⟩ := findStep_some hcase
        rw [hforward] at hjnode
        rw [hloaded.forward_injective (h.stepCount ▸ hj) hn
          (hjnode.trans (hnode.trans hdeclared.forwardNode.symm))]
  have hordinal' : (recovery.execution.steps ⟨n, hsize⟩).ordinal.toNat = n + 1 :=
    (congrArg (fun step => step.ordinal.toNat) (h.steps ⟨n, hsize⟩)).trans hordinal
  refine ⟨⟨n, hsize⟩, rfl, hn, ?_⟩
  have hroute : forwardRouteMatches image (recovery.execution.steps ⟨n, hsize⟩) record = true := by
    rw [forwardRouteMatches, hforward, hdeclared.forwardNode, ← hnode, happ, haction, beq_self_eq_true,
      beq_self_eq_true]
    rfl
  rw [nextStep, hfind]
  dsimp only
  rw [if_neg]
  rintro (hbad | hbad | hbad)
  · rw [hterminal] at hbad
    cases hbad
  · exact hbad (hordinal'.trans (congrArg (· + 1) hremaining.symm))
  · exact hbad hroute

theorem Steady.note (h : Steady origin recovery) (hnumbered : record.requestId < uint64Max) :
    Steady origin (recovery.note record) := by
  refine ⟨h.executionId, h.workflowId, h.imageFingerprint, h.stepCount, h.steps, h.open_, ?_⟩
  rw [Recovery.note]
  dsimp only
  split_ifs
  · exact hnumbered
  · exact h.numbered

/-- **One fact of a run moves the recovery on.** -/
theorem recoverRecord_proceeds (hloaded : Loaded image.tables.regions origin)
    (hsteady : Steady origin recovery) (hphase : InPhase recovery phase)
    (hstep : Proceeds image phase record phase') (hid : record.executionId = origin.executionId)
    (hworkflow : record.workflowId = origin.workflowId)
    (hfingerprint : record.imageFingerprint = origin.imageFingerprint)
    (hnumbered : record.requestId < uint64Max) :
    ∃ recovery', recoverRecord image recovery record = .ok recovery' ∧
      Steady origin recovery' ∧ InPhase recovery' phase' := by
  have hours : ¬ record.executionId ≠ recovery.execution.executionId := by
    rw [hsteady.executionId]
    exact not_not.mpr hid
  have hsame : ¬ (record.workflowId ≠ recovery.execution.workflowId ∨
      record.imageFingerprint ≠ recovery.execution.imageFingerprint) := by
    rw [hsteady.workflowId, hsteady.imageFingerprint, hworkflow, hfingerprint]
    simp
  have hnote := hsteady.note hnumbered
  rw [recoverRecord, if_neg hours, if_neg hsame]
  cases hstep with
  | started hkind =>
      obtain ⟨hstarted, hfinished, hterminal, hremaining⟩ := hphase
      rw [if_pos hkind, if_neg (by rw [hstarted]; decide)]
      exact ⟨_, rfl, ⟨hsteady.executionId, hsteady.workflowId, hsteady.imageFingerprint,
        hsteady.stepCount, hsteady.steps, hsteady.open_, hsteady.numbered⟩, rfl, hfinished, hterminal, hremaining⟩
  | delivery hkind =>
      obtain ⟨hstarted, hfinished, hterminal, hremaining⟩ := hphase
      rw [if_neg (by rcases hkind with hkind | hkind <;> rw [hkind] <;> decide),
        if_neg (by rw [hstarted, hfinished]; decide)]
      refine ⟨recovery.note record, ?_, hnote, hstarted, hfinished, hterminal, hremaining⟩
      rcases hkind with hkind | hkind <;> rw [recoverKnown, hkind] <;> rfl
  | @succeeded _ n hkind hat =>
      obtain ⟨hstarted, hfinished, hterminal, hremaining⟩ := hphase
      rw [if_neg (by rw [hkind]; decide), if_neg (by rw [hstarted, hfinished]; decide)]
      change ∃ recovery', recoverKnown image (recovery.note record) record = .ok recovery' ∧ _
      obtain ⟨i, hi, -, hnext⟩ := nextStep_eq hloaded hnote hremaining hterminal hat
      have hunused : ((recovery.note record).execution.steps i).forwardRequestId = 0 :=
        hnote.open_ i (by rw [note_execution, hremaining, hi])
      let execution := (recovery.note record).execution
      refine ⟨{ recovery.note record with execution := { execution with
          steps := Function.update execution.steps i
            { execution.steps i with forwardRequestId := record.requestId }
          remaining := execution.remaining + 1 } }, ?_,
        ⟨hnote.executionId, hnote.workflowId, hnote.imageFingerprint, hnote.stepCount,
          fun j => ?_, fun j hj => ?_, hnote.numbered⟩, hstarted, hfinished, hterminal,
        congrArg (· + 1) hremaining⟩
      · rw [recoverKnown, hkind]
        dsimp only
        rw [recoverSucceeded, hnext]
        dsimp only
        rw [if_neg (not_not.mpr hunused)]
      · -- the request of a step is no part of its declaration
        rw [← hnote.steps j]
        dsimp only
        by_cases hji : j = i
        · subst hji
          rw [Function.update_self]
          rfl
        · rw [Function.update_of_ne hji]
      · have hne : j ≠ i := by
          rintro rfl
          have hbehind : execution.remaining + 1 ≤ j.val := hj
          have hsame : execution.remaining = n := hremaining
          omega
        dsimp only at hj ⊢
        rw [Function.update_of_ne hne]
        exact hnote.open_ j (Nat.le_of_succ_le hj)
  | @failed _ n hkind hat =>
      obtain ⟨hstarted, hfinished, hterminal, hremaining⟩ := hphase
      rw [if_neg (by rw [hkind]; decide), if_neg (by rw [hstarted, hfinished]; decide)]
      change ∃ recovery', recoverKnown image (recovery.note record) record = .ok recovery' ∧ _
      obtain ⟨i, -, -, hnext⟩ := nextStep_eq hloaded hnote hremaining hterminal hat
      refine ⟨{ recovery.note record with
          terminalAction := true
          execution := { (recovery.note record).execution with
            originalOutcome := record.outcome } }, ?_,
        ⟨hnote.executionId, hnote.workflowId, hnote.imageFingerprint, hnote.stepCount,
          hnote.steps, hnote.open_, hnote.numbered⟩, hstarted, hfinished, rfl, hremaining, rfl⟩
      rw [recoverKnown, hkind]
      dsimp only
      rw [recoverFailed, hnext]
  | @finished _ n outcome hkind hsame =>
      obtain ⟨hstarted, hfinished, hterminal, hremaining, houtcome⟩ := hphase
      rw [if_neg (by rw [hkind]; decide), if_neg (by rw [hstarted, hfinished]; decide)]
      change ∃ recovery', recoverKnown image (recovery.note record) record = .ok recovery' ∧ _
      refine ⟨{ recovery.note record with
          finished := true
          execution := { (recovery.note record).execution with
            originalOutcome := record.outcome } }, ?_,
        ⟨hnote.executionId, hnote.workflowId, hnote.imageFingerprint, hnote.stepCount,
          hnote.steps, hnote.open_, hnote.numbered⟩, hstarted, rfl, hterminal, hremaining, hsame⟩
      rw [recoverKnown, hkind]
      dsimp only
      rw [recoverFinished, if_neg]
      rintro ⟨-, hbad | hbad⟩
      · exact hbad hterminal
      · exact hbad (houtcome.trans hsame.symm)

/-- **The facts of a run are walked without a complaint**, whatever stands between them. -/
theorem recoverRecords_run (hloaded : Loaded image.tables.regions origin)
    {phase' : RunPhase} : ∀ (records : List Journal.Record) {recovery : Recovery} {phase : RunPhase},
      Steady origin recovery → InPhase recovery phase →
        Run image phase (Journal.recordsOf records origin.executionId) phase' →
          (∀ r ∈ Journal.recordsOf records origin.executionId, r.workflowId = origin.workflowId ∧
            r.imageFingerprint = origin.imageFingerprint ∧ r.requestId < uint64Max) →
          ∃ recovery', records.foldlM (recoverRecord image) recovery = .ok recovery' ∧
            Steady origin recovery' ∧ InPhase recovery' phase'
  | [], recovery, phase, hsteady, hphase, hrun, _ => by
      cases hrun
      exact ⟨recovery, rfl, hsteady, hphase⟩
  | record :: records, recovery, phase, hsteady, hphase, hrun, howned => by
      rw [List.foldlM_cons]
      by_cases hid : record.executionId = origin.executionId
      · have hours : Journal.recordsOf (record :: records) origin.executionId =
            record :: Journal.recordsOf records origin.executionId :=
          List.filter_cons_of_pos (by simpa using hid)
        rw [hours] at hrun howned
        obtain ⟨⟨hworkflow, hfingerprint, hnumbered⟩, howned⟩ := List.forall_mem_cons.mp howned
        cases hrun with
        | step hproceeds hrest =>
            obtain ⟨next, hrecord, hsteady, hphase⟩ := recoverRecord_proceeds hloaded hsteady hphase
              hproceeds hid hworkflow hfingerprint hnumbered
            obtain ⟨recovery', hrecords, hdone⟩ := recoverRecords_run hloaded records hsteady hphase
              hrest howned
            exact ⟨recovery', by rw [hrecord]; exact hrecords, hdone⟩
      · have hothers : Journal.recordsOf (record :: records) origin.executionId =
            Journal.recordsOf records origin.executionId :=
          List.filter_cons_of_neg (by simpa using hid)
        rw [hothers] at hrun howned
        have hskip : recoverRecord image recovery record = .ok recovery := by
          rw [recoverRecord]
          exact if_pos (by rw [hsteady.executionId]; exact hid)
        obtain ⟨recovery', hrecords, hdone⟩ := recoverRecords_run hloaded records hsteady hphase
          hrun howned
        exact ⟨recovery', by rw [hskip]; exact hrecords, hdone⟩

end Replay

/-- The successes of a run are those of the steps from where it started on. -/
theorem run_successes {image : Image} {phase phase' : RunPhase} {records : List Journal.Record}
    (h : Run image phase records phase') :
    phase'.completed = phase.completed + (records.filter (·.kind = .actionSucceeded)).length ∧
      ∀ k r, (records.filter (·.kind = .actionSucceeded))[k]? = some r →
        AtStep image (phase.completed + k) r := by
  induction h with
  | done => exact ⟨rfl, fun k r hr => by cases hr⟩
  | @step _ _ _ r rs hproceeds _ ih =>
      obtain ⟨hcompleted, hsteps⟩ := ih
      cases hproceeds with
      | started hkind =>
          rw [List.filter_cons_of_neg (by rw [hkind]; decide)]
          exact ⟨hcompleted, hsteps⟩
      | delivery hkind =>
          rw [List.filter_cons_of_neg (by rcases hkind with hkind | hkind <;> rw [hkind] <;> decide)]
          exact ⟨hcompleted, hsteps⟩
      | failed hkind _ =>
          rw [List.filter_cons_of_neg (by rw [hkind]; decide)]
          exact ⟨hcompleted, hsteps⟩
      | finished hkind _ =>
          rw [List.filter_cons_of_neg (by rw [hkind]; decide)]
          exact ⟨hcompleted, hsteps⟩
      | @succeeded _ n hkind hat =>
          rw [List.filter_cons_of_pos (by rw [hkind]; rfl)]
          refine ⟨?_, fun k found hfound => ?_⟩
          · rw [hcompleted, List.length_cons]
            change n + 1 + _ = n + (_ + 1)
            omega
          · cases k with
            | zero =>
                cases hfound
                exact hat
            | succ k =>
                have hrest := hsteps k found hfound
                change AtStep image (n + 1 + k) found at hrest
                rwa [Nat.add_right_comm] at hrest

theorem forM_ok {α ε β : Type} {f : α → Except ε β} {xs : List α}
    (h : ∀ x ∈ xs, ∃ b, f x = .ok b) : (xs.forM fun x => (f x).map fun _ => ()) = .ok () := by
  induction xs with
  | nil => rfl
  | cons x xs ih =>
      obtain ⟨⟨b, hb⟩, hrest⟩ := List.forall_mem_cons.mp h
      change ((f x).map fun _ => ()) >>= (fun _ => xs.forM fun x => (f x).map fun _ => ()) = _
      rw [hb]
      exact ih hrest

/-! ## Beginning at once -/

/-- A token is kept for an execution, whatever its plan has come to. -/
theorem HasToken.of_key {image : Image} {stored : List Compensation.Record}
    {execution execution' : Execution} {step : Step} {token : Compensation.Record}
    (h : HasToken image stored execution step token)
    (hkey : execution'.tokenKey step = execution.tokenKey step) :
    HasToken image stored execution' step token :=
  ⟨hkey ▸ h.only, h.compensationAppId, h.compensationActionId, h.sourceType, h.destinationType,
    h.canonical⟩

/-- **The token that a store keeps for a step is the one that the plan finds.** -/
theorem validateToken_kept {image : Image} {store : Bytes} {execution : Execution} {step : Step}
    {token : Compensation.Record} (hscan : (Compensation.scan store).toOption.isSome = true)
    (h : HasToken image (Compensation.records store) execution step token) :
    validateToken image store execution step Protocol.maxPayloadSize = .ok token := by
  have hfind := Compensation.find_scanned hscan h.only
  rw [Execution.tokenKey] at hfind
  rw [validateToken, hfind]
  dsimp only
  rw [if_neg]
  simp only [not_or, not_not]
  exact ⟨h.compensationAppId, h.compensationActionId, h.sourceType, h.destinationType, h.canonical⟩

/-- The rounds of `hermas_saga_begin_live` go through if every step has its request and its
token. -/
theorem beginSteps_ok {image : Image} {store : Bytes} {ids : Fin maxSteps → UInt64}
    (hscan : (Compensation.scan store).toOption.isSome = true) :
    ∀ (indices : List (Fin maxSteps)) {execution : Execution},
      (∀ i ∈ indices, ids i ≠ 0 ∧ ids i < execution.nextRequestId ∧
        ∃ token, HasToken image (Compensation.records store) execution
          { execution.steps i with forwardRequestId := ids i } token) →
        ∃ execution', indices.foldlM (beginStep image store ids) execution = .ok execution' ∧
          execution'.remaining = execution.remaining
  | [], execution, _ => ⟨execution, rfl, rfl⟩
  | i :: indices, execution, h => by
      obtain ⟨⟨hrequest, hfresh, token, htoken⟩, hrest⟩ := List.forall_mem_cons.mp h
      have hround : beginStep image store ids execution i = .ok { execution with
          steps := Function.update execution.steps i
            { execution.steps i with forwardRequestId := ids i } } := by
        rw [beginStep, if_neg (by
          simp only [not_or, UInt64.not_le]
          exact ⟨hrequest, hfresh⟩)]
        have hkept : HasToken image (Compensation.records store)
            { execution with
              steps := Function.update execution.steps i
                { execution.steps i with forwardRequestId := ids i } }
            { execution.steps i with forwardRequestId := ids i } token := htoken.of_key rfl
        have hvalid := validateToken_kept hscan hkept
        dsimp only at hvalid ⊢
        rw [Function.update_self, hvalid]
        rfl
      rw [List.foldlM_cons, hround]
      refine beginSteps_ok hscan indices fun j hj => ?_
      obtain ⟨hrequest, hfresh, token, htoken⟩ := hrest j hj
      refine ⟨hrequest, hfresh, token, ?_⟩
      have hsame : ({ Function.update execution.steps i
          { execution.steps i with forwardRequestId := ids i } j with
            forwardRequestId := ids j } : Step) =
              { execution.steps j with forwardRequestId := ids j } := by
        by_cases hji : j = i
        · rw [hji, Function.update_self]
        · rw [Function.update_of_ne hji]
      dsimp only at hsame ⊢
      rw [hsame]
      exact htoken.of_key rfl

namespace FailedRun

variable {image : Image} (run : FailedRun image) {origin : Execution} {nextRequestId : UInt64}

/-- Every step that has succeeded has its fact, its request and its token. -/
theorem step_kept (hloaded : Loaded image.tables.regions origin)
    (hexecution : origin.executionId = run.executionId) (hworkflow : origin.workflowId = run.workflowId)
    (hfingerprint : origin.imageFingerprint = run.imageFingerprint) {i : Fin maxSteps}
    (hi : i.val < run.completed) :
    (∃ r ∈ run.facts, r.kind = .actionSucceeded ∧ r.requestId = run.requests i) ∧
      ∃ token, HasToken image (Compensation.records run.tokens) origin
        { origin.steps i with forwardRequestId := run.requests i } token := by
  obtain ⟨hcompleted, hsteps⟩ := run_successes run.run
  change run.completed = 0 + (run.facts.filter (·.kind = .actionSucceeded)).length at hcompleted
  rw [Nat.zero_add] at hcompleted
  obtain ⟨r, hr⟩ : ∃ r, (run.facts.filter (·.kind = .actionSucceeded))[i.val]? = some r :=
    ⟨_, List.getElem?_eq_getElem (hcompleted ▸ hi)⟩
  have hrequest : run.requests i = r.requestId := by
    rw [requests, hr]
    rfl
  obtain ⟨hmem, hkind⟩ := List.mem_filter.mp (List.mem_of_getElem? hr)
  have hkind : r.kind = .actionSucceeded := by simpa using hkind
  obtain ⟨region, hregion, hnode, -, -⟩ := hsteps i.val r hr
  change (sagaRegions image.tables.regions)[0 + i.val]? = some region at hregion
  rw [Nat.zero_add] at hregion
  obtain ⟨hdeclared, -⟩ := hloaded.declared i region hregion
  obtain ⟨token, honly, happ, haction, hsource, hdestination, hvalue⟩ :=
    run.kept r hmem hkind region (List.mem_of_getElem? hregion) hnode.symm
  obtain ⟨hourWorkflow, hourFingerprint⟩ := run.owned r hmem
  have hourExecution : r.executionId = run.executionId := by
    simpa using (List.mem_filter.mp hmem).2
  refine ⟨⟨r, hmem, hkind, hrequest.symm⟩, token, ?_, ?_, ?_, ?_, ?_, ?_⟩
  · rw [Execution.tokenKey, hrequest, hexecution, hworkflow, hfingerprint, ← hourExecution,
      ← hourWorkflow, ← hourFingerprint, hdeclared.forwardNode, ← hnode]
    exact honly
  · exact happ.trans hdeclared.compensationAppId.symm
  · exact haction.trans hdeclared.compensationActionId.symm
  · exact hsource.trans hdeclared.sourceType.symm
  · exact hdestination.trans hdeclared.destinationType.symm
  · change image.validateValue (origin.steps i).destinationType token.token = true
    rw [hdeclared.destinationType]
    exact hvalue

/-- The request of a step that has succeeded is no request to come. -/
theorem requests_lt (hloaded : Loaded image.tables.regions origin)
    (hexecution : origin.executionId = run.executionId) (hworkflow : origin.workflowId = run.workflowId)
    (hfingerprint : origin.imageFingerprint = run.imageFingerprint) {nextRequestId : UInt64}
    (hnext : ∀ r ∈ run.facts, r.requestId < nextRequestId) {i : Fin maxSteps}
    (hi : i.val < run.completed) : run.requests i ≠ 0 ∧ run.requests i < nextRequestId := by
  obtain ⟨⟨r, hmem, hkind, hrequest⟩, -⟩ :=
    run.step_kept hloaded hexecution hworkflow hfingerprint hi
  rw [← hrequest]
  refine ⟨?_, hnext r hmem⟩
  have hvalid := Journal.journalRecords_valid r (List.mem_filter.mp hmem).1
  unfold Journal.validateRecord at hvalid
  split_ifs at hvalid with _ _ hnamed
  exact fun hzero => hnamed ⟨by rw [hkind]; decide, .inl hzero⟩

theorem completed_le (hloaded : Loaded image.tables.regions origin) :
    run.completed ≤ origin.stepCount := by
  obtain ⟨hcompleted, hsteps⟩ := run_successes run.run
  change run.completed = 0 + (run.facts.filter (·.kind = .actionSucceeded)).length at hcompleted
  by_contra hlt
  obtain ⟨r, hr⟩ : ∃ r, (run.facts.filter (·.kind = .actionSucceeded))[origin.stepCount]? = some r :=
    ⟨_, List.getElem?_eq_getElem (by omega)⟩
  obtain ⟨region, hregion, -⟩ := hsteps _ r hr
  have hinside := (List.getElem?_eq_some_iff.mp hregion).1
  have hcount := hloaded.count
  change 0 + origin.stepCount < _ at hinside
  omega

/-- **The plan of a failed run can be begun at once**, with every request id that is still free. -/
theorem begun (hload : loadSteps image
      { executionId := run.executionId, workflowId := run.workflowId,
        imageFingerprint := run.imageFingerprint, originalOutcome := run.outcome,
        nextRequestId := nextRequestId } = some origin)
    (hnext : ∀ r ∈ run.facts, r.requestId < nextRequestId) (hmax : nextRequestId ≠ uint64Max) :
    ∃ plan, beginLive image run.tokens run.imageFingerprint run.executionId run.workflowId
      run.outcome run.requests run.completed nextRequestId = .ok plan ∧
        plan.remaining = run.completed := by
  obtain ⟨hloaded, -, hsame⟩ := loaded_loadSteps rfl hload
  have hcompleted := run.completed_le hloaded
  have hbounded := hloaded.bounded
  have hrequests := fun {i : Fin maxSteps} (hi : i.val < run.completed) =>
    run.requests_lt hloaded hsame.executionId hsame.workflowId hsame.imageFingerprint hnext hi
  have hzero : nextRequestId ≠ 0 := by
    rintro rfl
    have hfirst := @hrequests ⟨0, by decide⟩ (Nat.pos_of_ne_zero run.completed_ne)
    exact absurd hfirst.2 (UInt64.not_lt.mpr UInt64.zero_le)
  let begun : Execution :=
    { origin with remaining := run.completed, completedSteps := run.completed }
  have hkept : ∀ i ∈ (List.finRange maxSteps).take run.completed,
      run.requests i ≠ 0 ∧ run.requests i < begun.nextRequestId ∧
        ∃ token, HasToken image (Compensation.records run.tokens) begun
          { begun.steps i with forwardRequestId := run.requests i } token := by
    intro i hi
    change _ ∧ _ < origin.nextRequestId ∧ _
    have hlt := finRange_take_lt hi
    obtain ⟨hne, hfresh⟩ := hrequests hlt
    obtain ⟨-, token, htoken⟩ := run.step_kept hloaded hsame.executionId hsame.workflowId
      hsame.imageFingerprint hlt
    rw [hsame.nextRequestId]
    exact ⟨hne, hfresh, token, htoken.of_key rfl⟩
  obtain ⟨execution', hrounds, hremaining⟩ := beginSteps_ok run.tokens_scanned
    ((List.finRange maxSteps).take run.completed) hkept
  refine ⟨{ execution' with state := .ready }, ?_, hremaining⟩
  rw [beginLive, if_neg]
  swap
  · simp only [not_or, not_and, not_not]
    refine ⟨run.execution_ne, run.workflow_ne, run.completed_ne, by omega, hzero, hmax,
      fun hne => run.failed.resolve_left hne⟩
  rw [hload]
  dsimp only
  rw [if_neg (by omega), hrounds]
  rfl

/-- **The plan of a failed run can be recovered from its files.** -/
theorem recovered (hload : loadSteps image
      { executionId := run.executionId, workflowId := run.workflowId,
        imageFingerprint := run.imageFingerprint } = some origin) :
    ∃ plan, recover image run.imageFingerprint run.journal run.tokens run.executionId
      run.workflowId = .ok plan ∧ plan.state = .ready ∧ plan.remaining = run.completed := by
  obtain ⟨hloaded, -, hsame⟩ := loaded_loadSteps rfl hload
  have hfacts : Journal.recordsOf (Journal.journalRecords run.journal) origin.executionId =
      run.facts := by rw [hsame.executionId]; rfl
  have hinit : Steady origin { execution := origin } := by
    refine ⟨rfl, rfl, rfl, rfl, fun _ => rfl, fun i _ => hsame.forward i, ?_⟩
    change (0 : UInt64) < uint64Max
    decide
  have hfresh : InPhase { execution := origin } .fresh := ⟨rfl, rfl, rfl, hsame.remaining⟩
  obtain ⟨recovery, hrecords, hsteady, hphase⟩ := recoverRecords_run hloaded
    (Journal.journalRecords run.journal) hinit hfresh (by rw [hfacts]; exact run.run) (by
      rw [hfacts, hsame.workflowId, hsame.imageFingerprint]
      exact fun r hr => ⟨(run.owned r hr).1, (run.owned r hr).2, run.numbered r hr⟩)
  obtain ⟨hstarted, hfinished, -, hremaining, houtcome⟩ := hphase
  have hnone : Recovers image origin (Journal.recordsOf [] origin.executionId)
      { execution := origin } := recovers_init image origin hsame.remaining
  have hrecovers := recovers_records (fun i hi => hloaded.ordinal hi) _
    Journal.journalRecords_valid hnone hrecords
  rw [List.nil_append, hfacts] at hrecovers
  have hcompleted := run.completed_le hloaded
  have hbounded := hloaded.bounded
  -- what the recovery has filled in are the requests of the run
  have hsteps : ∀ i : Fin maxSteps, i.val < run.completed → recovery.execution.steps i =
      { origin.steps i with forwardRequestId := run.requests i } := by
    intro i hi
    have hsucceeded := congrArg (fun pairs => pairs[i.val]?) hrecovers.succeeded
    rw [hremaining, List.getElem?_map, List.getElem?_map, List.getElem?_range hi] at hsucceeded
    obtain ⟨r, hr, hpair⟩ := Option.map_eq_some_iff.mp hsucceeded
    have hrequest : run.requests i = r.requestId := by
      rw [requests, hr]
      rfl
    have hindex : recovery.execution.step (i.val + 1) = recovery.execution.steps i := by
      rw [Execution.step, Nat.add_sub_cancel, Fin.ofNat_val_eq_self]
    have hdeclaration := hsteady.steps i
    dsimp only at hpair
    rw [hindex] at hpair
    rw [hrequest, (Prod.mk.inj hpair).2]
    exact congrArg (fun step : Step =>
      { step with forwardRequestId := (recovery.execution.steps i).forwardRequestId }) hdeclaration
  have htokens : ∀ i ∈ (List.finRange maxSteps).take recovery.execution.remaining,
      ∃ token, validateToken image run.tokens { recovery.execution with
          completedSteps := recovery.execution.remaining
          nextRequestId := recovery.largestRequest + 1 } (recovery.execution.steps i)
        Protocol.maxPayloadSize = .ok token := by
    intro i hi
    rw [hremaining] at hi
    have hlt := finRange_take_lt hi
    obtain ⟨-, token, htoken⟩ := run.step_kept hloaded hsame.executionId hsame.workflowId
      hsame.imageFingerprint hlt
    rw [hsteps i hlt]
    refine ⟨token, validateToken_kept run.tokens_scanned (htoken.of_key ?_)⟩
    rw [Execution.tokenKey, Execution.tokenKey]
    dsimp only
    rw [hsteady.executionId, hsteady.workflowId, hsteady.imageFingerprint]
  refine ⟨{ recovery.execution with
    completedSteps := recovery.execution.remaining
    nextRequestId := recovery.largestRequest + 1
    state := .ready }, ?_, rfl, hremaining⟩
  rw [recover, if_neg (by
      rw [not_or]
      exact ⟨run.execution_ne, run.workflow_ne⟩),
    if_neg (not_not.mpr run.journal_scanned), if_neg (not_not.mpr run.tokens_scanned), hload]
  dsimp only
  rw [hrecords]
  change recoverPlan image run.tokens recovery = _
  have hmax : recovery.largestRequest ≠ uint64Max := fun heq =>
    UInt64.lt_irrefl _ (heq ▸ hsteady.numbered)
  rw [recoverPlan]
  dsimp only
  have hknown : ¬ (¬ recovery.started ∨ ¬ recovery.finished ∨
      recovery.largestRequest = uint64Max) := by
    rw [hstarted, hfinished]
    simpa using hmax
  have hfailed := run.failed
  rw [← houtcome] at hfailed
  rw [if_neg hknown, if_neg, if_neg, if_neg, forM_ok htokens]
  · rw [hremaining]
    dsimp only [Except.map]
    rw [if_neg run.completed_ne]
  · exact fun hother => hother.1 (hfailed.resolve_right hother.2)
  · intro hsuccess
    rw [hsuccess] at hfailed
    rcases hfailed with hfailed | hfailed <;> cases hfailed
  · intro hunknown
    rw [hunknown] at hfailed
    rcases hfailed with hfailed | hfailed <;> cases hfailed

end FailedRun

/-! ## The limit -/

/-- The steps of a saga are loaded, all of them, and of every run that fails behind its first step
the plan can be built, from the files and at once. -/
structure Compensable (image : Image) : Prop where
  loads : ∀ execution : Execution, execution.stepCount = 0 →
    ∃ execution', loadSteps image execution = some execution' ∧
      Loaded image.tables.regions execution'
  recovers : ∀ run : FailedRun image, ∃ plan, recover image run.imageFingerprint run.journal
    run.tokens run.executionId run.workflowId = .ok plan ∧ plan.state = .ready ∧
      plan.remaining = run.completed
  begins : ∀ (run : FailedRun image) (nextRequestId : UInt64),
    (∀ r ∈ run.facts, r.requestId < nextRequestId) → nextRequestId ≠ uint64Max →
      ∃ plan, beginLive image run.tokens run.imageFingerprint run.executionId run.workflowId
        run.outcome run.requests run.completed nextRequestId = .ok plan ∧
          plan.remaining = run.completed

/-- **An accepted saga can be undone exactly if its steps fit into a plan.** -/
theorem compensable_iff (image : Image) (hsaga : sagaRegions image.tables.regions ≠ []) :
    Compensable image ↔ (sagaRegions image.tables.regions).length ≤ maxSteps := by
  constructor
  · intro h
    exact (@loadSteps_iff image {} rfl hsaga).mp (h.loads {} rfl)
  · intro hbound
    have hloads : ∀ execution : Execution, execution.stepCount = 0 →
        ∃ execution', loadSteps image execution = some execution' ∧
          Loaded image.tables.regions execution' :=
      fun execution hcount => (loadSteps_iff image hcount hsaga).mpr hbound
    refine ⟨hloads, fun run => ?_, fun run nextRequestId hnext hmax => ?_⟩
    · obtain ⟨origin, hload, -⟩ := hloads
        { executionId := run.executionId, workflowId := run.workflowId,
          imageFingerprint := run.imageFingerprint } rfl
      exact run.recovered hload
    · obtain ⟨origin, hload, -⟩ := hloads
        { executionId := run.executionId, workflowId := run.workflowId,
          imageFingerprint := run.imageFingerprint, originalOutcome := run.outcome,
          nextRequestId } rfl
      exact run.begun hload hnext hmax

/-- The facts of the run of two steps whose second one failed. -/
def secondFailedFacts : List Journal.Record :=
  [ { kind := .executionStarted, outcome := .none, sequence := 1, executionId := 1,
      workflowId := 1, imageFingerprint := 7 },
    { secondFailedFile.delivery .deliveryPrepared .none 1 with sequence := 2 },
    { secondFailedFile.delivery .deliverySent .none 1 with sequence := 3 },
    { secondFailedFile.delivery .actionSucceeded .success 1 with sequence := 4 },
    { secondFailedFile.delivery .deliveryPrepared .none 2 with sequence := 5 },
    { secondFailedFile.delivery .deliverySent .none 2 with sequence := 6 },
    { secondFailedFile.delivery .actionFailed .appError 2 with sequence := 7 },
    { kind := .executionFinished, outcome := .appError, sequence := 8, executionId := 1,
      workflowId := 1, imageFingerprint := 7 } ]

theorem secondFailed_facts :
    Journal.recordsOf (Journal.journalRecords secondFailedFile) 1 = secondFailedFacts := by
  decide +kernel

theorem twoSteps_regions : sagaRegions twoSteps.tables.regions =
    [twoStepsLayout.stepRegion 1, twoStepsLayout.stepRegion 2] := by
  decide +kernel

theorem secondFailed_run : Run twoSteps .fresh secondFailedFacts (.finished 1 .appError) := by
  have hroute : ((twoSteps.node 1).app = 1 ∧ (twoSteps.node 1).action = 1) ∧
      (twoSteps.node 2).app = 1 ∧ (twoSteps.node 2).action = 2 := by
    decide +kernel
  refine .step (.started rfl) (.step (.delivery (.inl rfl)) (.step (.delivery (.inr rfl))
    (.step (.succeeded rfl ⟨_, by rw [twoSteps_regions]; rfl, rfl, ?_, ?_⟩)
      (.step (.delivery (.inl rfl)) (.step (.delivery (.inr rfl))
        (.step (.failed rfl ⟨_, by rw [twoSteps_regions]; rfl, rfl, ?_, ?_⟩)
          (.step (.finished rfl rfl) .done)))))))
  · exact hroute.1.1.symm
  · exact hroute.1.2.symm
  · exact hroute.2.1.symm
  · exact hroute.2.2.symm

theorem secondFailed_kept : ∀ r ∈ secondFailedFacts, r.kind = .actionSucceeded →
    TokenKept twoSteps (Compensation.records firstTokenFile) r := by
  have hstored : Compensation.records firstTokenFile =
      [{ sequence := 1, key := ⟨1, 1, 1, 1, 7⟩, compensationAppId := 1, compensationActionId := 3,
         sourceType := 1, destinationType := 1, token := [1] }] := by
    decide +kernel
  have hfirst : ∀ r ∈ secondFailedFacts, r.kind = .actionSucceeded → r.executionId = 1 ∧
      r.workflowId = 1 ∧ r.requestId = 1 ∧ r.nodeId = 1 ∧ r.imageFingerprint = 7 := by
    decide
  intro r hr hkind region hregion hnode
  obtain ⟨hexecution, hworkflow, hrequest, hrnode, hfingerprint⟩ := hfirst r hr hkind
  rw [twoSteps_regions] at hregion
  rw [hexecution, hworkflow, hrequest, hrnode, hfingerprint, hstored]
  rw [hrnode] at hnode
  rcases List.mem_cons.mp hregion with rfl | hregion
  · exact ⟨_, rfl, rfl, rfl, rfl, rfl, by decide +kernel⟩
  · rw [List.mem_singleton.mp hregion] at hnode
    exact absurd hnode (by decide)

/-- The run of two steps whose second one failed. -/
def secondFailedRun : FailedRun twoSteps where
  executionId := 1
  workflowId := 1
  imageFingerprint := 7
  journal := secondFailedFile
  tokens := firstTokenFile
  completed := 1
  outcome := .appError
  execution_ne := by decide
  workflow_ne := by decide
  journal_scanned := by decide +kernel
  tokens_scanned := by decide +kernel
  run := by rw [secondFailed_facts]; exact secondFailed_run
  owned := by rw [secondFailed_facts]; decide
  completed_ne := by decide
  failed := .inl rfl
  numbered := by rw [secondFailed_facts]; decide
  kept := by rw [secondFailed_facts]; exact secondFailed_kept

theorem compensable_iff_twoSteps : Compensable twoSteps ∧
    ∃ plan, recover twoSteps 7 secondFailedFile firstTokenFile 1 1 = .ok plan ∧
      plan.state = .ready ∧ plan.remaining = 1 := by
  have hcompensable : Compensable twoSteps :=
    (compensable_iff twoSteps (by rw [twoSteps_regions]; exact List.cons_ne_nil _ _)).mpr
      (by rw [twoSteps_regions]; decide)
  exact ⟨hcompensable, hcompensable.recovers secondFailedRun⟩

/-- So many actions of one contract in a row, each with the same compensation. -/
def rowLayout (steps : Nat) : Image.Layout where
  errors := [1]
  contracts := [.of 1, .of 2]
  types := [Image.boolType]
  nodes := List.replicate steps (.action1 1) ++
    [.terminal 1, .terminal 2, .terminal 3, .terminal 4]
  edges := .wire 0 0 1 1 :: (List.range steps).flatMap fun n =>
    [.wire 1 (node (n + 1)) (if n + 1 < steps then 1 else 2) (node (n + 2)),
      .wire 2 (node (n + 1)) 2 (node (steps + 2)), .bare 3 (node (n + 1)) (node (steps + 3)),
      .bare 4 (node (n + 1)) (node (steps + 4))]
  regions := (List.range steps).flatMap fun n =>
    [stepRegion (n + 1), twoStepsLayout.outcomeRegion (n + 1)]
where
  node (n : Nat) : UInt16 := UInt16.ofNat n
  stepRegion (node : Nat) : Image.Region :=
    [3, 0] ++ [node, 1, 2, 1, 1, node, 0].flatMap Image.Layout.u16

set_option maxRecDepth 20000 in
theorem seventeenSteps_valid :
    (Image.imageValidate (rowLayout 17).encode).toOption.isSome = true := by
  decide +kernel

def seventeenSteps : Image := (rowLayout 17).image seventeenSteps_valid

/-- A saga of one step too many is accepted and not loaded. -/
theorem seventeenSteps_loadSteps :
    sagaRegions seventeenSteps.tables.regions ≠ [] ∧ loadSteps seventeenSteps {} = none ∧
      ¬ Compensable seventeenSteps := by
  have hnone : (loadSteps seventeenSteps {}).isNone = true := by decide +kernel
  have hload : loadSteps seventeenSteps {} = none := Option.isNone_iff_eq_none.mp hnone
  refine ⟨by decide +kernel, hload, fun h => ?_⟩
  obtain ⟨execution', hsome, -⟩ := h.loads {} rfl
  cases hload.symm.trans hsome

end Hermas.Saga
