import Hermas.Image.Facts
import Hermas.Saga.Plan

/-!
# The steps of a saga image

A step of a saga is a region of the image, and the region behind it says what its
compensation may return. The loader has numbered the steps from 1 without a gap, so
`load_steps` puts step `n` at index `n - 1` and fills the front of the array.
-/

namespace Hermas.Image

/-- The regions that are saga steps, in the order of the image. -/
def sagaRegions (regions : List Region) : List Region :=
  regions.filter fun region => region.readU8 0 == 3

theorem sagaRegions_snoc (before : List Region) (region : Region) :
    sagaRegions (before ++ [region]) =
      if region.readU8 0 = 3 then sagaRegions before ++ [region] else sagaRegions before := by
  by_cases h : region.readU8 0 = 3 <;> simp [sagaRegions, List.filter_append, h]

/-- What the loader has counted behind one more region. -/
theorem validateRegion_sagaCount {bytes : Bytes} {tables : Tables} {classes : List NodeClass}
    {state state' : RegionState} {region : Region}
    (h : validateRegion bytes tables classes state region = .ok state') :
    (region.readU8 0 = 3 → (region.readU16 12).toNat = state.sagaCount + 1 ∧
      state'.sagaCount = state.sagaCount + 1) ∧
    (region.readU8 0 ≠ 3 → state'.sagaCount = state.sagaCount) := by
  unfold validateRegion at h
  simp only at h
  split at h
  · rename_i hkind
    unfold validateDeadline at h
    simp only at h
    split at h
    · cases h
    · cases h
      exact ⟨fun hsaga => absurd (hkind.symm.trans hsaga) (by decide), fun _ => rfl⟩
  split at h
  · rename_i hkind
    simp only [validateEach, bind_ok, pure_ok, require_ok] at h
    obtain ⟨⟨⟩, -, ⟨⟩, -, rfl⟩ := h
    exact ⟨fun hsaga => absurd (hkind.symm.trans hsaga) (by decide), fun _ => rfl⟩
  split at h
  · rename_i hkind
    simp only [validateSagaStep, bind_ok, pure_ok, require_ok] at h
    obtain ⟨⟨⟩, ⟨-, -, -, -, -, -, -, hordinal, -⟩, rfl⟩ := h
    exact ⟨fun _ => ⟨hordinal, rfl⟩, fun hne => absurd hkind hne⟩
  split at h
  · rename_i hkind
    simp only [validateSagaOutcome, bind_ok, pure_ok, require_ok] at h
    obtain ⟨⟨⟩, -, rfl⟩ := h
    exact ⟨fun hsaga => absurd (hkind.symm.trans hsaga) (by decide), fun _ => rfl⟩
  · cases h

/-- Behind an accepted list of regions the counter is the number of steps. -/
theorem sagaCount_foldlM {bytes : Bytes} {tables : Tables} {classes : List NodeClass}
    (before : List Region) : ∀ {state : RegionState},
    before.foldlM (validateRegion bytes tables classes) {} = .ok state →
      state.sagaCount = (sagaRegions before).length := by
  induction before using List.reverseRecOn with
  | nil =>
      intro state h
      cases h
      rfl
  | append_singleton before region ih =>
      intro state h
      rw [List.foldlM_append, bind_ok] at h
      obtain ⟨prior, hbefore, hregion⟩ := h
      rw [List.foldlM_cons, bind_ok] at hregion
      obtain ⟨next, hregion, hnext⟩ := hregion
      cases hnext
      obtain ⟨hsaga, hother⟩ := validateRegion_sagaCount hregion
      rw [sagaRegions_snoc]
      split
      · rename_i hkind
        rw [(hsaga hkind).2, ih hbefore, List.length_append]
        rfl
      · rename_i hkind
        rw [hother hkind, ih hbefore]

/-- **Saga steps are numbered without a gap.** -/
theorem sagaRegion_ordinal (image : Image) {before after : List Region} {region : Region}
    (hregions : image.tables.regions = before ++ region :: after)
    (hkind : region.readU8 0 = 3) :
    (region.readU16 12).toNat = (sagaRegions before).length + 1 := by
  obtain ⟨classes, regions, h⟩ := checked image
  have hfold := h.regionsOk
  rw [validateRegions, hregions, List.foldlM_append, bind_ok] at hfold
  obtain ⟨prior, hbefore, hfold⟩ := hfold
  rw [List.foldlM_cons, bind_ok] at hfold
  obtain ⟨next, hregion, -⟩ := hfold
  rw [← sagaCount_foldlM before hbefore]
  exact ((validateRegion_sagaCount hregion).1 hkind).1

end Hermas.Image

namespace Hermas.Saga

open Image (sagaRegions sagaRegions_snoc sagaRegion_ordinal)

/-- A step as its region declares it. -/
structure Step.Declared (step : Step) (region : Image.Region) : Prop where
  forwardNode : step.forwardNode = region.readU16 2
  compensationAppId : step.compensationAppId = region.readU16 4
  compensationActionId : step.compensationActionId = region.readU16 6
  sourceType : step.sourceType = region.readU16 8
  destinationType : step.destinationType = region.readU16 10
  ordinal : step.ordinal = region.readU16 12

/-- The steps of a plan are those that a list of regions declares. -/
structure Loaded (regions : List Image.Region) (execution : Execution) : Prop where
  count : execution.stepCount = (sagaRegions regions).length
  bounded : execution.stepCount ≤ maxSteps
  declared : ∀ i : Fin maxSteps, ∀ region, (sagaRegions regions)[i.val]? = some region →
    (execution.steps i).Declared region ∧ (execution.steps i).ordinal.toNat = i + 1

/-- `load_steps` fills in the steps and nothing else. -/
structure SamePlan (execution execution' : Execution) : Prop where
  executionId : execution'.executionId = execution.executionId
  workflowId : execution'.workflowId = execution.workflowId
  imageFingerprint : execution'.imageFingerprint = execution.imageFingerprint
  nextRequestId : execution'.nextRequestId = execution.nextRequestId
  originalOutcome : execution'.originalOutcome = execution.originalOutcome
  remaining : execution'.remaining = execution.remaining
  state : execution'.state = execution.state
  forward : ∀ i, (execution'.steps i).forwardRequestId = (execution.steps i).forwardRequestId

theorem loaded_step {before after : List Image.Region} {region : Image.Region}
    {execution : Execution} (image : Image) (outcome : Image.Region)
    (hregions : image.tables.regions = before ++ region :: after) (hkind : region.readU8 0 = 3)
    (hbound : (region.readU16 12).toNat ≤ maxSteps) (h : Loaded before execution) :
    let index : Fin maxSteps := Fin.ofNat maxSteps ((region.readU16 12).toNat - 1)
    Loaded (before ++ [region]) { execution with
      steps := Function.update execution.steps index
        (readStep region outcome (execution.steps index).forwardRequestId)
      stepCount := execution.stepCount + 1 } := by
  intro index
  have hordinal := sagaRegion_ordinal image hregions hkind
  have hindex : index.val = (sagaRegions before).length := by
    show ((region.readU16 12).toNat - 1) % maxSteps = _
    rw [Nat.mod_eq_of_lt (by omega)]
    omega
  have hsnoc : sagaRegions (before ++ [region]) = sagaRegions before ++ [region] := by
    rw [sagaRegions_snoc, if_pos hkind]
  refine ⟨?_, ?_, fun i r hr => ?_⟩
  · show execution.stepCount + 1 = _
    rw [hsnoc, h.count, List.length_append]
    rfl
  · show execution.stepCount + 1 ≤ _
    rw [h.count]
    omega
  · rw [hsnoc] at hr
    simp only
    by_cases hi : i = index
    · -- the region just read
      subst hi
      rw [hindex, List.getElem?_append_right (Nat.le_refl _), Nat.sub_self] at hr
      cases hr
      rw [Function.update_self, hindex, ← hordinal]
      exact ⟨⟨rfl, rfl, rfl, rfl, rfl, rfl⟩, rfl⟩
    · have hlt : i.val < (sagaRegions before).length := by
        have hlen := (List.getElem?_eq_some_iff.mp hr).1
        rw [List.length_append] at hlen
        have hne : i.val ≠ index.val := fun heq => hi (Fin.ext heq)
        have hone : [region].length = 1 := rfl
        omega
      rw [List.getElem?_append_left hlt] at hr
      rw [Function.update_of_ne hi]
      exact h.declared i r hr

theorem loaded_skip {before : List Image.Region} {region : Image.Region} {execution : Execution}
    (hkind : region.readU8 0 ≠ 3) (h : Loaded before execution) :
    Loaded (before ++ [region]) execution := by
  have hsnoc : sagaRegions (before ++ [region]) = sagaRegions before := by
    rw [sagaRegions_snoc, if_neg hkind]
  exact ⟨by rw [hsnoc]; exact h.count, h.bounded, by rw [hsnoc]; exact h.declared⟩

/-- The loop of `load_steps` over the regions that are left. -/
theorem loaded_regions (image : Image) : ∀ {before rest : List Image.Region}
    {execution execution' : Execution}, image.tables.regions = before ++ rest →
    Loaded before execution → loadRegions rest execution = some execution' →
    Loaded image.tables.regions execution' ∧ execution'.stepCount ≠ 0 ∧
      SamePlan execution execution'
  | before, [], execution, execution', hregions, h, hload => by
      rw [loadRegions] at hload
      split at hload
      · cases hload
      · rename_i hcount
        cases hload
        rw [hregions, List.append_nil]
        exact ⟨h, hcount, rfl, rfl, rfl, rfl, rfl, rfl, rfl, fun _ => rfl⟩
  | before, region :: rest, execution, execution', hregions, h, hload => by
      have hnext : image.tables.regions = (before ++ [region]) ++ rest := by
        rw [hregions, List.append_assoc]
        rfl
      rw [loadRegions] at hload
      split at hload
      · rename_i hkind
        exact loaded_regions image hnext (loaded_skip hkind h) hload
      · rename_i hkind
        have hkind : region.readU8 0 = 3 := not_not.mp hkind
        simp only at hload
        split at hload
        · cases hload
        · rename_i outcome after
          split at hload
          · cases hload
          · rename_i hchecks
            obtain ⟨-, hbound, -, -⟩ := not_or.mp hchecks |>.imp id fun h => by
              simpa only [not_or] using h
            obtain ⟨hloaded, hcount, hsame⟩ := loaded_regions image hnext
              (loaded_step image outcome hregions hkind (by omega) h) hload
            refine ⟨hloaded, hcount, hsame.1, hsame.2, hsame.3, hsame.4, hsame.5, hsame.6, hsame.7,
              fun i => ?_⟩
            rw [hsame.forward i]
            simp only [Function.update_apply]
            split
            · rename_i hi
              rw [hi]
              rfl
            · rfl

/-- **What `load_steps` has loaded.** -/
theorem loaded_loadSteps {image : Image} {execution execution' : Execution}
    (hcount : execution.stepCount = 0) (h : loadSteps image execution = some execution') :
    Loaded image.tables.regions execution' ∧ execution'.stepCount ≠ 0 ∧
      SamePlan execution execution' := by
  have hnil : Loaded [] execution := by
    refine ⟨hcount, by rw [hcount]; exact Nat.zero_le _, fun i region hregion => ?_⟩
    cases hregion
  exact loaded_regions image (List.nil_append _).symm hnil h

/-- A loaded step has the ordinal of its place. -/
theorem Loaded.ordinal {regions : List Image.Region} {execution : Execution}
    (h : Loaded regions execution) {i : Fin maxSteps} (hi : i.val < execution.stepCount) :
    (execution.steps i).ordinal.toNat = i + 1 := by
  rw [h.count] at hi
  exact (h.declared i _ (List.getElem?_eq_getElem hi)).2

end Hermas.Saga
