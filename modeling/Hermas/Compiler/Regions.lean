import Hermas.Compiler.Prefix
import Hermas.Image.Facts
import Mathlib.Data.List.Nodup

/-!
# Loader and decoder on the regions

The loader keeps a saga as arrays over the nodes, the decoder as a map of steps
and a map of outcomes. The only difference between the two on regions is room:
the loader has eight slots for deadlines and eight for each regions, the decoder
keeps as many as there are records.
-/

namespace Hermas.Compiler

open Hermas.Image (Header Tables TypeRecord Node Edge Region NodeClass EachRegion RegionState
  classAt isActionNode)

/-- The loader's arrays hold what the decoder's maps hold. -/
structure RegionsRead (classes : List NodeClass) (s : RegionState) (d : DecodedRegions) :
    Prop where
  deadlines : s.deadlines = d.deadlineRanges
  each : s.each = d.eachRegions
  templates : ∀ each ∈ d.eachRegions, isActionNode classes each.template = true
  steps : s.sagaCount = d.sagaSteps.length
  outcomes : s.sagaOutcomeCount = d.sagaOutcomes.length
  source : ∀ node, s.sagaSourceType node = (d.step node).elim 0 (·.sourceType)
  success : ∀ node, s.sagaSuccessType node ≠ 0 ↔ node ∈ d.sagaOutcomes.map (·.1)
  error : ∀ node, s.sagaErrorType node ≠ 0 ↔ node ∈ d.sagaOutcomes.map (·.1)
  last : s.lastSagaForward = d.sagaSteps.getLast?.elim 0 (·.1)
  typed : ∀ entry ∈ d.sagaSteps, entry.2.sourceType ≠ 0
  actions : ∀ entry ∈ d.sagaSteps, isActionNode classes entry.1 = true
  ordinals : ∀ index entry, d.sagaSteps[index]? = some entry →
    entry.2.ordinal.toNat = index + 1
  distinct : (d.sagaSteps.map (·.1)).Nodup
  settled : (d.sagaOutcomes.map (·.1)).Nodup
  started : ∀ node ∈ d.sagaOutcomes.map (·.1), node ∈ d.sagaSteps.map (·.1)

variable {bytes : Bytes} {tables : Tables} {descriptors : TypeDescriptors}
  {classes : List NodeClass} {s : RegionState} {d : DecodedRegions}

theorem regionsRead_init (classes : List NodeClass) : RegionsRead classes {} {} where
  deadlines := rfl
  each := rfl
  templates _ h := by simp at h
  steps := rfl
  outcomes := rfl
  source _ := rfl
  success _ := by simp
  error _ := by simp
  last := rfl
  typed _ h := by simp at h
  actions _ h := by simp at h
  ordinals _ _ h := by simp at h
  distinct := List.nodup_nil
  settled := List.nodup_nil
  started _ h := by simp at h

theorem step_eq_none {forward : UInt16} :
    d.step forward = none ↔ ¬ forward ∈ d.sagaSteps.map (·.1) := by
  simp only [DecodedRegions.step, Option.map_eq_none_iff, List.find?_eq_none, beq_iff_eq,
    List.mem_map, not_exists, not_and]

/-- A step is found under its node. -/
theorem RegionsRead.step_eq (h : RegionsRead classes s d) {forward : UInt16} {step : SagaStep} :
    d.step forward = some step ↔ (forward, step) ∈ d.sagaSteps := by
  unfold DecodedRegions.step
  constructor
  · intro hstep
    obtain ⟨entry, hfind, rfl⟩ := Option.map_eq_some_iff.mp hstep
    have hkey := List.find?_some hfind
    rw [beq_iff_eq] at hkey
    exact hkey ▸ List.mem_of_find?_eq_some hfind
  · intro hmem
    cases hfind : d.sagaSteps.find? (·.1 == forward) with
    | none =>
        have hno := List.find?_eq_none.mp hfind _ hmem
        simp at hno
    | some entry =>
        have hkey := List.find?_some hfind
        rw [beq_iff_eq] at hkey
        have hsame := List.inj_on_of_nodup_map h.distinct (List.mem_of_find?_eq_some hfind) hmem hkey
        rw [hsame]
        rfl

/-! ## Types and nodes -/

theorem descriptor_isSome {typeId : UInt16} :
    (tables.descriptor typeId).isSome = true ↔ tables.containsType typeId = true := by
  constructor
  · intro h
    obtain ⟨range, hrange⟩ := Option.isSome_iff_exists.mp h
    exact Image.descriptor_contains hrange
  · intro h
    unfold Image.Tables.containsType at h
    unfold Image.Tables.descriptor
    generalize tables.types = types at h
    induction types with
    | nil => cases h
    | cons record rest ih =>
        unfold Image.typeDescriptor
        split
        · rfl
        · rename_i hne
          have hno : (record.typeId == typeId) = false := by simpa using hne
          rw [List.any_cons, hno, Bool.false_or] at h
          exact ih h

/-- No type of an image is 0. -/
theorem type_ne_zero (htypes : Image.validateTypes bytes tables = .ok ()) {typeId : UInt16}
    (ht : tables.containsType typeId = true) : typeId ≠ 0 := by
  simp only [Image.validateTypes, bind_ok] at htypes
  obtain ⟨state, hfold, -⟩ := htypes
  rw [Tables.containsType, List.any_eq_true] at ht
  obtain ⟨record, hmem, hid⟩ := ht
  obtain ⟨c, c', hrecord⟩ := foldlM_mem hfold record hmem
  simp only [Image.validateType, bind_ok, require_ok] at hrecord
  obtain ⟨⟨⟩, hne, -⟩ := hrecord
  rw [beq_iff_eq] at hid
  exact hid ▸ hne.1

theorem classAt_le {node : UInt16} {c : NodeClass} (hc : classAt classes node = some c) :
    node ≠ 0 ∧ node.toNat ≤ classes.length := by
  unfold classAt at hc
  split at hc
  · cases hc
  · rename_i hne
    obtain ⟨hlt, -⟩ := List.getElem?_eq_some_iff.mp hc
    have hpos : node.toNat ≠ 0 := fun h0 => hne (UInt16.toNat_inj.mp (by simpa using h0))
    exact ⟨hne, by omega⟩

theorem action_le {node : UInt16} (hc : isActionNode classes node = true) :
    node ≠ 0 ∧ node.toNat ≤ classes.length := classAt_le (beq_iff_eq.mp hc)

/-! ## Deadlines and each regions -/

theorem deadline_alike (h : RegionsRead classes s d) (region : Region)
    (hroom : d.deadlineRanges.length < 8) :
    Alike (RegionsRead classes)
      (Image.validateDeadline tables.header.nodeCount s region)
      (decodeDeadline tables.header d region) := by
  have hsaga : s.sagaCount ≠ 0 ↔ d.sagaSteps ≠ [] := by
    rw [h.steps, ne_eq, List.length_eq_zero_iff]
  have heach : s.each.length ≠ 0 ↔ d.eachRegions ≠ [] := by
    rw [h.each, ne_eq, List.length_eq_zero_iff]
  have hempty : d.deadlineRanges.length = 0 ↔ d.deadlineRanges = [] := List.length_eq_zero_iff
  have hnext : ∀ range, RegionsRead classes { s with deadlines := s.deadlines ++ [range] }
      { d with deadlineRanges := d.deadlineRanges ++ [range] } := fun range =>
    ⟨by simp [h.deadlines], h.each, h.templates, h.steps, h.outcomes, h.source, h.success, h.error, h.last,
      h.typed, h.actions, h.ordinals, h.distinct, h.settled, h.started⟩
  have hwithin : ∀ (parent : Nat) (p : Nat × Nat → Bool),
      (parent ≤ d.deadlineRanges.length && d.deadlineRanges[parent - 1]?.any p ||
        parent == 0) = (d.deadlineRanges[parent - 1]?.any p || parent == 0) := by
    intro parent p
    by_cases hzero : parent = 0
    · simp [hzero]
    · by_cases hle : parent ≤ d.deadlineRanges.length
      · simp [hle]
      · rw [List.getElem?_eq_none (by omega)]
        simp
  refine Alike.guard ?_ (hnext _)
  simp only [h.deadlines, hsaga, heach, hempty, Bool.or_comm (_ == 0), hwithin]
  rw [not_not]
  by_cases hfirst : (region.readU16 2).toNat = 0
  · simp [hfirst]
  have hsum : ¬ (region.readU16 2).toNat + (region.readU16 4).toNat = 0 := by omega
  simp only [if_neg hsum, Option.any_some, decide_eq_true_eq, Nat.not_le]
  rw [or_iff_right (Nat.not_le.mpr hroom)]
  exact iff_of_eq (by ac_rfl)

theorem each_alike (ht : TypesRead tables descriptors) (h : RegionsRead classes s d)
    (hclasses : classes.length = tables.header.nodeCount) (region : Region)
    (hroom : d.eachRegions.length < 8) :
    Alike (RegionsRead classes) (Image.validateEach bytes tables classes s region)
      (decodeEach bytes tables.header descriptors classes d region) := by
  have hsaga : s.sagaCount = 0 ↔ d.sagaSteps = [] := by
    rw [h.steps, List.length_eq_zero_iff]
  have hnext : ∀ each, isActionNode classes each.template = true →
      RegionsRead classes { s with each := s.each ++ [each] }
      { d with eachRegions := d.eachRegions ++ [each] } := fun each haction =>
    ⟨h.deadlines, by simp [h.each], fun other hmem =>
      (List.mem_append.mp hmem).elim (h.templates other) fun hlast =>
        List.mem_singleton.mp hlast ▸ haction, h.steps, h.outcomes, h.source, h.success, h.error, h.last,
      h.typed, h.actions, h.ordinals, h.distinct, h.settled, h.started⟩
  have hone : ∀ concurrency : UInt8, 1 ≤ concurrency ↔ concurrency ≠ 0 := by
    intro concurrency
    rw [UInt8.le_iff_toNat_le, ne_eq, ← UInt8.toNat_inj]
    simp
    omega
  have height : ∀ concurrency : UInt8, concurrency ≤ 8 ↔ concurrency.toNat ≤ 8 :=
    fun concurrency => UInt8.le_iff_toNat_le
  unfold Image.validateEach decodeEach
  refine (Alike.require ?_).bind fun _ _ _ _ _ => (Alike.require ?_).bind fun _ _ hc _ _ =>
    .ok (hnext _ ?_)
  · rw [hsaga, h.each]
    exact and_iff_right hroom
  · simp only [ht.listMatches, not_or, not_not, hone, height, Nat.not_lt]
    constructor
    · rintro ⟨hpos, hle, hbound, hne, hnode, haction, hsource, houtput, hreserved⟩
      refine ⟨⟨hpos, hle⟩, hbound, ?_, haction, hsource, houtput, hreserved⟩
      intro hzero
      rw [hzero] at hbound
      have : (EachRegion.read region).concurrency.toNat = 0 := by simpa using hbound
      exact hpos (UInt8.toNat_inj.mp this)
    · rintro ⟨⟨hpos, hle⟩, hbound, -, haction, hsource, houtput, hreserved⟩
      obtain ⟨hne, hnode⟩ := action_le haction
      exact ⟨hpos, hle, hbound, hne, hclasses ▸ hnode, haction, hsource, houtput, hreserved⟩
  · rw [require_ok] at hc
    exact hc.2.2.2.2.2.1

/-! ## Sagas -/

theorem RegionsRead.source_eq_zero (h : RegionsRead classes s d) (forward : UInt16) :
    s.sagaSourceType forward = 0 ↔ d.step forward = none := by
  rw [h.source]
  cases hstep : d.step forward with
  | none => simp
  | some step =>
      have htyped := h.typed _ (h.step_eq.mp hstep)
      simp [htyped]

theorem sagaStep_next (h : RegionsRead classes s d) {forward : UInt16} (step : SagaStep)
    (haction : isActionNode classes forward = true) (htyped : step.sourceType ≠ 0)
    (hordinal : step.ordinal.toNat = d.sagaSteps.length + 1) (hnew : d.step forward = none) :
    RegionsRead classes
      { s with
        sagaSourceType := Function.update s.sagaSourceType forward step.sourceType
        lastSagaForward := forward
        sagaCount := s.sagaCount + 1 }
      { d with sagaSteps := d.sagaSteps ++ [(forward, step)] } where
  deadlines := h.deadlines
  each := h.each
  templates := h.templates
  steps := by simp [h.steps]
  outcomes := h.outcomes
  source node := by
    have hfind : (d.sagaSteps ++ [(forward, step)]).find? (·.1 == node) =
        (d.sagaSteps.find? (·.1 == node)).or (if forward = node then some (forward, step) else none) := by
      rw [List.find?_append]
      by_cases hn : forward = node
      · simp [hn]
      · have hno : (forward == node) = false := by simpa using hn
        simp [hn, hno]
    simp only [DecodedRegions.step, hfind]
    by_cases hn : node = forward
    · subst hn
      simp only [DecodedRegions.step, Option.map_eq_none_iff] at hnew
      simp [hnew]
    · rw [Function.update_of_ne hn, h.source, if_neg (Ne.symm hn), Option.or_none]
      rfl
  success := h.success
  error := h.error
  last := by simp
  typed entry hmem := by
    rcases List.mem_append.mp hmem with hmem | hmem
    · exact h.typed entry hmem
    · rw [List.mem_singleton.mp hmem]
      exact htyped
  actions entry hmem := by
    rcases List.mem_append.mp hmem with hmem | hmem
    · exact h.actions entry hmem
    · rw [List.mem_singleton.mp hmem]
      exact haction
  ordinals index entry hget := by
    by_cases hlt : index < d.sagaSteps.length
    · rw [List.getElem?_append_left hlt] at hget
      exact h.ordinals index entry hget
    · rw [List.getElem?_append_right (by omega)] at hget
      have hlast : index = d.sagaSteps.length := by
        have hsome := (List.getElem?_eq_some_iff.mp hget).1
        simp at hsome
        omega
      subst hlast
      simp at hget
      rw [← hget]
      exact hordinal
  distinct := by
    rw [List.map_append, List.nodup_append]
    refine ⟨h.distinct, by simp, ?_⟩
    rintro node hmem _ hforward rfl
    simp at hforward
    exact step_eq_none.mp hnew (hforward ▸ hmem)
  settled := h.settled
  started node hmem := by
    rw [List.map_append]
    exact List.mem_append_left _ (h.started node hmem)

theorem sagaStep_alike (ht : TypesRead tables descriptors)
    (htypes : Image.validateTypes bytes tables = .ok ()) (h : RegionsRead classes s d)
    (hclasses : classes.length = tables.header.nodeCount) (region : Region) :
    Alike (RegionsRead classes) (Image.validateSagaStep bytes tables classes s region)
      (decodeSagaStep bytes tables descriptors classes d region) := by
  unfold Image.validateSagaStep decodeSagaStep
  simp only [ht.get, h.source_eq_zero, h.steps]
  refine (Alike.require ?_).bind fun _ _ hc _ _ => .ok ?_
  · simp only [not_or, not_not, ne_eq, Option.not_isSome_iff_eq_none]
    constructor
    · rintro ⟨hmode, hne, hnode, haction, happ, hact, hcontract, hordinal, hnew, hsame, hreserved⟩
      exact ⟨hmode, haction, happ, hact, hcontract, hordinal, hsame, hreserved, hnew⟩
    · rintro ⟨hmode, haction, happ, hact, hcontract, hordinal, hsame, hreserved, hnew⟩
      obtain ⟨hne, hnode⟩ := action_le haction
      exact ⟨hmode, hne, hclasses ▸ hnode, haction, happ, hact, hcontract, hordinal, hnew, hsame,
        hreserved⟩
  · rw [require_ok] at hc
    obtain ⟨-, -, -, haction, -, -, -, hordinal, hnew, hsame, -⟩ := hc
    rw [← h.steps]
    refine sagaStep_next h ⟨region.readU16 4, region.readU16 6, region.readU16 8,
      region.readU16 10, region.readU16 12⟩ haction ?_ hordinal hnew
    split at hsame
    · rename_i hsource _
      exact type_ne_zero htypes (Image.descriptor_contains hsource)
    · cases hsame

theorem sagaOutcome_next (h : RegionsRead classes s d) {forward successType errorType : UInt16}
    (hsuccess : successType ≠ 0) (herror : errorType ≠ 0)
    (hstep : forward ∈ d.sagaSteps.map (·.1)) (hnew : ¬ forward ∈ d.sagaOutcomes.map (·.1)) :
    RegionsRead classes
      { s with
        sagaSuccessType := Function.update s.sagaSuccessType forward successType
        sagaErrorType := Function.update s.sagaErrorType forward errorType
        sagaOutcomeCount := s.sagaOutcomeCount + 1 }
      { d with sagaOutcomes := d.sagaOutcomes ++ [(forward, (successType, errorType))] } where
  deadlines := h.deadlines
  each := h.each
  templates := h.templates
  steps := h.steps
  outcomes := by simp [h.outcomes]
  source := h.source
  success node := by
    rw [List.map_append, List.mem_append, ← h.success]
    by_cases hn : node = forward
    · simp [hn, hsuccess]
    · simp [hn, Function.update_of_ne]
  error node := by
    rw [List.map_append, List.mem_append, ← h.error]
    by_cases hn : node = forward
    · simp [hn, herror]
    · simp [hn, Function.update_of_ne]
  last := h.last
  typed := h.typed
  actions := h.actions
  ordinals := h.ordinals
  distinct := h.distinct
  settled := by
    rw [List.map_append, List.nodup_append]
    refine ⟨h.settled, by simp, ?_⟩
    rintro node hmem _ hforward rfl
    simp at hforward
    exact hnew (hforward ▸ hmem)
  started node hmem := by
    rw [List.map_append, List.mem_append] at hmem
    rcases hmem with hmem | hmem
    · exact h.started node hmem
    · simp at hmem
      exact hmem ▸ hstep

/-- The step that waits for its outcome is the last one. -/
theorem RegionsRead.last_iff (h : RegionsRead classes s d) (forward : UInt16)
    (hsome : d.sagaSteps ≠ []) :
    forward = s.lastSagaForward ↔
      ∃ step, d.step forward = some step ∧ step.ordinal.toNat = d.sagaSteps.length := by
  have hlast := List.getLast?_eq_some_getLast hsome
  have hlength := List.length_pos_iff.mpr hsome
  have hget : d.sagaSteps[d.sagaSteps.length - 1]? = some (d.sagaSteps.getLast hsome) := by
    rw [← List.getLast?_eq_getElem?, hlast]
  have hordinal := h.ordinals _ _ hget
  rw [h.last, hlast, Option.elim_some]
  constructor
  · rintro rfl
    refine ⟨(d.sagaSteps.getLast hsome).2, h.step_eq.mpr (List.getLast_mem hsome), ?_⟩
    omega
  · rintro ⟨step, hstep, hlen⟩
    obtain ⟨index, hindex⟩ := List.mem_iff_getElem?.mp (h.step_eq.mp hstep)
    have hat := h.ordinals index _ hindex
    have hsame : index = d.sagaSteps.length - 1 := by
      simp only at hat
      omega
    rw [hsame, hget] at hindex
    rw [Option.some.inj hindex]

theorem ofLE_eq_zero : ∀ bytes : Bytes,
    Bytes.ofLE bytes = 0 ↔ bytes = List.replicate bytes.length 0
  | [] => by simp [Bytes.ofLE]
  | b :: bs => by
      have ih := ofLE_eq_zero bs
      have hb : b.toNat = 0 ↔ b = 0 := by rw [← UInt8.toNat_inj]; rfl
      rw [Bytes.ofLE, Nat.add_eq_zero_iff, hb, Nat.mul_eq_zero, ih, List.length_cons,
        List.replicate_succ, List.cons.injEq]
      simp

/-- Eight bytes that are read as zero are zero. -/
theorem readU64_eq_zero {region : Region} (hlen : region.length = 16) :
    region.readU64 8 = 0 ↔ region.slice 8 8 = List.replicate 8 0 := by
  have hslice : (region.slice 8 8).length = 8 := by
    rw [Bytes.slice, List.length_take, List.length_drop]
    omega
  have hlt := Bytes.ofLE_lt (region.slice 8 8)
  have hzero := ofLE_eq_zero (region.slice 8 8)
  rw [hslice] at hlt hzero
  norm_num at hlt
  rw [← hzero, Bytes.readU64, ← UInt64.toNat_inj, UInt64.toNat_ofNat', Nat.mod_eq_of_lt hlt]
  rfl

theorem sagaOutcome_alike (ht : TypesRead tables descriptors)
    (htypes : Image.validateTypes bytes tables = .ok ()) (h : RegionsRead classes s d)
    (hclasses : classes.length = tables.header.nodeCount) {region : Region}
    (hlen : region.length = 16) :
    Alike (RegionsRead classes) (Image.validateSagaOutcome tables s region)
      (decodeSagaOutcome tables.header descriptors d region) := by
  have hunsettled : s.sagaSuccessType (region.readU16 2) = 0 ↔
      ¬ region.readU16 2 ∈ d.sagaOutcomes.map (·.1) := by
    rw [← h.success, not_not]
  have hnext : (s.sagaSourceType (region.readU16 2) ≠ 0 ∧
      s.sagaCount = s.sagaOutcomeCount + 1 ∧ region.readU16 2 = s.lastSagaForward) ↔
      (d.sagaSteps.length == d.sagaOutcomes.length + 1 &&
        (d.step (region.readU16 2)).any fun step =>
          step.ordinal.toNat == d.sagaSteps.length) = true := by
    rw [h.steps, h.outcomes, ne_eq, h.source_eq_zero, Bool.and_eq_true, beq_iff_eq]
    constructor
    · rintro ⟨-, hcount, hlast⟩
      have hsome : d.sagaSteps ≠ [] := by
        rintro hnil
        rw [hnil] at hcount
        simp at hcount
      obtain ⟨step, hstep, hordinal⟩ := (h.last_iff _ hsome).mp hlast
      exact ⟨hcount, by simp [hstep, hordinal]⟩
    · rintro ⟨hcount, hany⟩
      have hsome : d.sagaSteps ≠ [] := by
        rintro hnil
        rw [hnil] at hcount
        simp at hcount
      cases hstep : d.step (region.readU16 2) with
      | none => rw [hstep] at hany; cases hany
      | some step =>
          rw [hstep, Option.any_some, beq_iff_eq] at hany
          exact ⟨by simp, hcount, (h.last_iff _ hsome).mpr ⟨step, hstep, hany⟩⟩
  unfold Image.validateSagaOutcome decodeSagaOutcome
  refine (Alike.require ?_).bind fun _ _ hc _ _ => .ok ?_
  · simp only [not_or, not_not, ht.get, descriptor_isSome, readU64_eq_zero hlen, hunsettled,
      ← hnext, ne_eq]
    constructor
    · rintro ⟨hmode, hne, hnode, hsource, hcount, hlast, hnew, hsuccess, herror, hreserved⟩
      exact ⟨hmode, ⟨hsource, hcount, hlast⟩, hsuccess, herror, hreserved, hnew⟩
    · rintro ⟨hmode, ⟨hsource, hcount, hlast⟩, hsuccess, herror, hreserved, hnew⟩
      obtain ⟨step, hstep⟩ := Option.ne_none_iff_exists'.mp (mt (h.source_eq_zero _).mpr hsource)
      obtain ⟨hne, hnode⟩ := action_le (h.actions _ (h.step_eq.mp hstep))
      exact ⟨hmode, hne, hclasses ▸ hnode, hsource, hcount, hlast, hnew, hsuccess, herror,
        hreserved⟩
  · rw [require_ok] at hc
    obtain ⟨-, -, -, hsource, -, -, hnew, hsuccess, herror, -⟩ := hc
    refine sagaOutcome_next h (type_ne_zero htypes hsuccess) (type_ne_zero htypes herror) ?_
      (hunsettled.mp hnew)
    obtain ⟨step, hstep⟩ := Option.ne_none_iff_exists'.mp (mt (h.source_eq_zero _).mpr hsource)
    exact List.mem_map.mpr ⟨_, h.step_eq.mp hstep, rfl⟩

/-! ## All records -/

/-- The records of one kind. -/
def recordsOf (kind : UInt8) (regions : List Region) : Nat := regions.countP (·.readU8 0 == kind)

/-- The loader's room for deadlines and each regions. -/
structure Fits (d : DecodedRegions) : Prop where
  deadlines : d.deadlineRanges.length ≤ 8
  each : d.eachRegions.length ≤ 8

/-- A record is counted where it is kept. -/
theorem decodeRegion_grows {region : Region} {d' : DecodedRegions}
    (h : decodeRegion bytes tables descriptors classes d region = .ok d') :
    d'.deadlineRanges.length = d.deadlineRanges.length + recordsOf 1 [region] ∧
      d'.eachRegions.length = d.eachRegions.length + recordsOf 2 [region] := by
  unfold decodeRegion at h
  simp only at h
  split at h
  · rename_i hk
    simp only [decodeDeadline, bind_ok, pure_ok] at h
    obtain ⟨⟨⟩, -, rfl⟩ := h
    simp [recordsOf, hk]
  split at h
  · rename_i hk
    simp only [decodeEach, bind_ok, pure_ok] at h
    obtain ⟨⟨⟩, -, ⟨⟩, -, rfl⟩ := h
    simp [recordsOf, hk]
  rename_i h1 h2
  have hnone : recordsOf 1 [region] = 0 ∧ recordsOf 2 [region] = 0 := by
    simp [recordsOf, h1, h2]
  rw [hnone.1, hnone.2]
  split at h
  · simp only [decodeSagaStep, bind_ok, pure_ok] at h
    obtain ⟨⟨⟩, -, rfl⟩ := h
    exact ⟨rfl, rfl⟩
  split at h
  · simp only [decodeSagaOutcome, bind_ok, pure_ok] at h
    obtain ⟨⟨⟩, -, rfl⟩ := h
    exact ⟨rfl, rfl⟩
  · cases h

theorem decodeRegions_grows {regions : List Region} : ∀ {d d' : DecodedRegions},
    regions.foldlM (decodeRegion bytes tables descriptors classes) d = .ok d' →
    d'.deadlineRanges.length = d.deadlineRanges.length + recordsOf 1 regions ∧
      d'.eachRegions.length = d.eachRegions.length + recordsOf 2 regions := by
  induction regions with
  | nil =>
      intro d d' h
      rw [List.foldlM_nil, pure_ok] at h
      exact ⟨by simp [h, recordsOf], by simp [h, recordsOf]⟩
  | cons region regions ih =>
      intro d d' h
      rw [List.foldlM_cons, bind_ok] at h
      obtain ⟨next, hregion, hrest⟩ := h
      have hfirst := decodeRegion_grows hregion
      have hlast := ih hrest
      have hcount : ∀ kind, recordsOf kind (region :: regions) =
          recordsOf kind [region] + recordsOf kind regions := by
        intro kind
        rw [recordsOf, recordsOf, recordsOf, ← List.countP_append]
        rfl
      rw [hcount, hcount]
      omega

section Records

variable (ht : TypesRead tables descriptors)
  (htypes : Image.validateTypes bytes tables = .ok ())
  (hclasses : classes.length = tables.header.nodeCount)

include ht htypes hclasses

/-- One record, as far as the loader has room for it. -/
theorem region_alike (h : RegionsRead classes s d) {region : Region} (hlen : region.length = 16)
    (hdeadlines : region.readU8 0 = 1 → d.deadlineRanges.length < 8)
    (heach : region.readU8 0 = 2 → d.eachRegions.length < 8) :
    Alike (RegionsRead classes) (Image.validateRegion bytes tables classes s region)
      (decodeRegion bytes tables descriptors classes d region) := by
  unfold Image.validateRegion decodeRegion
  simp only
  by_cases h1 : region.readU8 0 = 1
  · rw [if_pos h1, if_pos h1]
    exact deadline_alike h region (hdeadlines h1)
  rw [if_neg h1, if_neg h1]
  by_cases h2 : region.readU8 0 = 2
  · rw [if_pos h2, if_pos h2]
    exact each_alike ht h hclasses region (heach h2)
  rw [if_neg h2, if_neg h2]
  by_cases h3 : region.readU8 0 = 3
  · rw [if_pos h3, if_pos h3]
    exact sagaStep_alike ht htypes h hclasses region
  rw [if_neg h3, if_neg h3]
  by_cases h4 : region.readU8 0 = 4
  · rw [if_pos h4, if_pos h4]
    exact sagaOutcome_alike ht htypes h hclasses hlen
  · rw [if_neg h4, if_neg h4]
    exact .error

omit ht htypes hclasses in
/-- The loader takes no record it has no room for. -/
theorem validateRegion_room {region : Region} {s' : RegionState}
    (h : Image.validateRegion bytes tables classes s region = .ok s') :
    (region.readU8 0 = 1 → s.deadlines.length < 8) ∧ (region.readU8 0 = 2 → s.each.length < 8) := by
  unfold Image.validateRegion at h
  simp only at h
  constructor
  · intro h1
    rw [if_pos h1] at h
    unfold Image.validateDeadline at h
    simp only at h
    split at h
    · cases h
    · rename_i hgood
      rw [not_or] at hgood
      omega
  · intro h2
    rw [if_neg (by rw [h2]; decide), if_pos h2] at h
    simp only [Image.validateEach, bind_ok, require_ok] at h
    obtain ⟨⟨⟩, hroom, -⟩ := h
    exact hroom.1

theorem regions_left {regions : List Region} (hlen : ∀ region ∈ regions, region.length = 16) :
    ∀ {s s' : RegionState} {d : DecodedRegions}, RegionsRead classes s d → Fits d →
      regions.foldlM (Image.validateRegion bytes tables classes) s = .ok s' →
      ∃ d', regions.foldlM (decodeRegion bytes tables descriptors classes) d = .ok d' ∧
        RegionsRead classes s' d' ∧ Fits d' := by
  induction regions with
  | nil =>
      intro s s' d h hfits hs
      rw [List.foldlM_nil, pure_ok] at hs
      exact ⟨d, rfl, hs ▸ h, hfits⟩
  | cons region regions ih =>
      intro s s' d h hfits hs
      rw [List.foldlM_cons, bind_ok] at hs
      obtain ⟨next, hregion, hrest⟩ := hs
      obtain ⟨hdeadlines, heach⟩ := validateRegion_room hregion
      rw [h.deadlines] at hdeadlines
      rw [h.each] at heach
      obtain ⟨d₁, hd₁, hread⟩ := (region_alike ht htypes hclasses h (hlen region (by simp))
        hdeadlines heach).left _ hregion
      have hgrows := decodeRegion_grows hd₁
      have hfits₁ : Fits d₁ := by
        have hbound := hfits.deadlines
        have hbound' := hfits.each
        refine ⟨?_, ?_⟩
        · rw [hgrows.1]
          by_cases h1 : region.readU8 0 = 1
          · have := hdeadlines h1
            simp [recordsOf, h1]
            omega
          · simpa [recordsOf, h1] using hbound
        · rw [hgrows.2]
          by_cases h2 : region.readU8 0 = 2
          · have := heach h2
            simp [recordsOf, h2]
            omega
          · simpa [recordsOf, h2] using hbound'
      obtain ⟨d', hd', hread', hfits'⟩ := ih (fun r hr => hlen r (by simp [hr])) hread hfits₁ hrest
      exact ⟨d', by rw [List.foldlM_cons, bind_ok]; exact ⟨d₁, hd₁, hd'⟩, hread', hfits'⟩

theorem regions_right {regions : List Region} (hlen : ∀ region ∈ regions, region.length = 16) :
    ∀ {s : RegionState} {d d' : DecodedRegions}, RegionsRead classes s d → Fits d' →
      regions.foldlM (decodeRegion bytes tables descriptors classes) d = .ok d' →
      ∃ s', regions.foldlM (Image.validateRegion bytes tables classes) s = .ok s' ∧
        RegionsRead classes s' d' := by
  induction regions with
  | nil =>
      intro s d d' h _ hd
      rw [List.foldlM_nil, pure_ok] at hd
      exact ⟨s, rfl, hd ▸ h⟩
  | cons region regions ih =>
      intro s d d' h hfits hd
      rw [List.foldlM_cons, bind_ok] at hd
      obtain ⟨next, hregion, hrest⟩ := hd
      have hgrows := decodeRegion_grows hregion
      have hgrows' := decodeRegions_grows hrest
      have hbound := hfits.deadlines
      have hbound' := hfits.each
      have hdeadlines : region.readU8 0 = 1 → d.deadlineRanges.length < 8 := by
        intro h1
        have : recordsOf 1 [region] = 1 := by simp [recordsOf, h1]
        omega
      have heach : region.readU8 0 = 2 → d.eachRegions.length < 8 := by
        intro h2
        have : recordsOf 2 [region] = 1 := by simp [recordsOf, h2]
        omega
      obtain ⟨s₁, hs₁, hread⟩ := (region_alike ht htypes hclasses h (hlen region (by simp))
        hdeadlines heach).right _ hregion
      obtain ⟨s', hs', hread'⟩ := ih (fun r hr => hlen r (by simp [hr])) hread hfits hrest
      exact ⟨s', by rw [List.foldlM_cons, bind_ok]; exact ⟨s₁, hs₁, hs'⟩, hread'⟩

end Records

end Hermas.Compiler
