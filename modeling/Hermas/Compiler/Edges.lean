import Hermas.Compiler.Regions
import Mathlib.Data.List.Perm.Subperm

/-!
# Loader and decoder on the edges

Both check an edge the same way, but at different times: the loader refuses the
second edge at a port when it meets it, the decoder counts and looks at the ports
in the end. An edge of a kind that has ports is one of a node or region that is
looked at, so it comes to the same.
-/

namespace Hermas.Compiler

open Hermas.Image (Header Tables TypeRecord Node Edge Region NodeClass EachRegion RegionState
  classAt isActionNode)

section One

variable {bytes : Bytes} {tables : Tables} {descriptors : TypeDescriptors}
  {classes : List NodeClass} {s : RegionState} {d : DecodedRegions}

theorem RegionsRead.eachAt (h : RegionsRead classes s d) (region : UInt16) :
    Image.eachAt s region = d.each region := by
  unfold Image.eachAt DecodedRegions.each
  rw [h.each]

theorem dispatchSource_eq (ht : TypesRead tables descriptors) {edge : Edge}
    (hk : edge.sourceKind = 5) :
    Image.validDispatchSource bytes tables classes edge =
      dispatchSource bytes descriptors classes edge := by
  unfold Image.validDispatchSource dispatchSource
  rw [hk]
  cases classAt classes edge.sourceNode with
  | none => rfl
  | some c =>
      cases c with
      | dispatch variant cases =>
          simp only [ht.get, representationChildRange_eq, beq_self_eq_true, Bool.true_and]
          congr 1
          cases tables.descriptor variant with
          | none => rfl
          | some descriptor =>
              cases tables.descriptor edge.sourceType with
              | none =>
                  simp only
                  cases Image.representationChild bytes descriptor.1 descriptor.2
                    edge.caseTag.toNat <;> rfl
              | some source =>
                  simp only
                  cases Image.representationChild bytes descriptor.1 descriptor.2
                    edge.caseTag.toNat <;> rfl
      | action | terminal | fork | join => rfl

/-- Both allow an edge the same sources. -/
theorem source_eq (ht : TypesRead tables descriptors) (h : RegionsRead classes s d) (edge : Edge) :
    Image.validSource bytes tables classes s edge =
      sourceAllowed bytes tables descriptors classes d edge := by
  unfold sourceAllowed
  simp only [ht.contains]
  by_cases h0 : edge.sourceKind = 0
  · simp [Image.validSource, Image.validDispatchSource, h0]
  rw [if_neg h0]
  by_cases h12 : edge.sourceKind = 1 ∨ edge.sourceKind = 2
  · rw [if_pos h12]
    rcases h12 with h1 | h2
    · simp [Image.validSource, Image.validDispatchSource, h1, isActionNode, actionNodes]
    · simp [Image.validSource, Image.validDispatchSource, h2, isActionNode, actionNodes]
  rw [if_neg h12]
  by_cases h34 : edge.sourceKind = 3 ∨ edge.sourceKind = 4
  · rw [if_pos h34]
    rcases h34 with h3 | h4
    · simp [Image.validSource, Image.validDispatchSource, h3, isActionNode, actionNodes]
    · simp [Image.validSource, Image.validDispatchSource, h4, isActionNode, actionNodes]
  rw [if_neg h34]
  by_cases h5 : edge.sourceKind = 5
  · rw [if_pos h5, ← dispatchSource_eq ht h5]
    simp [Image.validSource, h5]
  rw [if_neg h5]
  by_cases h6 : edge.sourceKind = 6
  · cases hclass : classAt classes edge.sourceNode with
    | none => simp [Image.validSource, Image.validDispatchSource, h6, hclass]
    | some c => cases c <;> simp [Image.validSource, Image.validDispatchSource, h6, hclass]
  rw [if_neg h6]
  by_cases h7 : edge.sourceKind = 7
  · cases hclass : classAt classes edge.sourceNode with
    | none => simp [Image.validSource, Image.validDispatchSource, h7, hclass]
    | some c => cases c <;> simp [Image.validSource, Image.validDispatchSource, h7, hclass]
  rw [if_neg h7]
  by_cases h8 : edge.sourceKind = 8
  · simp [Image.validSource, Image.validDispatchSource, h8, h.eachAt]
    cases d.each edge.sourceNode <;> simp
  rw [if_neg h8]
  by_cases h9 : edge.sourceKind = 9
  · simp [Image.validSource, Image.validDispatchSource, h9, h.eachAt]
    cases d.each edge.sourceNode <;> simp
  · rw [if_neg h9]
    rw [not_or] at h12 h34
    simp [Image.validSource, Image.validDispatchSource, h0, h12, h34, h5, h6, h7, h8, h9]

/-- Both allow an edge the same targets, for a target that is a node or a region numbered like
one. -/
theorem target_eq (ht : TypesRead tables descriptors) (h : RegionsRead classes s d) (edge : Edge) :
    Image.validTarget tables classes s edge =
      (0 < edge.targetNode && edge.targetNode.toNat ≤ tables.header.nodeCount &&
        targetAllowed tables descriptors classes d edge) := by
  unfold Image.validTarget targetAllowed
  simp only [ht.contains, h.eachAt]
  congr 1
  split
  · rfl
  split
  · cases classAt classes edge.targetNode with
    | none => rfl
    | some c =>
        cases c with
        | terminal subtype =>
            simp only
            by_cases h1 : subtype = 1
            · simp [h1]
            by_cases h2 : subtype = 2
            · simp [h2]
            by_cases h3 : subtype = 3
            · simp [h3]
            by_cases h4 : subtype = 4
            · simp [h4]
            · simp [h1, h2, h3, h4]
        | action | dispatch | fork | join => rfl
  split
  · rfl
  split
  · rfl
  split
  · rfl
  split
  · cases d.each edge.targetNode with
    | none => rfl
    | some each => simp [Bool.and_comm]
  split
  · cases d.each edge.targetNode with
    | none => rfl
    | some each => simp [Bool.and_comm]
  · rfl

/-- What the decoder demands of an edge by itself. -/
structure EdgeOk (bytes : Bytes) (tables : Tables) (descriptors : TypeDescriptors)
    (classes : List NodeClass) (d : DecodedRegions) (edge : Edge) : Prop where
  source : sourceAllowed bytes tables descriptors classes d edge = true
  target : targetAllowed tables descriptors classes d edge = true
  presentation : Image.validPresentation edge = true
  tag : ¬ (edge.sourceKind ≠ 5 ∧ edge.sourceKind ≠ 6 ∧ edge.sourceKind ≠ 7 ∧ edge.sourceKind ≠ 8 ∧
    edge.sourceKind ≠ 9 ∧ edge.targetKind ≠ 5 ∧ edge.caseTag ≠ 0)
  reserved : edge.reserved = 0

theorem each_le {region : UInt16} {each : EachRegion} (h : d.each region = some each) :
    region ≠ 0 ∧ region.toNat ≤ d.eachRegions.length := by
  unfold DecodedRegions.each at h
  split at h
  · cases h
  · rename_i hne
    obtain ⟨hlt, -⟩ := List.getElem?_eq_some_iff.mp h
    have hpos : region.toNat ≠ 0 := fun h0 => hne (UInt16.toNat_inj.mp (by simpa using h0))
    exact ⟨hne, by omega⟩

/-- A target of the decoder is one of the loader's when the regions are numbered like nodes. -/
theorem target_le (hclasses : classes.length = tables.header.nodeCount)
    (heach : d.eachRegions.length ≤ tables.header.nodeCount) {edge : Edge}
    (h : targetAllowed tables descriptors classes d edge = true) :
    edge.targetNode ≠ 0 ∧ edge.targetNode.toNat ≤ tables.header.nodeCount := by
  have hnode : ∀ c, classAt classes edge.targetNode = some c →
      edge.targetNode ≠ 0 ∧ edge.targetNode.toNat ≤ tables.header.nodeCount := by
    intro c hc
    rw [← hclasses]
    exact classAt_le hc
  have hregion : ∀ each, d.each edge.targetNode = some each →
      edge.targetNode ≠ 0 ∧ edge.targetNode.toNat ≤ tables.header.nodeCount := by
    intro each hat
    obtain ⟨hne, hle⟩ := each_le hat
    exact ⟨hne, hle.trans heach⟩
  unfold targetAllowed at h
  simp only [actionNodes] at h
  split at h
  · rw [Bool.and_eq_true, beq_iff_eq] at h
    exact hnode _ h.1
  split at h
  · split at h
    · exact hnode _ (by assumption)
    · cases h
  split at h
  · split at h
    · exact hnode _ (by assumption)
    · cases h
  split at h
  · split at h
    · exact hnode _ (by assumption)
    · cases h
  split at h
  · split at h
    · exact hnode _ (by assumption)
    · cases h
  split at h
  · obtain ⟨each, hat, -⟩ := (Option.any_eq_true _ _).mp h
    exact hregion each hat
  split at h
  · obtain ⟨each, hat, -⟩ := (Option.any_eq_true _ _).mp h
    exact hregion each hat
  · cases h

theorem sameEdge_iff (a b : Edge) : Image.sameEdge a b = true ↔ edgeKey a = edgeKey b := by
  simp only [Image.sameEdge, edgeKey, Bool.and_eq_true, beq_iff_eq, Prod.mk.injEq, and_assoc]

theorem decodeEdge_ok {prior : List Edge} {edge : Edge} :
    decodeEdge bytes tables descriptors classes d prior edge = .ok () ↔
      EdgeOk bytes tables descriptors classes d edge ∧ ¬ edgeKey edge ∈ prior.map edgeKey ∧
        (edge.targetKind = 5 → joinInput prior (edge.targetNode, edge.caseTag) = none) ∧
        (edge.sourceKind = 7 → joinOutput prior (edge.sourceNode, edge.caseTag) = none) := by
  simp only [decodeEdge, bind_ok, require_ok, not_or, not_not, not_and,
    Option.not_isSome_iff_eq_none]
  constructor
  · rintro ⟨⟨⟩, ⟨hs, ht, hp, htag, hr⟩, ⟨⟩, hkey, ⟨⟩, hin, hout⟩
    refine ⟨⟨hs, ht, hp, ?_, hr⟩, hkey, hin, hout⟩
    rintro ⟨h5, h6, h7, h8, h9, h5', htag'⟩
    exact htag' (htag h5 h6 h7 h8 h9 h5')
  · rintro ⟨⟨hs, ht, hp, htag, hr⟩, hkey, hin, hout⟩
    refine ⟨(), ⟨hs, ht, hp, ?_, hr⟩, (), hkey, (), hin, hout⟩
    intro h5 h6 h7 h8 h9 h5'
    by_contra htag'
    exact htag ⟨h5, h6, h7, h8, h9, h5', htag'⟩

theorem validateEdge_ok (ht : TypesRead tables descriptors) (h : RegionsRead classes s d)
    {prior : List Edge} {edge : Edge} :
    Image.validateEdge bytes tables classes s prior edge = .ok () ↔
      (EdgeOk bytes tables descriptors classes d edge ∧ edge.targetNode ≠ 0 ∧
        edge.targetNode.toNat ≤ tables.header.nodeCount) ∧
        ¬ edgeKey edge ∈ prior.map edgeKey ∧
        (edge.targetKind = 1 ∨ edge.targetKind = 3 ∨ edge.targetKind = 4 →
          Image.inputCount (prior ++ [edge]) edge.targetNode ≤ 1) ∧
        (edge.targetKind = 5 ∨ edge.targetKind = 6 ∨ edge.targetKind = 7 →
          Image.targetCount (prior ++ [edge]) edge.targetKind edge.targetNode edge.caseTag ≤ 1) ∧
        (5 ≤ edge.sourceKind →
          Image.caseCount (prior ++ [edge]) edge.sourceKind edge.sourceNode edge.caseTag ≤ 1) := by
  have hkey : ¬ prior.any (Image.sameEdge edge) = true ↔ ¬ edgeKey edge ∈ prior.map edgeKey := by
    simp only [List.any_eq_true, sameEdge_iff, List.mem_map]
    constructor
    · rintro hno ⟨other, hmem, hsame⟩
      exact hno ⟨other, hmem, hsame.symm⟩
    · rintro hno ⟨other, hmem, hsame⟩
      exact hno ⟨other, hmem, hsame.symm⟩
  have hpos : 0 < edge.targetNode ↔ edge.targetNode ≠ 0 := by
    rw [UInt16.lt_iff_toNat_lt, ne_eq, ← UInt16.toNat_inj]
    exact Nat.pos_iff_ne_zero
  have hcount : ∀ (p : Prop) (n : Nat), ¬ (p ∧ 1 < n) ↔ (p → n ≤ 1) := by
    intro p n
    rw [not_and, Nat.not_lt]
  simp only [Image.validateEdge, bind_ok, require_ok, source_eq ht h, target_eq ht h, hkey, hcount,
    Bool.and_eq_true, decide_eq_true_eq, hpos]
  constructor
  · rintro ⟨⟨⟩, ⟨hs, ⟨⟨hne, hle⟩, htarget⟩, hp, htag, hr⟩, ⟨⟩, hfresh, ⟨⟩, hin, ⟨⟩, hjoin, hcase⟩
    exact ⟨⟨⟨hs, htarget, hp, htag, hr⟩, hne, hle⟩, hfresh, hin, hjoin, hcase⟩
  · rintro ⟨⟨⟨hs, htarget, hp, htag, hr⟩, hne, hle⟩, hfresh, hin, hjoin, hcase⟩
    exact ⟨(), ⟨hs, ⟨⟨hne, hle⟩, htarget⟩, hp, htag, hr⟩, (), hfresh, (), hin, (), hjoin, hcase⟩

end One

/-! ## Ports -/

section Ports

variable {bytes : Bytes} {tables : Tables} {descriptors : TypeDescriptors}
  {classes : List NodeClass} {s : RegionState} {d : DecodedRegions} {edges : List Edge}

/-- An edge at a port of an each region carries no tag. -/
theorem EdgeOk.each_tag {edge : Edge} (h : EdgeOk bytes tables descriptors classes d edge)
    (hk : edge.sourceKind = 8 ∨ edge.sourceKind = 9 ∨ edge.targetKind = 6 ∨ edge.targetKind = 7) :
    edge.caseTag = 0 := by
  have hs := h.source
  have ht := h.target
  unfold sourceAllowed at hs
  unfold targetAllowed at ht
  rcases hk with hk | hk | hk | hk
  · simp [hk] at hs
    obtain ⟨each, -, hboth⟩ := (Option.any_eq_true _ _).mp hs
    rw [Bool.and_eq_true, beq_iff_eq] at hboth
    exact hboth.1
  · simp [hk] at hs
    obtain ⟨each, -, hboth⟩ := (Option.any_eq_true _ _).mp hs
    rw [Bool.and_eq_true, beq_iff_eq] at hboth
    exact hboth.1
  · simp [hk] at ht
    obtain ⟨each, -, hboth⟩ := (Option.any_eq_true _ _).mp ht
    rw [Bool.and_eq_true, beq_iff_eq] at hboth
    exact hboth.1
  · simp [hk] at ht
    obtain ⟨each, -, hboth⟩ := (Option.any_eq_true _ _).mp ht
    rw [Bool.and_eq_true, beq_iff_eq] at hboth
    exact hboth.1

theorem EdgeOk.input_node {edge : Edge} (h : EdgeOk bytes tables descriptors classes d edge)
    (hk : edge.sourceKind = 0) : edge.sourceNode = 0 := by
  have hs := h.source
  simp only [sourceAllowed, hk, if_true, Bool.and_eq_true, beq_iff_eq] at hs
  exact hs.1.1

theorem joinInput_eq (node : UInt16) (tag : UInt8) :
    joinInput edges (node, tag) = (edges.find? fun e =>
      e.targetKind == 5 && e.targetNode == node && e.caseTag == tag).map (·.targetType) := by
  unfold joinInput
  congr 2
  funext e
  rw [Bool.and_assoc]
  rfl

theorem joinOutput_eq (node : UInt16) (tag : UInt8) :
    joinOutput edges (node, tag) = (edges.find? fun e =>
      e.sourceKind == 7 && e.sourceNode == node && e.caseTag == tag).map (·.sourceType) := by
  unfold joinOutput
  congr 2
  funext e
  rw [Bool.and_assoc]
  rfl

theorem find?_eq_none_iff_countP {α : Type} (p : α → Bool) (xs : List α) :
    xs.find? p = none ↔ xs.countP p = 0 := by
  rw [List.find?_eq_none, List.countP_eq_zero]

theorem joinInput_eq_none (edges : List Edge) (node : UInt16) (tag : UInt8) :
    joinInput edges (node, tag) = none ↔ Image.targetCount edges 5 node tag = 0 := by
  rw [joinInput_eq, Option.map_eq_none_iff, find?_eq_none_iff_countP]
  rfl

theorem joinOutput_eq_none (edges : List Edge) (node : UInt16) (tag : UInt8) :
    joinOutput edges (node, tag) = none ↔ Image.caseCount edges 7 node tag = 0 := by
  rw [joinOutput_eq, Option.map_eq_none_iff, find?_eq_none_iff_countP]
  rfl

theorem joinInputType_eq (node : UInt16) (tag : UInt8) :
    Image.joinInputType edges node tag = (joinInput edges (node, tag)).getD 0 := by
  rw [joinInput_eq, Image.joinInputType]
  cases edges.find? _ <;> rfl

theorem joinOutputType_eq (node : UInt16) (tag : UInt8) :
    Image.joinOutputType edges node tag = (joinOutput edges (node, tag)).getD 0 := by
  rw [joinOutput_eq, Image.joinOutputType]
  cases edges.find? _ <;> rfl

theorem sourcePorts_case {kind : UInt8} (hk : 5 ≤ kind ∧ kind ≤ 7) (node : UInt16) (tag : UInt8) :
    sourcePorts edges (kind, node, tag) = Image.caseCount edges kind node tag := by
  unfold sourcePorts Image.caseCount
  congr 1
  funext e
  by_cases hkind : e.sourceKind = kind
  · rw [Bool.eq_iff_iff]
    simp [sourcePort, hkind, hk]
  · rw [Bool.eq_iff_iff]
    simp [sourcePort, hkind]

theorem sourcePorts_plain {kind : UInt8} (hk : ¬ (5 ≤ kind ∧ kind ≤ 7)) (node : UInt16) :
    sourcePorts edges (kind, node, 0) = Image.sourceCount edges kind node := by
  unfold sourcePorts Image.sourceCount
  congr 1
  funext e
  by_cases hkind : e.sourceKind = kind
  · rw [Bool.eq_iff_iff]
    simp only [sourcePort, hkind, if_neg hk]
    simp
  · rw [Bool.eq_iff_iff]
    simp [sourcePort, hkind]

section Checked

variable (hok : ∀ edge ∈ edges, EdgeOk bytes tables descriptors classes d edge)

include hok

theorem sourcePorts_input :
    sourcePorts edges (0, 0, 0) = edges.countP (·.sourceKind == 0) := by
  rw [sourcePorts_plain (by decide)]
  refine List.countP_congr fun edge he => ?_
  simp only [Bool.and_eq_true, beq_iff_eq]
  exact and_iff_left_of_imp (hok edge he).input_node

theorem sourcePorts_each {kind : UInt8} (hk : kind = 8 ∨ kind = 9) (region : UInt16) :
    sourcePorts edges (kind, region, 0) = Image.caseCount edges kind region 0 := by
  rw [sourcePorts_plain (by rcases hk with rfl | rfl <;> decide)]
  refine List.countP_congr fun edge he => ?_
  simp only [Bool.and_eq_true, beq_iff_eq]
  refine (and_iff_left_of_imp ?_).symm
  rintro ⟨hkind, -⟩
  exact (hok edge he).each_tag (by rcases hk with rfl | rfl <;> simp [hkind])

theorem eachPorts_eq {kind : UInt8} (hk : kind = 6 ∨ kind = 7) (region : UInt16) :
    eachPorts edges kind region = Image.targetCount edges kind region 0 := by
  refine List.countP_congr fun edge he => ?_
  simp only [Bool.and_eq_true, beq_iff_eq]
  refine (and_iff_left_of_imp ?_).symm
  rintro ⟨hkind, -⟩
  exact (hok edge he).each_tag (by rcases hk with rfl | rfl <;> simp [hkind])

end Checked

/-- The connected ports of a join carry the types of its fields. -/
theorem joinTag_iff {node : UInt16} {tag : UInt8} (hin : Image.targetCount edges 5 node tag ≤ 1)
    (hout : Image.caseCount edges 7 node tag ≤ 1) :
    (Image.targetCount edges 5 node tag == 1 && Image.caseCount edges 7 node tag ≤ 1 &&
      (Image.caseCount edges 7 node tag != 1 ||
        Image.joinInputType edges node tag == Image.joinOutputType edges node tag)) =
    !((joinInput edges (node, tag)).isNone ||
      (joinOutput edges (node, tag)).any fun output => some output != joinInput edges (node, tag)) := by
  rw [joinInputType_eq, joinOutputType_eq]
  have hnoIn := joinInput_eq_none edges node tag
  have hnoOut := joinOutput_eq_none edges node tag
  cases hi : joinInput edges (node, tag) with
  | none => simp [hnoIn.mp hi]
  | some input =>
      have hone : Image.targetCount edges 5 node tag = 1 := by
        have := mt hnoIn.mpr (by rw [hi]; simp)
        omega
      cases ho : joinOutput edges (node, tag) with
      | none => simp [hone, hnoOut.mp ho]
      | some output =>
          have hone' : Image.caseCount edges 7 node tag = 1 := by
            have := mt hnoOut.mpr (by rw [ho]; simp)
            omega
          by_cases hio : output = input
          · simp [hone, hone', hio]
          · have hoi : (input == output) = false := by simpa using Ne.symm hio
            have hoi' : (some output != some input) = true := by simpa using hio
            simp [hone, hone', hoi, hoi']

theorem join_iff (hin : ∀ node tag, Image.targetCount edges 5 node tag ≤ 1)
    (hout : ∀ node tag, Image.caseCount edges 7 node tag ≤ 1) (node : UInt16) (branches : UInt8) :
    Image.nodeTopology edges s node (.join branches) = !portsMissing edges node (.join branches) := by
  have hused : ∀ tag, (Image.caseCount edges 7 node tag != 0) =
      (joinOutput edges (node, tag)).isSome := by
    intro tag
    have hnone := joinOutput_eq_none edges node tag
    cases ho : joinOutput edges (node, tag) with
    | none => simp [hnone.mp ho]
    | some output => simpa using mt hnone.mpr (by rw [ho]; simp)
  unfold Image.nodeTopology portsMissing
  simp only [joinTag_iff (hin node _) (hout node _), hused]
  rw [Bool.eq_iff_iff]
  simp only [Bool.and_eq_true, List.all_eq_true, List.any_eq_true, Bool.not_eq_true',
    Bool.or_eq_false_iff, List.any_eq_false, beq_eq_false_iff_ne, ne_eq, List.countP_eq_zero,
    not_forall, Bool.or_eq_true, not_or, Bool.not_eq_true, Bool.not_eq_false, exists_prop]
  exact and_comm

/-- A node whose ports are connected passes, but for its part in a saga. -/
theorem ports_iff (hin : ∀ node tag, Image.targetCount edges 5 node tag ≤ 1)
    (hout : ∀ node tag, Image.caseCount edges 7 node tag ≤ 1) (node : UInt16) {c : NodeClass}
    (hc : c ≠ .action) :
    Image.nodeTopology edges s node c = !portsMissing edges node c := by
  have hfive : (5 : UInt8) ≤ 5 ∧ (5 : UInt8) ≤ 7 := by decide
  have hsix : (5 : UInt8) ≤ 6 ∧ (6 : UInt8) ≤ 7 := by decide
  cases c with
  | action => exact absurd rfl hc
  | terminal => rfl
  | join branches => exact join_iff hin hout node branches
  | dispatch variant cases =>
      simp only [Image.nodeTopology, portsMissing, sourcePorts_case hfive]
      rw [Bool.eq_iff_iff]
      simp [inputTargets, Image.inputCount]
  | fork type branches =>
      simp only [Image.nodeTopology, portsMissing, sourcePorts_case hsix, Image.tags]
      rw [Bool.eq_iff_iff]
      simp [inputTargets, Image.inputCount]

end Ports

/-! ## Actions and sagas -/

section Sagas

variable {tables : Tables} {classes : List NodeClass} {s : RegionState} {d : DecodedRegions}
  {edges : List Edge}

/-- The ports of an action. -/
def actionPorts (edges : List Edge) (node : UInt16) : Bool :=
  Image.inputCount edges node == 1 && Image.sourceCount edges 1 node == 1 &&
    Image.sourceCount edges 2 node == 1 && Image.sourceCount edges 3 node == 1 &&
    Image.sourceCount edges 4 node == 1

/-- What the loader asks of an action in a saga. -/
def sagaAction (edges : List Edge) (s : RegionState) (node : UInt16) : Bool :=
  s.sagaSourceType node != 0 && s.sagaSuccessType node != 0 && s.sagaErrorType node != 0 &&
    s.sagaSourceType node == Image.actionSuccessType edges node

theorem nodeTopology_action (node : UInt16) :
    Image.nodeTopology edges s node .action =
      (actionPorts edges node && (s.sagaCount == 0 || sagaAction edges s node)) := rfl

theorem portsMissing_action (node : UInt16) :
    portsMissing edges node .action = !actionPorts edges node := by
  have hplain : ∀ kind : UInt8, kind = 1 ∨ kind = 2 ∨ kind = 3 ∨ kind = 4 →
      sourcePorts edges (kind, node, 0) = Image.sourceCount edges kind node := by
    intro kind hk
    exact sourcePorts_plain (by rcases hk with rfl | rfl | rfl | rfl <;> decide) node
  simp only [portsMissing, actionPorts, hplain 1 (by simp), hplain 2 (by simp),
    hplain 3 (by simp), hplain 4 (by simp), inputTargets, Image.inputCount, bne, Bool.not_and,
    Bool.or_assoc]

theorem actionSuccessType_eq (node : UInt16) :
    Image.actionSuccessType edges node = (actionSuccess edges node).getD 0 := by
  unfold Image.actionSuccessType actionSuccess
  cases edges.reverse.find? _ <;> rfl

/-- Once as many steps as actions have an outcome, every step has one. -/
theorem RegionsRead.outcome_of_step (h : RegionsRead classes s d)
    (hcount : d.sagaOutcomes.length = d.sagaSteps.length) {node : UInt16}
    (hstep : node ∈ d.sagaSteps.map (·.1)) : node ∈ d.sagaOutcomes.map (·.1) := by
  have hsub := List.subperm_of_subset h.settled h.started
  have hperm := hsub.perm_of_length_le (by simp [hcount])
  exact hperm.mem_iff.mpr hstep

/-- The saga of an action, when every step has an outcome. -/
theorem RegionsRead.saga_iff (h : RegionsRead classes s d)
    (hcount : d.sagaOutcomes.length = d.sagaSteps.length) (node : UInt16) :
    sagaAction edges s node =
      (d.step node).any fun step => actionSuccess edges node == some step.sourceType := by
  have hzero := h.source_eq_zero node
  have hsource := h.source node
  rw [Bool.eq_iff_iff]
  simp only [sagaAction, actionSuccessType_eq, Bool.and_eq_true, bne_iff_ne, beq_iff_eq]
  cases hstep : d.step node with
  | none => simp [hzero.mpr hstep]
  | some step =>
      have hmem := h.step_eq.mp hstep
      have htyped := h.typed _ hmem
      have houtcome := h.outcome_of_step hcount (List.mem_map.mpr ⟨_, hmem, rfl⟩)
      have hsuccess := (h.success node).mpr houtcome
      have herror := (h.error node).mpr houtcome
      rw [hstep, Option.elim_some] at hsource
      simp only [hsource, Option.any_some, beq_iff_eq]
      constructor
      · rintro ⟨-, hsame⟩
        cases hlast : actionSuccess edges node with
        | none =>
            rw [hlast] at hsame
            exact absurd hsame htyped
        | some type =>
            rw [hlast] at hsame
            rw [hsame]
            rfl
      · intro hlast
        rw [hlast]
        exact ⟨⟨⟨htyped, hsuccess⟩, herror⟩, rfl⟩

end Sagas

end Hermas.Compiler
