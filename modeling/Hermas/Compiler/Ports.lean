import Hermas.Compiler.Edges
import Hermas.Image.Graph

/-!
# Loader and decoder on the topology

What the loader counts along the way and what the decoder counts in the end are
the same ports. Reachability is left to the next file.
-/

namespace Hermas.Compiler

open Hermas.Image (Header Tables TypeRecord Node Edge Region NodeClass EachRegion RegionState
  classAt isActionNode nodeIds)

/-! ## Counting along the way -/

section Counting

variable {α : Type} {p : α → Bool}

/-- No second hit in any prefix that ends in a hit means no second hit at all. -/
theorem countP_le_one {xs : List α} (h : ∀ before x after, xs = before ++ x :: after →
    p x = true → (before ++ [x]).countP p ≤ 1) : xs.countP p ≤ 1 := by
  induction xs using List.reverseRecOn with
  | nil => simp
  | append_singleton xs x ih =>
      by_cases hx : p x = true
      · exact h xs x [] rfl hx
      · rw [List.countP_append, List.countP_singleton, if_neg hx, Nat.add_zero]
        refine ih fun before y after hxs hy => ?_
        exact h before y (after ++ [x]) (by rw [hxs]; simp) hy

theorem countP_prefix_le {before after : List α} {x : α} :
    (before ++ [x]).countP p ≤ (before ++ x :: after).countP p := by
  rw [List.countP_append, List.countP_append, List.countP_cons, List.countP_cons]
  simp only [List.countP_nil]
  omega

end Counting

variable {bytes : Bytes} {tables : Tables} {descriptors : TypeDescriptors}
  {classes : List NodeClass} {s : RegionState} {d : DecodedRegions} {edges : List Edge}

theorem zip_class {node : UInt16} {c : NodeClass} (hlen : classes.length < 65536) :
    (node, c) ∈ (nodeIds classes).zip classes ↔ classAt classes node = some c := by
  constructor
  · intro hmem
    obtain ⟨index, hlt, hget⟩ := List.mem_iff_getElem.mp hmem
    have hindex : index < classes.length := by
      simp [nodeIds] at hlt
      exact hlt
    simp only [List.getElem_zip, nodeIds, List.getElem_map, List.getElem_range,
      Prod.mk.injEq] at hget
    obtain ⟨rfl, rfl⟩ := hget
    have hnat : (UInt16.ofNat (index + 1)).toNat = index + 1 := by
      rw [UInt16.toNat_ofNat']
      exact Nat.mod_eq_of_lt (by omega)
    have hne : UInt16.ofNat (index + 1) ≠ 0 := by
      intro hzero
      rw [hzero] at hnat
      exact absurd hnat (by simp)
    rw [classAt, if_neg hne, hnat, Nat.add_sub_cancel, List.getElem?_eq_getElem hindex]
  · exact Image.mem_zip_of_classAt

/-- An each region that is kept is among the numbered ones. -/
theorem region_mem_ids {region : UInt16} {each : EachRegion} (h : d.each region = some each) :
    region ∈ ids d.eachRegions.length := by
  obtain ⟨hne, hle⟩ := each_le h
  have hpos : region.toNat ≠ 0 := fun h0 => hne (UInt16.toNat_inj.mp (by simpa using h0))
  refine List.mem_map.mpr ⟨region.toNat - 1, List.mem_range.mpr (by omega), ?_⟩
  rw [Nat.sub_add_cancel (Nat.pos_of_ne_zero hpos)]
  exact UInt16.ofNat_toNat

/-- The ports that both find connected. -/
structure Connected (edges : List Edge) (classes : List NodeClass) (d : DecodedRegions) : Prop where
  nodes : ∀ node c, classAt classes node = some c → portsMissing edges node c = false
  input : sourcePorts edges (0, 0, 0) = 1
  each : ∀ region ∈ ids d.eachRegions.length, eachPorts edges 6 region = 1 ∧
    eachPorts edges 7 region = 1 ∧ sourcePorts edges (8, region, 0) = 1 ∧
    sourcePorts edges (9, region, 0) = 1
  saga : sagaIncomplete edges classes d = false

/-- The decoder's check of the ports. -/
theorem connected_iff (hlen : classes.length < 65536) :
    (¬ (((ids classes.length).zip classes).any (fun entry => portsMissing edges entry.1 entry.2) ∨
        sourcePorts edges (0, 0, 0) ≠ 1 ∨
        (ids d.eachRegions.length).any (fun region =>
          eachPorts edges 6 region != 1 || eachPorts edges 7 region != 1 ||
            sourcePorts edges (8, region, 0) != 1 || sourcePorts edges (9, region, 0) != 1) ∨
        sagaIncomplete edges classes d)) ↔ Connected edges classes d := by
  have hids : ids classes.length = nodeIds classes := rfl
  simp only [not_or, hids, List.any_eq_true, Bool.or_eq_true, bne_iff_ne, not_exists, not_and,
    not_not, Bool.not_eq_true, Prod.forall, zip_class hlen]
  constructor
  · rintro ⟨hnodes, hinput, heach, hsaga⟩
    refine ⟨hnodes, hinput, fun region hmem => ?_, hsaga⟩
    have h := heach region hmem
    omega
  · rintro ⟨hnodes, hinput, heach, hsaga⟩
    refine ⟨hnodes, hinput, fun region hmem => ?_, hsaga⟩
    obtain ⟨h6, h7, h8, h9⟩ := heach region hmem
    exact ⟨⟨⟨h6, h7⟩, h8⟩, h9⟩

/-- At a join every port is connected once at most. -/
structure JoinsOnce (edges : List Edge) : Prop where
  input : ∀ node tag, Image.targetCount edges 5 node tag ≤ 1
  output : ∀ node tag, Image.caseCount edges 7 node tag ≤ 1

/-- The loader's checks of the topology, but for reachability. -/
structure Counted (edges : List Edge) (classes : List NodeClass) (s : RegionState) : Prop where
  input : edges.countP (·.sourceKind == 0) = 1
  nodes : ∀ entry ∈ (nodeIds classes).zip classes,
    Image.nodeTopology edges s entry.1 entry.2 = true
  saga : s.sagaCount = 0 ∨ (s.sagaCount = classes.countP (· == .action) ∧
    s.sagaOutcomeCount = s.sagaCount)
  each : ∀ index ∈ List.range s.each.length,
    Image.targetCount edges 6 (UInt16.ofNat (index + 1)) 0 = 1 ∧
    Image.targetCount edges 7 (UInt16.ofNat (index + 1)) 0 = 1 ∧
    Image.caseCount edges 8 (UInt16.ofNat (index + 1)) 0 = 1 ∧
    Image.caseCount edges 9 (UInt16.ofNat (index + 1)) 0 = 1

/-- The saga of every action is complete. -/
theorem saga_complete_iff (h : RegionsRead classes s d) :
    sagaIncomplete edges classes d = false ↔
      (s.sagaCount = 0 ∨ (s.sagaCount = classes.countP (· == .action) ∧
        s.sagaOutcomeCount = s.sagaCount)) ∧
      ∀ node, classAt classes node = some .action →
        (s.sagaCount == 0 || sagaAction edges s node) = true := by
  rw [h.steps, h.outcomes]
  by_cases hnil : d.sagaSteps = []
  · simp [sagaIncomplete, hnil]
  have hne : (d.sagaSteps != []) = true := by simpa using hnil
  have hpos : d.sagaSteps.length ≠ 0 := fun h0 => hnil (List.length_eq_zero_iff.mp h0)
  have hnode : ∀ node, actionNodes classes node = true → node ∈ ids classes.length := by
    intro node haction
    exact Image.mem_nodeIds (beq_iff_eq.mp haction)
  simp only [sagaIncomplete, hne, Bool.true_and, Bool.or_eq_false_iff, bne_eq_false_iff_eq,
    List.any_eq_false, Bool.and_eq_true, not_and, Bool.not_eq_true', Bool.not_eq_false, hpos,
    false_or, beq_eq_false_iff_ne.mpr hpos, Bool.false_or]
  constructor
  · rintro ⟨⟨hactions, hcount⟩, hall⟩
    refine ⟨⟨hactions, hcount⟩, fun node hclass => ?_⟩
    have haction : actionNodes classes node = true := beq_iff_eq.mpr hclass
    rw [h.saga_iff hcount]
    exact hall node (hnode node haction) haction
  · rintro ⟨⟨hactions, hcount⟩, hall⟩
    refine ⟨⟨hactions, hcount⟩, fun node _ haction => ?_⟩
    rw [← h.saga_iff hcount]
    exact hall node (beq_iff_eq.mp haction)

/-- **Both find the same ports connected.** -/
theorem connected_iff_counted (h : RegionsRead classes s d) (hlen : classes.length < 65536)
    (hok : ∀ edge ∈ edges, EdgeOk bytes tables descriptors classes d edge)
    (hjoins : JoinsOnce edges) : Connected edges classes d ↔ Counted edges classes s := by
  have hports : ∀ node c, c ≠ .action →
      (Image.nodeTopology edges s node c = true ↔ portsMissing edges node c = false) := by
    intro node c hc
    rw [ports_iff hjoins.input hjoins.output node hc, Bool.not_eq_true']
  constructor
  · intro hc
    obtain ⟨hsaga, hactions⟩ := (saga_complete_iff h).mp hc.saga
    refine ⟨by rw [← sourcePorts_input hok]; exact hc.input, ?_, hsaga, ?_⟩
    · rintro ⟨node, c⟩ hmem
      rw [zip_class hlen] at hmem
      have hmissing := hc.nodes node c hmem
      by_cases haction : c = .action
      · subst haction
        rw [portsMissing_action, Bool.not_eq_false'] at hmissing
        rw [nodeTopology_action, hmissing, Bool.true_and]
        exact hactions node hmem
      · exact (hports node c haction).mpr hmissing
    · intro index hindex
      rw [h.each] at hindex
      obtain ⟨h6, h7, h8, h9⟩ := hc.each _ (List.mem_map.mpr ⟨index, hindex, rfl⟩)
      rw [eachPorts_eq hok (.inl rfl)] at h6
      rw [eachPorts_eq hok (.inr rfl)] at h7
      rw [sourcePorts_each hok (.inl rfl)] at h8
      rw [sourcePorts_each hok (.inr rfl)] at h9
      exact ⟨h6, h7, h8, h9⟩
  · intro hc
    refine ⟨?_, by rw [sourcePorts_input hok]; exact hc.input, ?_,
      (saga_complete_iff h).mpr ⟨hc.saga, ?_⟩⟩
    · intro node c hclass
      have htop := hc.nodes (node, c) ((zip_class hlen).mpr hclass)
      by_cases haction : c = .action
      · subst haction
        rw [nodeTopology_action, Bool.and_eq_true] at htop
        rw [portsMissing_action, htop.1]
        rfl
      · exact (hports node c haction).mp htop
    · intro region hmem
      obtain ⟨index, hindex, rfl⟩ := List.mem_map.mp hmem
      rw [eachPorts_eq hok (.inl rfl), eachPorts_eq hok (.inr rfl),
        sourcePorts_each hok (.inl rfl), sourcePorts_each hok (.inr rfl)]
      exact hc.each index (by rw [h.each]; exact hindex)
    · intro node hclass
      have htop := hc.nodes (node, .action) ((zip_class hlen).mpr hclass)
      rw [nodeTopology_action, Bool.and_eq_true] at htop
      exact htop.2

/-! ## The loop over the edges -/

section Port

variable {edge : Edge}

/-- An edge into a node that takes one input makes it that input. -/
theorem EdgeOk.input_count (hok : EdgeOk bytes tables descriptors classes d edge)
    (hconnected : Connected edges classes d)
    (hk : edge.targetKind = 1 ∨ edge.targetKind = 3 ∨ edge.targetKind = 4) :
    Image.inputCount edges edge.targetNode = 1 := by
  have htarget := hok.target
  unfold targetAllowed at htarget
  rcases hk with hk | hk | hk
  · simp only [hk, if_true, Bool.and_eq_true, actionNodes, beq_iff_eq] at htarget
    have hmissing := hconnected.nodes _ _ htarget.1
    simp only [portsMissing, Bool.or_eq_false_iff, bne_eq_false_iff_eq] at hmissing
    exact hmissing.1
  · simp [hk] at htarget
    split at htarget
    · rename_i hclass
      have hmissing := hconnected.nodes _ _ hclass
      simp only [portsMissing, Bool.or_eq_false_iff, bne_eq_false_iff_eq] at hmissing
      exact hmissing.1
    · cases htarget
  · simp [hk] at htarget
    split at htarget
    · rename_i hclass
      have hmissing := hconnected.nodes _ _ hclass
      simp only [portsMissing, Bool.or_eq_false_iff, bne_eq_false_iff_eq] at hmissing
      exact hmissing.1
    · cases htarget

/-- An edge to an each region is its input or its collect edge. -/
theorem EdgeOk.each_count (hok : EdgeOk bytes tables descriptors classes d edge)
    (hall : ∀ edge ∈ edges, EdgeOk bytes tables descriptors classes d edge)
    (hconnected : Connected edges classes d) (hk : edge.targetKind = 6 ∨ edge.targetKind = 7) :
    Image.targetCount edges edge.targetKind edge.targetNode edge.caseTag = 1 := by
  have htarget := hok.target
  unfold targetAllowed at htarget
  rw [hok.each_tag (by rcases hk with hk | hk <;> simp [hk])]
  rcases hk with hk | hk
  · simp [hk] at htarget
    obtain ⟨each, hat, -⟩ := (Option.any_eq_true _ _).mp htarget
    rw [hk, ← eachPorts_eq hall (.inl rfl)]
    exact (hconnected.each _ (region_mem_ids hat)).1
  · simp [hk] at htarget
    obtain ⟨each, hat, -⟩ := (Option.any_eq_true _ _).mp htarget
    rw [hk, ← eachPorts_eq hall (.inr rfl)]
    exact (hconnected.each _ (region_mem_ids hat)).2.1

/-- A case, a branch, an item or an output has one edge, and a field one at most. -/
theorem EdgeOk.case_count (hok : EdgeOk bytes tables descriptors classes d edge)
    (hall : ∀ edge ∈ edges, EdgeOk bytes tables descriptors classes d edge)
    (hjoins : JoinsOnce edges) (hconnected : Connected edges classes d)
    (hk : 5 ≤ edge.sourceKind) :
    Image.caseCount edges edge.sourceKind edge.sourceNode edge.caseTag ≤ 1 := by
  have hsource := hok.source
  unfold sourceAllowed at hsource
  have hlow : edge.sourceKind ≠ 0 ∧ edge.sourceKind ≠ 1 ∧ edge.sourceKind ≠ 2 ∧
      edge.sourceKind ≠ 3 ∧ edge.sourceKind ≠ 4 := by
    refine ⟨?_, ?_, ?_, ?_, ?_⟩ <;> intro hkind <;> rw [hkind] at hk <;> exact absurd hk (by decide)
  simp only [hlow, or_self, if_false] at hsource
  have htag : UInt8.ofNat edge.caseTag.toNat = edge.caseTag := UInt8.ofNat_toNat
  split at hsource
  · rename_i h5
    unfold dispatchSource at hsource
    split at hsource
    · rename_i variant cases hclass
      rw [Bool.and_eq_true, decide_eq_true_eq] at hsource
      have hmissing := hconnected.nodes _ _ hclass
      simp only [portsMissing, Bool.or_eq_false_iff, List.any_eq_false, bne_iff_ne,
        not_not] at hmissing
      have hone := hmissing.2 _ (List.mem_range.mpr hsource.1)
      rw [htag, sourcePorts_case (by decide)] at hone
      rw [h5, hone]
    · cases hsource
  split at hsource
  · rename_i h6
    split at hsource
    · rename_i input branches hclass
      rw [Bool.and_eq_true, decide_eq_true_eq, UInt8.lt_iff_toNat_lt] at hsource
      have hmissing := hconnected.nodes _ _ hclass
      simp only [portsMissing, Bool.or_eq_false_iff, List.any_eq_false, bne_iff_ne,
        not_not] at hmissing
      have hone := hmissing.2 _ (List.mem_range.mpr hsource.1)
      rw [htag, sourcePorts_case (by decide)] at hone
      rw [h6, hone]
    · cases hsource
  split at hsource
  · rename_i h7
    rw [h7]
    exact hjoins.output _ _
  split at hsource
  · rename_i h8
    obtain ⟨each, hat, -⟩ := (Option.any_eq_true _ _).mp hsource
    rw [hok.each_tag (.inl h8), h8, ← sourcePorts_each hall (.inl rfl)]
    exact Nat.le_of_eq (hconnected.each _ (region_mem_ids hat)).2.2.1
  split at hsource
  · rename_i h9
    obtain ⟨each, hat, -⟩ := (Option.any_eq_true _ _).mp hsource
    rw [hok.each_tag (.inr (.inl h9)), h9, ← sourcePorts_each hall (.inr rfl)]
    exact Nat.le_of_eq (hconnected.each _ (region_mem_ids hat)).2.2.2
  · cases hsource

end Port

section Loop

variable (ht : TypesRead tables descriptors) (h : RegionsRead classes s d)

include ht h

theorem validateEdges_ok
    (hloop : checkEach (Image.validateEdge bytes tables classes s) [] edges = .ok ()) :
    (∀ edge ∈ edges, EdgeOk bytes tables descriptors classes d edge) ∧ JoinsOnce edges := by
  have hstep := fun before x after hsplit =>
    (validateEdge_ok ht h).mp (checkEach_ok hloop before x after hsplit)
  simp only [List.nil_append] at hstep
  refine ⟨fun edge he => ?_, ?_, ?_⟩
  · obtain ⟨before, after, hsplit⟩ := List.append_of_mem he
    exact (hstep before edge after hsplit).1.1
  · intro node tag
    refine countP_le_one fun before x after hsplit hx => ?_
    simp only [Bool.and_eq_true, beq_iff_eq] at hx
    obtain ⟨⟨hkind, rfl⟩, rfl⟩ := hx
    have hcount := (hstep before x after hsplit).2.2.2.1 (.inl hkind)
    rw [hkind] at hcount
    exact hcount
  · intro node tag
    refine countP_le_one fun before x after hsplit hx => ?_
    simp only [Bool.and_eq_true, beq_iff_eq] at hx
    obtain ⟨⟨hkind, rfl⟩, rfl⟩ := hx
    have hcount := (hstep before x after hsplit).2.2.2.2 (by rw [hkind]; decide)
    rw [hkind] at hcount
    exact hcount

omit ht h in
theorem decodeEdges_ok
    (hloop : checkEach (decodeEdge bytes tables descriptors classes d) [] edges = .ok ()) :
    (∀ edge ∈ edges, EdgeOk bytes tables descriptors classes d edge) ∧ JoinsOnce edges := by
  have hstep := fun before x after hsplit =>
    decodeEdge_ok.mp (checkEach_ok hloop before x after hsplit)
  simp only [List.nil_append] at hstep
  refine ⟨fun edge he => ?_, ?_, ?_⟩
  · obtain ⟨before, after, hsplit⟩ := List.append_of_mem he
    exact (hstep before edge after hsplit).1
  · intro node tag
    refine countP_le_one fun before x after hsplit hx => ?_
    have hx' := hx
    simp only [Bool.and_eq_true, beq_iff_eq] at hx'
    obtain ⟨⟨hkind, rfl⟩, rfl⟩ := hx'
    have hnone := (hstep before x after hsplit).2.2.1 hkind
    rw [joinInput_eq_none] at hnone
    rw [List.countP_append, List.countP_singleton, if_pos hx]
    exact Nat.le_of_eq (congrArg (· + 1) hnone)
  · intro node tag
    refine countP_le_one fun before x after hsplit hx => ?_
    have hx' := hx
    simp only [Bool.and_eq_true, beq_iff_eq] at hx'
    obtain ⟨⟨hkind, rfl⟩, rfl⟩ := hx'
    have hnone := (hstep before x after hsplit).2.2.2 hkind
    rw [joinOutput_eq_none] at hnone
    rw [List.countP_append, List.countP_singleton, if_pos hx]
    exact Nat.le_of_eq (congrArg (· + 1) hnone)

theorem edgeLoop_left
    (hloop : checkEach (Image.validateEdge bytes tables classes s) [] edges = .ok ()) :
    checkEach (decodeEdge bytes tables descriptors classes d) [] edges = .ok () := by
  refine checkEach_of fun before x after hsplit => ?_
  have hstep := (validateEdge_ok ht h).mp (checkEach_ok hloop before x after hsplit)
  obtain ⟨⟨hok, -, -⟩, hkey, -, hjoin, hcase⟩ := hstep
  rw [List.nil_append] at hkey hjoin hcase ⊢
  refine decodeEdge_ok.mpr ⟨hok, hkey, fun hkind => ?_, fun hkind => ?_⟩
  · have hcount := hjoin (.inl hkind)
    rw [joinInput_eq_none]
    rw [Image.targetCount, List.countP_append, List.countP_singleton, if_pos (by simp),
      hkind] at hcount
    exact Nat.le_zero.mp (Nat.le_of_succ_le_succ hcount)
  · have hcount := hcase (by rw [hkind]; decide)
    rw [joinOutput_eq_none]
    rw [Image.caseCount, List.countP_append, List.countP_singleton, if_pos (by simp),
      hkind] at hcount
    exact Nat.le_zero.mp (Nat.le_of_succ_le_succ hcount)

/-- The ports that the loader has an eye on are connected once. -/
theorem edgeLoop_right (hclasses : classes.length = tables.header.nodeCount)
    (heach : d.eachRegions.length ≤ tables.header.nodeCount)
    (hconnected : Connected edges classes d)
    (hloop : checkEach (decodeEdge bytes tables descriptors classes d) [] edges = .ok ()) :
    checkEach (Image.validateEdge bytes tables classes s) [] edges = .ok () := by
  obtain ⟨hall, hjoins⟩ := decodeEdges_ok hloop
  refine checkEach_of fun before x after hsplit => ?_
  obtain ⟨hok, hkey, -, -⟩ := decodeEdge_ok.mp (checkEach_ok hloop before x after hsplit)
  rw [List.nil_append] at hkey ⊢
  have hbefore : ∀ p : Edge → Bool, (before ++ [x]).countP p ≤ edges.countP p := by
    intro p
    rw [hsplit]
    exact countP_prefix_le
  refine (validateEdge_ok ht h).mpr ⟨⟨hok, target_le hclasses heach hok.target⟩, hkey, ?_, ?_, ?_⟩
  · intro hkind
    exact (hbefore _).trans (Nat.le_of_eq (hok.input_count hconnected hkind))
  · rintro (hkind | hkind)
    · rw [hkind]
      exact (hbefore _).trans (hjoins.input _ _)
    · exact (hbefore _).trans (Nat.le_of_eq (hok.each_count hall hconnected hkind))
  · intro hkind
    exact (hbefore _).trans (hok.case_count hall hjoins hconnected hkind)

end Loop

end Hermas.Compiler
