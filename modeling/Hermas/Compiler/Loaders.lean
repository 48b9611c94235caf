import Hermas.Compiler.Reach
import Hermas.Image.Encode

/-!
# Loader and decoder

The daemon's loader and the compiler's decoder accept the same images, as far as
the loader has room: it keeps at most eight deadlines and at most eight each
regions, and it looks up an each region like a node, so there may not be more of
them than nodes. The decoder knows none of these bounds.
-/

namespace Hermas.Compiler

open Hermas.Image (Header Tables TypeRecord Node Edge Region NodeClass EachRegion RegionState
  classAt isActionNode nodeIds readTables readHeader readTable imageValidate)

/-- The bounds of the loader's tables. -/
structure WithinTables (bytes : Bytes) : Prop where
  deadlines : recordsOf 1 (readTables bytes).regions ≤ 8
  each : recordsOf 2 (readTables bytes).regions ≤ 8
  numbered : recordsOf 2 (readTables bytes).regions ≤ (readTables bytes).header.nodeCount

section Stages

variable {bytes : Bytes} {tables : Tables} {descriptors : TypeDescriptors}
  {classes : List NodeClass} {s : RegionState} {d : DecodedRegions}

/-- The tables end before the bytes do, so every record is whole. -/
theorem region_length (hoffsets : Image.validateOffsets bytes (readHeader bytes) = .ok ()) :
    ∀ region ∈ (readTables bytes).regions, region.length = 16 := by
  simp only [Image.validateOffsets, require_ok] at hoffsets
  obtain ⟨-, -, -, -, -, hregions, hrepresentations, hstrings, hname, hle, -⟩ := hoffsets
  intro region hmem
  simp only [readTables, readTable, List.map_id] at hmem
  refine Bytes.length_of_mem_records ?_ hmem
  rw [List.length_drop]
  omega

theorem nodeCount_le {header : Header} (h : Image.validateCounts header = .ok ()) :
    header.nodeCount ≤ Image.maxNodes := by
  simp only [Image.validateCounts, require_ok] at h
  exact h.2.2.2.2.2.2.2.2.1

theorem classes_length (h : Image.validateNodes bytes (readTables bytes) = .ok classes) :
    classes.length = (readTables bytes).header.nodeCount := by
  simp only [Image.validateNodes, bind_ok, pure_ok, require_ok] at h
  obtain ⟨out, hfold, ⟨⟩, -, rfl⟩ := h
  obtain ⟨ys, hys, hall⟩ := foldlM_append hfold
  rw [List.nil_append] at hys
  rw [hys, ← hall.length_eq]
  simp [readTables, readTable]

theorem topology_iff (hclasses : classes.length = tables.header.nodeCount) :
    (tables.edges.countP (·.sourceKind == 0) = 1 ∧
      Image.validateTopology tables classes s = .ok ()) ↔
      Counted tables.edges classes s ∧
        (nodeIds classes).all
          (Image.reachableNodes s tables.edges classes.length).contains = true := by
  simp only [Image.validateTopology, bind_ok, require_ok, hclasses]
  constructor
  · rintro ⟨hone, ⟨⟩, hnodes, ⟨⟩, hsaga, ⟨⟩, heach, hreach⟩
    exact ⟨⟨hone, hnodes, hsaga, heach⟩, hreach⟩
  · rintro ⟨⟨hone, hnodes, hsaga, heach⟩, hreach⟩
    exact ⟨hone, (), hnodes, (), hsaga, (), heach, hreach⟩

theorem edges_left (ht : TypesRead tables descriptors) (h : RegionsRead classes s d)
    (hclasses : classes.length = tables.header.nodeCount) (hlen : classes.length < 65536)
    (hedges : Image.validateEdges bytes tables classes s = .ok ())
    (htopology : Image.validateTopology tables classes s = .ok ()) :
    decodeEdges bytes tables descriptors classes d = .ok () := by
  simp only [Image.validateEdges, bind_ok, require_ok] at hedges
  obtain ⟨⟨⟩, hloop, hone⟩ := hedges
  obtain ⟨hcounted, hreach⟩ := (topology_iff hclasses).mp ⟨hone, htopology⟩
  obtain ⟨hok, hjoins⟩ := validateEdges_ok ht h hloop
  simp only [decodeEdges, bind_ok, require_ok, connected_iff hlen, ← hclasses]
  exact ⟨(), edgeLoop_left ht h hloop, (), (connected_iff_counted h hlen hok hjoins).mpr hcounted,
    (reach_iff h hok hone).mp hreach⟩

theorem edges_right (ht : TypesRead tables descriptors) (h : RegionsRead classes s d)
    (hclasses : classes.length = tables.header.nodeCount) (hlen : classes.length < 65536)
    (heach : d.eachRegions.length ≤ tables.header.nodeCount)
    (hedges : decodeEdges bytes tables descriptors classes d = .ok ()) :
    Image.validateEdges bytes tables classes s = .ok () ∧
      Image.validateTopology tables classes s = .ok () := by
  simp only [decodeEdges, bind_ok, require_ok, connected_iff hlen, ← hclasses] at hedges
  obtain ⟨⟨⟩, hloop, ⟨⟩, hconnected, hreach⟩ := hedges
  obtain ⟨hok, hjoins⟩ := decodeEdges_ok hloop
  have hcounted := (connected_iff_counted h hlen hok hjoins).mp hconnected
  obtain ⟨hone, htopology⟩ := (topology_iff hclasses).mpr
    ⟨hcounted, (reach_iff h hok hcounted.input).mpr hreach⟩
  refine ⟨?_, htopology⟩
  simp only [Image.validateEdges, bind_ok, require_ok]
  exact ⟨(), edgeLoop_right ht h hclasses heach hconnected hloop, hone⟩

/-- The loader finds the input of every each region among the node ids. -/
theorem each_numbered (ht : TypesRead tables descriptors) (h : RegionsRead classes s d)
    (hclasses : classes.length = tables.header.nodeCount) (hfits : d.eachRegions.length ≤ 8)
    (hedges : Image.validateEdges bytes tables classes s = .ok ())
    (htopology : Image.validateTopology tables classes s = .ok ()) :
    d.eachRegions.length ≤ tables.header.nodeCount := by
  simp only [Image.validateEdges, bind_ok, require_ok] at hedges
  obtain ⟨⟨⟩, hloop, hone⟩ := hedges
  obtain ⟨hcounted, -⟩ := (topology_iff hclasses).mp ⟨hone, htopology⟩
  by_cases hzero : d.eachRegions.length = 0
  · omega
  have hlast := (hcounted.each (d.eachRegions.length - 1)
    (List.mem_range.mpr (by rw [h.each]; omega))).1
  rw [Nat.sub_add_cancel (Nat.pos_of_ne_zero hzero)] at hlast
  obtain ⟨edge, he, hedge⟩ := List.countP_pos_iff.mp (Nat.lt_of_lt_of_eq Nat.one_pos hlast.symm)
  simp only [Bool.and_eq_true, beq_iff_eq] at hedge
  obtain ⟨before, hcheck⟩ := checkEach_mem hloop he
  have hnumber := ((validateEdge_ok ht h).mp hcheck).1.2.2
  rw [hedge.1.2, UInt16.toNat_ofNat', Nat.mod_eq_of_lt (by omega)] at hnumber
  exact hnumber

end Stages

section Loaders

variable {bytes : Bytes}

/-- **The loader accepts what the decoder accepts and it has room for.** -/
theorem imageValidate_iff (bytes : Bytes) :
    (imageValidate bytes).toOption.isSome = true ↔
      (decodeGraphImage bytes).toOption.isSome = true ∧ WithinTables bytes := by
  have hisSome : ∀ {ε α : Type} (x : Except ε α),
      x.toOption.isSome = true ↔ ∃ a, x = .ok a := by
    intro ε α x
    cases x <;> simp [Except.toOption]
  rw [hisSome, hisSome]
  have hgrows : ∀ {descriptors classes d},
      decodeRegions bytes (readTables bytes) descriptors classes = .ok d →
      d.deadlineRanges.length = recordsOf 1 (readTables bytes).regions ∧
        d.eachRegions.length = recordsOf 2 (readTables bytes).regions := by
    intro descriptors classes d hd
    simpa using decodeRegions_grows hd
  constructor
  · rintro ⟨summary, h⟩
    simp only [imageValidate, Image.validateTables, bind_ok, pure_ok] at h
    obtain ⟨⟨⟩, hframe, ⟨⟩, hcounts, ⟨⟩, hoffsets, ⟨⟩, hname, ⟨classes, s⟩,
      ⟨⟨⟩, herrors, ⟨⟩, hcontracts, ⟨⟩, htypes, c, hnodes, r, hregions, ⟨⟩, hedges, ⟨⟩,
        htopology, heq⟩, -⟩ := h
    obtain ⟨rfl, rfl⟩ := Prod.mk.inj heq
    obtain ⟨⟨⟩, hframe', -⟩ := (header_alike bytes).left _ hframe
    obtain ⟨⟨⟩, hcounts', -⟩ := (counts_alike _).left _ hcounts
    obtain ⟨⟨⟩, hoffsets', -⟩ := (offsets_alike bytes _).left _ hoffsets
    obtain ⟨name, hname', -⟩ := (name_alike hoffsets).left _ hname
    obtain ⟨⟨⟩, herrors', -⟩ := (errors_alike _).left _ herrors
    obtain ⟨⟨⟩, hcontracts', -⟩ := (contracts_alike _).left _ hcontracts
    obtain ⟨descriptors, htypes', ht⟩ := (types_alike bytes _).left _ htypes
    obtain ⟨_, hnodes', rfl⟩ := (nodes_alike ht bytes hcontracts).left _ hnodes
    have hclasses := classes_length hnodes
    have hlen : c.length < 65536 := by
      rw [hclasses]
      exact Nat.lt_of_le_of_lt (nodeCount_le hcounts) (by decide)
    obtain ⟨d, hregions', hread, hfits⟩ := regions_left ht htypes hclasses (region_length hoffsets)
      (regionsRead_init c) ⟨by simp, by simp⟩ hregions
    have hedges' := edges_left ht hread hclasses hlen hedges htopology
    have hnumbered := each_numbered ht hread hclasses hfits.each hedges htopology
    obtain ⟨hdeadlines, heach⟩ := hgrows hregions'
    refine ⟨?_, hdeadlines ▸ hfits.deadlines, heach ▸ hfits.each, heach ▸ hnumbered⟩
    simp only [decodeGraphImage, bind_ok, pure_ok]
    exact ⟨_, (), hframe', (), hcounts', (), hoffsets', name, hname', (), herrors', (),
      hcontracts', descriptors, htypes', c, hnodes', d, hregions', (), hedges', rfl⟩
  · rintro ⟨⟨decoded, h⟩, hwithin⟩
    simp only [decodeGraphImage, bind_ok, pure_ok] at h
    obtain ⟨⟨⟩, hframe', ⟨⟩, hcounts', ⟨⟩, hoffsets', name, hname', ⟨⟩, herrors', ⟨⟩, hcontracts',
      descriptors, htypes', c, hnodes', d, hregions', ⟨⟩, hedges', -⟩ := h
    obtain ⟨⟨⟩, hframe, -⟩ := (header_alike bytes).right _ hframe'
    obtain ⟨⟨⟩, hcounts, -⟩ := (counts_alike _).right _ hcounts'
    obtain ⟨⟨⟩, hoffsets, -⟩ := (offsets_alike bytes _).right _ hoffsets'
    obtain ⟨⟨⟩, hname, -⟩ := (name_alike hoffsets).right _ hname'
    obtain ⟨⟨⟩, herrors, -⟩ := (errors_alike _).right _ herrors'
    obtain ⟨⟨⟩, hcontracts, -⟩ := (contracts_alike _).right _ hcontracts'
    obtain ⟨⟨⟩, htypes, ht⟩ := (types_alike bytes _).right _ htypes'
    obtain ⟨_, hnodes, rfl⟩ := (nodes_alike ht bytes hcontracts).right _ hnodes'
    rename_i classes
    have hclasses := classes_length hnodes
    have hlen : classes.length < 65536 := by
      rw [hclasses]
      exact Nat.lt_of_le_of_lt (nodeCount_le hcounts) (by decide)
    obtain ⟨hdeadlines, heach⟩ := hgrows hregions'
    obtain ⟨s, hregions, hread⟩ := regions_right ht htypes hclasses (region_length hoffsets)
      (regionsRead_init classes) ⟨hdeadlines ▸ hwithin.deadlines, heach ▸ hwithin.each⟩ hregions'
    obtain ⟨hedges, htopology⟩ := edges_right ht hread hclasses hlen
      (heach ▸ hwithin.numbered) hedges'
    refine ⟨Image.summaryOf bytes (readHeader bytes), ?_⟩
    simp only [imageValidate, Image.validateTables, bind_ok, pure_ok]
    exact ⟨(), hframe, (), hcounts, (), hoffsets, (), hname, (classes, s),
      ⟨(), herrors, (), hcontracts, (), htypes, classes, hnodes, s, hregions, (), hedges, (),
        htopology, rfl⟩, trivial⟩

end Loaders

/-- The loaders agree about a byte string. -/
def LoadersAgree (bytes : Bytes) : Prop :=
  (imageValidate bytes).toOption.isSome = true ↔ (decodeGraphImage bytes).toOption.isSome = true

/--
**The loaders agree exactly on what fits the loader's tables.** Beyond that the loader
refuses everything, so they still agree about what is no image for the decoder
either.
-/
theorem loadersAgree_iff (bytes : Bytes) :
    LoadersAgree bytes ↔
      ((decodeGraphImage bytes).toOption.isSome = true → WithinTables bytes) := by
  unfold LoadersAgree
  rw [imageValidate_iff]
  exact and_iff_left_iff_imp

/-! ## Nine deadlines -/

/-- A deadline over all five nodes, inside the given one. -/
def deadlineRecord (parent : Nat) : Region :=
  [1, 0] ++ Image.Layout.u16 1 ++ Image.Layout.u16 5 ++ Image.Layout.u16 parent ++
    Bytes.writeU64 1

/-- One action under nine deadlines, each inside the one before. -/
def nineDeadlinesLayout : Image.Layout where
  errors := [1]
  contracts := [.of 1]
  types := [Image.boolType]
  nodes := [.action1 1, .terminal 1, .terminal 2, .terminal 3, .terminal 4]
  edges := [.wire 0 0 1 1, .wire 1 1 2 2, .wire 2 1 2 3, .bare 3 1 4, .bare 4 1 5]
  regions := (List.range 9).map deadlineRecord

set_option maxRecDepth 20000 in
/-- The decoder accepts a ninth deadline, the loader does not. -/
theorem not_loadersAgree_nineDeadlines : ¬ ∀ bytes, LoadersAgree bytes := by
  intro h
  have hdecoder : (decodeGraphImage nineDeadlinesLayout.encode).toOption.isSome = true := by
    decide +kernel
  have hloader : ¬ (imageValidate nineDeadlinesLayout.encode).toOption.isSome = true := by
    decide +kernel
  exact hloader ((h _).mpr hdecoder)

end Hermas.Compiler
