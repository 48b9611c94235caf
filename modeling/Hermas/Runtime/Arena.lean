import Hermas.Compiler.EncodeGraph
import Hermas.Runtime.EachRun
import Hermas.Runtime.GroupRefusal

/-!
# The flow arena

All flows of a group share eight slots. A graph's resources name a bound on the actions
that are under way at once: the width of its widest fork or each region. The bound says
nothing about forks and regions that are entered while other flows are under way, and
those add up. Here is what the bound is good for: as long as a fork or a region is
entered only when its branches or its items fit under the bound beside the flows that
are in use, nobody ever misses a slot, and no more deliveries than that are in flight.

The proof keeps account of a load: the slots in use, and those that the active region
may still ask for. A task on the way of a value hands slots over, gives them back or
takes what the region has in reserve; only a fork or a region that begins adds to it.
-/

namespace Hermas

open Image (Edge EachRegion)

namespace GroupExecution

/-! ## Slots and items -/

/-- The slots in use. -/
def busyFlows (s : GroupExecution) : Finset FlowIndex :=
  Finset.univ.filter fun k => (s.flows k).active = true

/-- The slots in use that the active region counts as its own. -/
def itemFlows (s : GroupExecution) : Finset FlowIndex :=
  s.busyFlows.filter fun k => (s.flows k).eachRegion = s.activeEachRegion

/-- The slots that the active region may still ask for. -/
def reserve (s : GroupExecution) : Nat :=
  (s.eachRegion? s.activeEachRegion).elim 0 fun region =>
    region.concurrency.toNat - s.activeInRegion s.activeEachRegion

/-- The slots that are in use or may be asked for. -/
def load (s : GroupExecution) : Nat := s.busyFlows.card + s.reserve

/-- The regions and the items of two states are the same; flows differ in use at most. -/
structure SameItems (s t : GroupExecution) : Prop where
  regions : t.eachRegions = s.eachRegions
  active : t.activeEachRegion = s.activeEachRegion
  count : t.eachItemCount = s.eachItemCount
  next : t.eachNextItem = s.eachNextItem
  flush : t.eachFlushItem = s.eachFlushItem
  region : ∀ k, (t.flows k).eachRegion = (s.flows k).eachRegion
  index : ∀ k, (t.flows k).itemIndex = (s.flows k).itemIndex

variable {image : Image} {s t u : GroupExecution} {i k : FlowIndex} {bound : Nat}

@[simp] theorem mem_busyFlows : k ∈ s.busyFlows ↔ (s.flows k).active = true := by
  simp [busyFlows]

theorem mem_itemFlows :
    k ∈ s.itemFlows ↔ (s.flows k).active = true ∧ (s.flows k).eachRegion = s.activeEachRegion := by
  simp [itemFlows]

theorem card_itemFlows : s.itemFlows.card = s.activeInRegion s.activeEachRegion := by
  have hfilter : s.itemFlows = ((List.finRange maxFlows).filter fun k =>
      (s.flows k).active && (s.flows k).eachRegion == s.activeEachRegion).toFinset := by
    ext k
    simp [mem_itemFlows]
  rw [hfilter, List.toFinset_card_of_nodup ((List.nodup_finRange _).filter _), activeInRegion,
    List.countP_eq_length_filter]

/-! A state in which one slot has changed. -/

theorem busyFlows_insert (hother : ∀ k, k ≠ i → t.flows k = s.flows k)
    (hi : (t.flows i).active = true) : t.busyFlows = insert i s.busyFlows := by
  ext k
  rw [Finset.mem_insert, mem_busyFlows, mem_busyFlows]
  by_cases hk : k = i
  · subst hk; simp [hi]
  · simp [hother k hk, hk]

theorem busyFlows_erase (hother : ∀ k, k ≠ i → t.flows k = s.flows k)
    (hi : (t.flows i).active = false) : t.busyFlows = s.busyFlows.erase i := by
  ext k
  rw [Finset.mem_erase, mem_busyFlows, mem_busyFlows]
  by_cases hk : k = i
  · subst hk; simp [hi]
  · simp [hother k hk, hk]

theorem itemFlows_insert (hactive : t.activeEachRegion = s.activeEachRegion)
    (hother : ∀ k, k ≠ i → t.flows k = s.flows k) (hi : (t.flows i).active = true)
    (hregion : (t.flows i).eachRegion = s.activeEachRegion) :
    t.itemFlows = insert i s.itemFlows := by
  ext k
  rw [Finset.mem_insert, mem_itemFlows, mem_itemFlows, hactive]
  by_cases hk : k = i
  · subst hk; simp [hi, hregion]
  · simp [hother k hk, hk]

theorem itemFlows_erase (hactive : t.activeEachRegion = s.activeEachRegion)
    (hother : ∀ k, k ≠ i → t.flows k = s.flows k) (hi : (t.flows i).active = false) :
    t.itemFlows = s.itemFlows.erase i := by
  ext k
  rw [Finset.mem_erase, mem_itemFlows, mem_itemFlows, hactive]
  by_cases hk : k = i
  · subst hk; simp [hi]
  · simp [hother k hk, hk]

theorem SameItems.refl (s : GroupExecution) : SameItems s s :=
  ⟨rfl, rfl, rfl, rfl, rfl, fun _ => rfl, fun _ => rfl⟩

theorem SameItems.trans (h : SameItems s t) (h' : SameItems t u) : SameItems s u where
  regions := h'.regions.trans h.regions
  active := h'.active.trans h.active
  count := h'.count.trans h.count
  next := h'.next.trans h.next
  flush := h'.flush.trans h.flush
  region := fun k => (h'.region k).trans (h.region k)
  index := fun k => (h'.index k).trans (h.index k)

theorem SameItems.eachRegion? (h : SameItems s t) (regionId : UInt8) :
    t.eachRegion? regionId = s.eachRegion? regionId := by
  rw [GroupExecution.eachRegion?, GroupExecution.eachRegion?, h.regions]

/-- A flow that keeps its item. -/
theorem SameItems.setFlow {f : Flow → Flow} (s : GroupExecution) (i : FlowIndex)
    (hregion : (f (s.flows i)).eachRegion = (s.flows i).eachRegion)
    (hindex : (f (s.flows i)).itemIndex = (s.flows i).itemIndex) : SameItems s (s.setFlow i f) where
  regions := rfl
  active := rfl
  count := rfl
  next := rfl
  flush := rfl
  region := fun k => by
    by_cases hk : k = i
    · subst hk; rwa [setFlow_flows_self]
    · rw [setFlow_flows_of_ne _ _ hk]
  index := fun k => by
    by_cases hk : k = i
    · subst hk; rwa [setFlow_flows_self]
    · rw [setFlow_flows_of_ne _ _ hk]

theorem SameItems.maybeComplete (s : GroupExecution) : SameItems s s.maybeComplete := by
  unfold GroupExecution.maybeComplete
  split
  · exact ⟨rfl, rfl, rfl, rfl, rfl, fun _ => rfl, fun _ => rfl⟩
  split
  · exact ⟨rfl, rfl, rfl, rfl, rfl, fun _ => rfl, fun _ => rfl⟩
  · exact .refl s

theorem SameItems.recordTerminal (s : GroupExecution) (i : FlowIndex) (o : Outcome) :
    SameItems s (s.recordTerminal i o) := by
  have hoff : ∀ s : GroupExecution, SameItems s s.cutOff := fun s =>
    ⟨rfl, rfl, rfl, rfl, rfl, fun k => by simp only [cutOff]; split <;> rfl,
      fun k => by simp only [cutOff]; split <;> rfl⟩
  have hreleased : ∀ u : GroupExecution, SameItems s u → SameItems s (u.setFlow i Flow.released) :=
    fun u hu => hu.trans (.setFlow u i rfl rfl)
  have hrecord : SameItems s (s.recordOutcome i o) := by
    unfold recordOutcome
    simp only
    split <;> exact hreleased _ ⟨rfl, rfl, rfl, rfl, rfl, fun _ => rfl, fun _ => rfl⟩
  unfold GroupExecution.recordTerminal
  simp only
  split
  · exact (hrecord.trans (hoff _)).trans (.maybeComplete _)
  · exact hrecord.trans (.maybeComplete _)

/-- Slots that are given back may be asked for again, but no others. -/
theorem SameItems.load_le (h : SameItems s t) (hbusy : t.busyFlows ⊆ s.busyFlows) :
    t.load ≤ s.load := by
  have hitems : s.itemFlows ⊆ t.itemFlows ∪ (s.busyFlows \ t.busyFlows) := by
    intro k hk
    rw [mem_itemFlows] at hk
    rw [Finset.mem_union, mem_itemFlows, Finset.mem_sdiff, mem_busyFlows, mem_busyFlows,
      h.region k, h.active]
    by_cases hactive : (t.flows k).active = true
    · exact .inl ⟨hactive, hk.2⟩
    · exact .inr ⟨hk.1, hactive⟩
  have hcard := (Finset.card_le_card hitems).trans (Finset.card_union_le _ _)
  rw [Finset.card_sdiff_of_subset hbusy] at hcard
  have hle := Finset.card_le_card hbusy
  unfold load reserve
  rw [h.eachRegion?, h.active, ← h.active, ← card_itemFlows, h.active, ← card_itemFlows]
  cases s.eachRegion? s.activeEachRegion with
  | none => simpa using hle
  | some region =>
      simp only [Option.elim_some]
      omega

/-- Slots that are taken into use are not what the region asks for. -/
theorem SameItems.load_le_add (h : SameItems s t) (hbusy : s.busyFlows ⊆ t.busyFlows) :
    t.load ≤ t.busyFlows.card + s.reserve := by
  have hitems : s.itemFlows.card ≤ t.itemFlows.card := by
    refine Finset.card_le_card fun k hk => ?_
    rw [mem_itemFlows] at hk ⊢
    rw [h.region k, h.active]
    exact ⟨mem_busyFlows.mp (hbusy (mem_busyFlows.mpr hk.1)), hk.2⟩
  have htaken := card_itemFlows (s := t)
  rw [h.active] at htaken
  unfold load reserve
  rw [h.eachRegion?, h.active, ← htaken, ← card_itemFlows]
  cases s.eachRegion? s.activeEachRegion with
  | none => exact Nat.le_refl _
  | some region =>
      simp only [Option.elim_some]
      omega

theorem SameItems.reserve_eq (h : SameItems s t) (hbusy : t.busyFlows = s.busyFlows) :
    t.reserve = s.reserve := by
  have hitems : t.itemFlows = s.itemFlows := by
    ext k
    rw [itemFlows, itemFlows, Finset.mem_filter, Finset.mem_filter, hbusy, h.region k, h.active]
  have hcard := card_itemFlows (s := t)
  rw [hitems, card_itemFlows] at hcard
  rw [reserve, reserve, h.eachRegion?, ← hcard, h.active]

theorem load_of_region {region : EachRegion}
    (h : s.eachRegion? s.activeEachRegion = some region) :
    s.load = s.busyFlows.card + (region.concurrency.toNat - s.itemFlows.card) := by
  rw [load, reserve, h, card_itemFlows]
  rfl

/-- What a fork takes into use, also when it fails half way. -/
theorem takeBranches_busy : ∀ (count : Nat) {flows : List FlowIndex} {s : GroupExecution},
    SameItems s (takeBranches i count flows s).2.2 ∧
      s.busyFlows ⊆ (takeBranches i count flows s).2.2.busyFlows ∧
      (takeBranches i count flows s).2.2.busyFlows.card ≤ s.busyFlows.card + count := by
  intro count
  induction count with
  | zero => intro flows s; exact ⟨.refl s, Finset.Subset.refl _, Nat.le_refl _⟩
  | succ count ih =>
      intro flows s
      rw [takeBranches]
      split
      · exact ⟨.refl s, Finset.Subset.refl _, by simp⟩
      rename_i slot hslot
      have htaken : ∀ f : Flow → Flow, (f (s.flows slot)).active = true →
          (s.setFlow slot f).busyFlows = insert slot s.busyFlows := fun f hf =>
        busyFlows_insert (fun k hk => setFlow_flows_of_ne _ _ hk) (by rwa [setFlow_flows_self])
      have hcard := Finset.card_insert_le slot s.busyFlows
      simp only
      split
      · have hsame : SameItems s (s.setFlow slot fun flow => { flow with active := true }) :=
          .setFlow s slot rfl rfl
        refine ⟨hsame, ?_, ?_⟩
        · rw [htaken _ rfl]; exact Finset.subset_insert _ _
        · rw [htaken _ rfl]; exact hcard.trans (by omega)
      · rw [setFlow_setFlow]
        generalize hvalue : ((s.setFlow slot fun flow => { flow with active := true }).flows
          i).value = value
        obtain ⟨hsame, hsubset, hle⟩ := @ih (flows ++ [slot])
          (s.setFlow slot fun flow => { flow with active := true, value })
        rw [htaken _ rfl] at hsubset hle
        exact ⟨.trans (.setFlow s slot rfl rfl) hsame, (Finset.subset_insert _ _).trans hsubset,
          hle.trans (by omega)⟩

/-! ## The arena -/

/-- The arena of a group: the load is under the bound, and every item is one of the active region
that has begun and is not collected yet. -/
structure Arena (image : Image) (bound : Nat) (s : GroupExecution) : Prop where
  regions : s.eachRegions = image.eachRegions
  known : s.activeEachRegion ≠ 0 → (s.eachRegion? s.activeEachRegion).isSome
  load : s.load ≤ bound
  item : ∀ k, (s.flows k).eachRegion ≠ 0 → (s.flows k).eachRegion = s.activeEachRegion ∧
    s.eachFlushItem ≤ (s.flows k).itemIndex ∧ (s.flows k).itemIndex < s.eachNextItem
  distinct : ∀ k l, (s.flows k).eachRegion ≠ 0 → (s.flows l).eachRegion ≠ 0 →
    (s.flows k).itemIndex = (s.flows l).itemIndex → k = l
  flush : s.eachFlushItem ≤ s.eachNextItem
  next : s.eachNextItem ≤ s.eachItemCount

theorem Arena.of_load (h : Arena image bound s) (hsame : SameItems s t) (hload : t.load ≤ bound) :
    Arena image bound t where
  regions := hsame.regions.trans h.regions
  known := fun hactive => by
    rw [hsame.active] at hactive ⊢
    rw [hsame.eachRegion?]
    exact h.known hactive
  load := hload
  item := fun k hk => by
    rw [hsame.region k] at hk ⊢
    rw [hsame.active, hsame.flush, hsame.index k, hsame.next]
    exact h.item k hk
  distinct := fun k l hk hl hindex => by
    rw [hsame.region] at hk hl
    rw [hsame.index, hsame.index] at hindex
    exact h.distinct k l hk hl hindex
  flush := by rw [hsame.flush, hsame.next]; exact h.flush
  next := by rw [hsame.next, hsame.count]; exact h.next

/-- Giving slots back keeps the arena. -/
theorem Arena.of_busy (h : Arena image bound s) (hsame : SameItems s t)
    (hbusy : ∀ k, (t.flows k).active = true → (s.flows k).active = true) : Arena image bound t :=
  h.of_load hsame ((hsame.load_le fun k hk =>
    mem_busyFlows.mpr (hbusy k (mem_busyFlows.mp hk))).trans h.load)

theorem aim_sameItems (s : GroupExecution) (i : FlowIndex) (edge : Edge) :
    SameItems s (s.aim i edge) := .setFlow s i rfl rfl

@[simp] theorem aim_active (s : GroupExecution) (i k : FlowIndex) (edge : Edge) :
    ((s.aim i edge).flows k).active = (s.flows k).active := by
  by_cases hk : k = i
  · subst hk; rw [aim, setFlow_flows_self]
  · rw [aim, setFlow_flows_of_ne _ _ hk]

/-- A flow that stays in use and keeps its item. -/
theorem Arena.setFlow (h : Arena image bound s) {f : Flow → Flow} (i : FlowIndex)
    (hregion : (f (s.flows i)).eachRegion = (s.flows i).eachRegion)
    (hindex : (f (s.flows i)).itemIndex = (s.flows i).itemIndex)
    (hactive : (f (s.flows i)).active = true → (s.flows i).active = true) :
    Arena image bound (s.setFlow i f) := by
  refine h.of_busy (.setFlow s i hregion hindex) fun k hk => ?_
  by_cases hki : k = i
  · subst hki
    rw [setFlow_flows_self] at hk
    exact hactive hk
  · rwa [setFlow_flows_of_ne _ _ hki] at hk

theorem Arena.maybeComplete (h : Arena image bound s) : Arena image bound s.maybeComplete :=
  h.of_busy (.maybeComplete s) fun k hk => by rwa [maybeComplete_flows] at hk

theorem Arena.recordTerminal (h : Arena image bound s) (i : FlowIndex) (o : Outcome) :
    Arena image bound (s.recordTerminal i o) := by
  refine h.of_busy (.recordTerminal s i o) fun k hk => ?_
  rw [recordTerminal_flows] at hk
  split at hk
  · cases hk
  · exact hk

/-- When all items are collected no flow is left with one. -/
theorem Arena.no_item (h : Arena image bound s) (hdone : s.eachFlushItem = s.eachItemCount)
    (k : FlowIndex) : (s.flows k).eachRegion = 0 := by
  by_contra hk
  have hitem := h.item k hk
  have hnext := h.next
  omega

/-- Without an active region no flow has an item. -/
theorem Arena.no_region (h : Arena image bound s) (hactive : s.activeEachRegion = 0)
    (k : FlowIndex) : (s.flows k).eachRegion = 0 := by
  by_contra hk
  exact hk ((h.item k hk).1.trans hactive)

/-- A fork that fits under the bound. -/
theorem Arena.fork (h : Arena image bound s) {count : Nat} {flows : List FlowIndex}
    (hroom : (s.busyFlows.erase i).card + s.reserve + (count + 1) ≤ bound) :
    Arena image bound (takeBranches i count flows s).2.2 := by
  obtain ⟨hsame, hsubset, hle⟩ := @takeBranches_busy i count flows s
  have herase := Finset.pred_card_le_card_erase (s := s.busyFlows) (a := i)
  exact h.of_load hsame ((hsame.load_le_add hsubset).trans (by omega))

/-- A region that fits under the bound begins. -/
theorem Arena.beginEach (h : Arena image bound s) {regionId : UInt8} {region : EachRegion}
    {items : List (Nat × Nat)} (hregion : s.eachRegion? regionId = some region)
    (hactive : s.activeEachRegion = 0)
    (hroom : (s.busyFlows.erase i).card + region.concurrency.toNat ≤ bound) :
    Arena image bound (s.beginEach i regionId items) := by
  have hflow : ∀ k, ((s.beginEach i regionId items).flows k).eachRegion = 0 := by
    intro k
    by_cases hk : k = i
    · subst hk; simp [GroupExecution.beginEach]
    · rw [GroupExecution.beginEach, setFlow_flows_of_ne _ _ hk]
      exact h.no_region hactive k
  have hbusy : (s.beginEach i regionId items).busyFlows = s.busyFlows.erase i :=
    busyFlows_erase (fun k hk => by rw [GroupExecution.beginEach, setFlow_flows_of_ne _ _ hk])
      (by simp [GroupExecution.beginEach])
  have hload : (s.beginEach i regionId items).load ≤ bound := by
    have hknown : (s.beginEach i regionId items).eachRegion?
      (s.beginEach i regionId items).activeEachRegion = some region := hregion
    rw [load_of_region hknown, hbusy]
    omega
  exact {
    regions := h.regions
    known := fun _ => Option.isSome_iff_exists.mpr ⟨region, hregion⟩
    load := hload
    item := fun k hk => absurd (hflow k) hk
    distinct := fun k _ hk => absurd (hflow k) hk
    flush := Nat.le_refl _
    next := Nat.zero_le _ }

/-- The next item gets a slot that the active region has in reserve. -/
theorem Arena.placeItem (h : Arena image bound s) {region : EachRegion} {slot : FlowIndex}
    (hregion : s.eachRegion? s.activeEachRegion = some region)
    (hroom : s.activeInRegion s.activeEachRegion < region.concurrency.toNat)
    (hnext : s.eachNextItem < s.eachItemCount) (hfree : (s.flows slot).active = false)
    {f : Flow → Flow} (hf : ∀ flow, (f flow).active = true ∧
      (f flow).eachRegion = s.activeEachRegion ∧ (f flow).itemIndex = s.eachNextItem) :
    Arena image bound ({ s with eachNextItem := s.eachNextItem + 1 }.setFlow slot f) := by
  obtain ⟨hactive, hmark, hindex⟩ := hf (s.flows slot)
  generalize ht : { s with eachNextItem := s.eachNextItem + 1 }.setFlow slot f = t
  have hslot : t.flows slot = f (s.flows slot) := by rw [← ht, setFlow_flows_self]
  have hother : ∀ k, k ≠ slot → t.flows k = s.flows k := fun k hk => by
    rw [← ht, setFlow_flows_of_ne _ _ hk]
  have hregions : t.eachRegions = s.eachRegions ∧ t.activeEachRegion = s.activeEachRegion ∧
      t.eachItemCount = s.eachItemCount ∧ t.eachNextItem = s.eachNextItem + 1 ∧
      t.eachFlushItem = s.eachFlushItem := by
    rw [← ht]
    exact ⟨rfl, rfl, rfl, rfl, rfl⟩
  obtain ⟨hrecords, hsame, hcount, hbegun, hflush⟩ := hregions
  have hknown : t.eachRegion? t.activeEachRegion = some region := by
    rw [hsame, GroupExecution.eachRegion?, hrecords]
    exact hregion
  have hfresh : slot ∉ s.busyFlows := by simp [hfree]
  rw [← hslot] at hactive hmark hindex
  have hload : t.load ≤ bound := by
    have hle := h.load
    rw [load_of_region hregion] at hle
    rw [← card_itemFlows] at hroom
    have hnew : slot ∉ s.itemFlows := fun hin => hfresh (Finset.mem_filter.mp hin).1
    rw [load_of_region hknown, busyFlows_insert hother hactive,
      itemFlows_insert hsame hother hactive hmark, Finset.card_insert_of_notMem hfresh,
      Finset.card_insert_of_notMem hnew]
    omega
  -- the new item comes behind all that have begun
  have hnew : ∀ k, k ≠ slot → (t.flows k).eachRegion ≠ 0 →
      (t.flows k).itemIndex < (t.flows slot).itemIndex := by
    intro k hk hmarked
    rw [hindex, hother k hk]
    rw [hother k hk] at hmarked
    exact (h.item k hmarked).2.2
  refine ⟨hrecords.trans h.regions, fun _ => Option.isSome_iff_exists.mpr ⟨region, hknown⟩, hload,
    fun k hk => ?_, fun k l hk hl hkl => ?_, ?_, ?_⟩
  · rw [hsame, hflush, hbegun]
    by_cases hks : k = slot
    · subst hks
      rw [hmark, hindex]
      exact ⟨rfl, h.flush, Nat.lt_succ_self _⟩
    · rw [hother k hks] at hk ⊢
      obtain ⟨hregion, hflush, hlt⟩ := h.item k hk
      exact ⟨hregion, hflush, Nat.lt_succ_of_lt hlt⟩
  · by_cases hks : k = slot
    · by_contra hne
      have hlt := hnew l (fun hls => hne (hks.trans hls.symm)) hl
      rw [← hks, hkl] at hlt
      exact Nat.lt_irrefl _ hlt
    by_cases hls : l = slot
    · have hlt := hnew k hks hk
      rw [← hls, hkl] at hlt
      exact absurd hlt (Nat.lt_irrefl _)
    · rw [hother k hks] at hk hkl
      rw [hother l hls] at hl hkl
      exact h.distinct k l hk hl hkl
  · rw [hflush, hbegun]
    exact Nat.le_succ_of_le h.flush
  · rw [hbegun, hcount]
    exact hnext

/-- An item is collected. -/
theorem Arena.collectItem (h : Arena image bound s) {ready : FlowIndex}
    (hready : s.flushCandidate s.activeEachRegion = some ready) (hactive : s.activeEachRegion ≠ 0) :
    Arena image bound (s.collectItem ready) := by
  have hcandidate := firstIndex_some hready
  simp only [Bool.and_eq_true, beq_iff_eq] at hcandidate
  obtain ⟨⟨⟨hbusyReady, hmark⟩, -⟩, hindex⟩ := hcandidate
  generalize ht : s.collectItem ready = t
  have hslot : (t.flows ready).active = false ∧ (t.flows ready).eachRegion = 0 := by
    rw [← ht]
    simp [GroupExecution.collectItem, Flow.flushed]
  have hother : ∀ k, k ≠ ready → t.flows k = s.flows k := fun k hk => by
    rw [← ht, GroupExecution.collectItem, setFlow_flows_of_ne _ _ hk]
  have hregions : t.eachRegions = s.eachRegions ∧ t.activeEachRegion = s.activeEachRegion ∧
      t.eachItemCount = s.eachItemCount ∧ t.eachNextItem = s.eachNextItem ∧
      t.eachFlushItem = s.eachFlushItem + 1 := by
    rw [← ht]
    exact ⟨rfl, rfl, rfl, rfl, rfl⟩
  obtain ⟨hrecords, hsame, hcount, hbegun, hflush⟩ := hregions
  obtain ⟨region, hregion⟩ := Option.isSome_iff_exists.mp (h.known hactive)
  have hknown : t.eachRegion? t.activeEachRegion = some region := by
    rw [hsame, GroupExecution.eachRegion?, hrecords]
    exact hregion
  have hin : ready ∈ s.busyFlows := mem_busyFlows.mpr hbusyReady
  have hload : t.load ≤ bound := by
    have hle := h.load
    have hpos := Finset.card_pos.mpr ⟨ready, hin⟩
    rw [load_of_region hregion] at hle
    rw [load_of_region hknown, busyFlows_erase hother hslot.1,
      itemFlows_erase hsame hother hslot.1, Finset.card_erase_of_mem hin,
      Finset.card_erase_of_mem (mem_itemFlows.mpr ⟨hbusyReady, hmark⟩)]
    omega
  have hmarked : ∀ k, (t.flows k).eachRegion ≠ 0 → k ≠ ready := by
    rintro k hk rfl
    exact hk hslot.2
  refine ⟨hrecords.trans h.regions, fun _ => Option.isSome_iff_exists.mpr ⟨region, hknown⟩, hload,
    fun k hk => ?_, fun k l hk hl hkl => ?_, ?_, ?_⟩
  · have hne := hmarked k hk
    rw [hother k hne] at hk ⊢
    rw [hsame, hflush, hbegun]
    obtain ⟨hregion, hle, hlt⟩ := h.item k hk
    refine ⟨hregion, Nat.lt_of_le_of_ne hle fun heq => hne ?_, hlt⟩
    exact h.distinct k ready hk (by rw [hmark]; exact hactive) (by rw [hindex, heq])
  · have hks := hmarked k hk
    have hls := hmarked l hl
    rw [hother k hks] at hk hkl
    rw [hother l hls] at hl hkl
    exact h.distinct k l hk hl hkl
  · rw [hflush, hbegun]
    have hitem := (h.item ready (by rw [hmark]; exact hactive)).2.2
    omega
  · rw [hbegun, hcount]
    exact h.next

/-- The region ends, and its collection takes a slot. -/
theorem Arena.handOver (h : Arena image bound s) {region : EachRegion}
    (hregion : s.eachRegion? s.activeEachRegion = some region)
    (hpos : 0 < region.concurrency.toNat) (hdone : s.eachFlushItem = s.eachItemCount) :
    Arena image bound s.handOver := by
  have hflow : ∀ k, (s.handOver.flows k).eachRegion = 0 := by
    intro k
    by_cases hk : k = s.eachCoordinatorFlow
    · subst hk; simp [GroupExecution.handOver]
    · simp only [GroupExecution.handOver]
      rw [setFlow_flows_of_ne _ _ hk]
      exact h.no_item hdone k
  have hbusy : s.handOver.busyFlows ⊆ insert s.eachCoordinatorFlow s.busyFlows := by
    intro k hk
    rw [mem_busyFlows] at hk
    rw [Finset.mem_insert, mem_busyFlows]
    by_cases hkc : k = s.eachCoordinatorFlow
    · exact .inl hkc
    · simp only [GroupExecution.handOver] at hk
      rw [setFlow_flows_of_ne _ _ hkc] at hk
      exact .inr hk
  have hload : s.handOver.load ≤ bound := by
    have hle := h.load
    have hempty : s.itemFlows = ∅ := by
      rw [Finset.eq_empty_iff_forall_notMem]
      intro k hk
      have hactive : s.activeEachRegion = 0 := (mem_itemFlows.mp hk).2.symm.trans (h.no_item hdone k)
      rw [hactive] at hregion
      cases hregion
    have hcard := (Finset.card_le_card hbusy).trans (Finset.card_insert_le _ _)
    rw [load_of_region hregion, hempty, Finset.card_empty] at hle
    have hreserve : s.handOver.reserve = 0 := rfl
    rw [GroupExecution.load, hreserve]
    omega
  exact {
    regions := h.regions
    known := fun hne => absurd rfl hne
    load := hload
    item := fun k hk => absurd (hflow k) hk
    distinct := fun k _ hk => absurd (hflow k) hk
    flush := h.flush
    next := h.next }

end GroupExecution

end Hermas
