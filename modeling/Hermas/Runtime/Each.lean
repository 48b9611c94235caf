import Hermas.Image.Lists
import Hermas.Runtime.Storage
import Mathlib.Order.Interval.Finset.Nat

/-!
# Bounded each regions

A region feeds the items of a list through one action, a bounded number at a time,
and collects what comes back in the order of the list. Between the calls the items
from `each_flush_item` on, up to `each_next_item`, are out, each on a flow of its
own: that window is the invariant. A call may leave finished items at its front for
a moment; flushing takes them off, admitting fills the window up again.
-/

namespace Hermas

open Image (Edge Node EachRegion)

namespace GroupExecution

/-- The region as HScript emits it: the items go to the template and come back from there. -/
structure EachShape (image : Image) (regionId : UInt8) (region : EachRegion)
    (item back out : Edge) : Prop where
  found : Image.eachAt image.eachState regionId.toUInt16 = some region
  itemEdge : image.groupFindEdge 8 regionId.toUInt16 0 = some item
  enters : item.targetKind = 1 ∧ item.targetNode = region.template
  backEdge : image.groupFindEdge 1 region.template 0 = some back
  collects : back.targetKind = 7 ∧ back.targetNode = regionId.toUInt16
  typed : back.sourceType = region.itemOutput
  outEdge : image.groupFindEdge 9 regionId.toUInt16 0 = some out

/-- What does not change while a region is under way. -/
structure EachTask where
  regionId : UInt8
  region : EachRegion
  coordinator : FlowIndex
  source : Bytes
  items : List (Nat × Nat)
  /-- What the action returns for each item. -/
  values : Nat → Bytes

/-- The item as it stands in the source list. -/
def EachTask.item (task : EachTask) (k : Nat) : Bytes :=
  task.source.slice (task.items.getD k (0, 0)).1 (task.items.getD k (0, 0)).2

/-- The list of what the first `count` items returned, behind the head of the whole list. -/
def EachTask.collection (task : EachTask) (count : Nat) : Bytes :=
  collectionHead task.items.length ++ (List.range count).flatMap task.values

/-- A flow with one of the items in the window. -/
structure ItemFlow (task : EachTask) (s : GroupExecution) (flow : Flow) : Prop where
  region : flow.eachRegion = task.regionId
  flushed : s.eachFlushItem ≤ flow.itemIndex
  admitted : flow.itemIndex < s.eachNextItem
  phase : (flow.state = .waiting ∧ flow.value = task.values flow.itemIndex) ∨
    (flow.currentNode = task.region.template ∧
      ((flow.state = .ready ∧ flow.value = task.item flow.itemIndex) ∨ flow.state = .prepared ∨
        flow.state = .sent))

/-- **The window.** Every active flow has an item of it, and every item has one flow. -/
structure Window (image : Image) (task : EachTask) (s : GroupExecution) : Prop where
  sized : Sized image s
  region : s.activeEachRegion = task.regionId
  coordinator : s.eachCoordinatorFlow = task.coordinator
  count : s.eachItemCount = task.items.length
  items : s.eachItems = task.items
  snapshot : s.eachSourceSnapshot = task.source
  next_le : s.eachNextItem ≤ task.items.length
  flush_le : s.eachFlushItem ≤ s.eachNextItem
  collection : s.eachCollection = task.collection s.eachFlushItem
  flow : ∀ j, (s.flows j).active = true → ItemFlow task s (s.flows j)
  distinct : ∀ j j', (s.flows j).active = true → (s.flows j').active = true →
    (s.flows j).itemIndex = (s.flows j').itemIndex → j = j'
  covered : ∀ k, s.eachFlushItem ≤ k → k < s.eachNextItem →
    ∃ j, (s.flows j).active = true ∧ (s.flows j).itemIndex = k

/-- Nothing is left to flush, and the window is as wide as it may be. -/
structure Filled (image : Image) (task : EachTask) (s : GroupExecution) : Prop
    extends Window image task s where
  full : s.eachNextItem = min task.items.length (s.eachFlushItem + task.region.concurrency.toNat)
  open_ : s.eachFlushItem < task.items.length
  front : ∀ j, (s.flows j).active = true → (s.flows j).state = .waiting →
    (s.flows j).itemIndex ≠ s.eachFlushItem

variable {image : Image} {task : EachTask} {s t : GroupExecution} {i j : FlowIndex}

/-! ## The width of the window -/

/-- The flows of the window, counted. -/
theorem Window.activeInRegion (h : Window image task s) :
    s.activeInRegion task.regionId = s.eachNextItem - s.eachFlushItem := by
  classical
  have hactive : ∀ j : FlowIndex, ((s.flows j).active &&
      (s.flows j).eachRegion == task.regionId) = (s.flows j).active := by
    intro j
    cases ha : (s.flows j).active with
    | false => rfl
    | true => simp [(h.flow j ha).region]
  have hfilter : s.activeInRegion task.regionId =
      (Finset.univ.filter fun j : FlowIndex => (s.flows j).active = true).card := by
    unfold GroupExecution.activeInRegion
    simp only [hactive]
    rw [List.countP_eq_length_filter, ← List.toFinset_card_of_nodup
      ((List.nodup_finRange maxFlows).filter _)]
    congr 1
    ext j
    simp
  -- Items and flows of the window stand for each other.
  rw [hfilter, ← Nat.card_Ico]
  refine Finset.card_bij (fun j _ => (s.flows j).itemIndex) (fun j hj => ?_)
    (fun j hj j' hj' heq => ?_) fun k hk => ?_
  · have hflow := h.flow j (Finset.mem_filter.mp hj).2
    exact Finset.mem_Ico.mpr ⟨hflow.flushed, hflow.admitted⟩
  · exact h.distinct j j' (Finset.mem_filter.mp hj).2 (Finset.mem_filter.mp hj').2 heq
  · obtain ⟨hle, hlt⟩ := Finset.mem_Ico.mp hk
    obtain ⟨j, ha, hitem⟩ := h.covered k hle hlt
    exact ⟨j, Finset.mem_filter.mpr ⟨Finset.mem_univ j, ha⟩, hitem⟩

theorem activeInRegion_le (s : GroupExecution) (regionId : UInt8) :
    s.activeInRegion regionId ≤ maxFlows := by
  unfold GroupExecution.activeInRegion
  exact List.countP_le_length.trans_eq (List.length_finRange)

/-- There is a free slot unless the window takes up all of them. -/
theorem Window.freeFlow (h : Window image task s)
    (hroom : s.eachNextItem - s.eachFlushItem < maxFlows) :
    ∃ slot, s.freeFlow = some slot ∧ (s.flows slot).active = false := by
  cases hfree : s.freeFlow with
  | some slot => exact ⟨slot, rfl, by simpa using firstIndex_some hfree⟩
  | none =>
      have hall := firstIndex_none.mp hfree
      have hfull : s.activeInRegion task.regionId = maxFlows := by
        unfold GroupExecution.activeInRegion
        rw [List.countP_eq_length.mpr, List.length_finRange]
        intro j _
        have ha : (s.flows j).active = true := by simpa using hall j
        simp [ha, (h.flow j ha).region]
      rw [h.activeInRegion] at hfull
      omega

/-! ## Items on their way -/

/-- The window does not depend on request ids and the count of completed items. -/
theorem Window.congr (h : Window image task s) (nextRequestId : UInt64) (completed : Nat) :
    Window image task { s with nextRequestId, eachCompletedItems := completed } :=
  ⟨h.sized.congr rfl rfl rfl, h.region, h.coordinator, h.count, h.items, h.snapshot, h.next_le, h.flush_le, h.collection,
    fun j hj => ⟨(h.flow j hj).region, (h.flow j hj).flushed, (h.flow j hj).admitted,
      (h.flow j hj).phase⟩, h.distinct, h.covered⟩

/-- An item gets on; it stays on its flow. -/
theorem Window.move (h : Window image task s) (ha : (s.flows j).active = true) {f : Flow → Flow}
    (hactive : (f (s.flows j)).active = true)
    (hregion : (f (s.flows j)).eachRegion = (s.flows j).eachRegion)
    (hitem : (f (s.flows j)).itemIndex = (s.flows j).itemIndex)
    (hcapacity : (f (s.flows j)).valueCapacity = (s.flows j).valueCapacity)
    (hfits : (f (s.flows j)).value.length ≤ s.valueStride)
    (hphase : ItemFlow task s (f (s.flows j))) : Window image task (s.setFlow j f) := by
  have hindex : ∀ k, ((s.setFlow j f).flows k).active = (s.flows k).active ∧
      ((s.setFlow j f).flows k).itemIndex = (s.flows k).itemIndex := by
    intro k
    by_cases hkj : k = j
    · subst hkj
      rw [setFlow_flows_self]
      exact ⟨hactive.trans ha.symm, hitem⟩
    · rw [setFlow_flows_of_ne _ _ hkj]
      exact ⟨rfl, rfl⟩
  refine ⟨h.sized.setFlow hcapacity hfits, h.region, h.coordinator, h.count, h.items, h.snapshot,
    h.next_le, h.flush_le, h.collection, fun k hk => ?_, fun k k' hk hk' heq => ?_,
    fun k hle hlt => ?_⟩
  · by_cases hkj : k = j
    · subst hkj
      rw [setFlow_flows_self]
      exact ⟨hphase.region, hphase.flushed, hphase.admitted, hphase.phase⟩
    · rw [setFlow_flows_of_ne _ _ hkj] at hk ⊢
      have hflow := h.flow k hk
      exact ⟨hflow.region, hflow.flushed, hflow.admitted, hflow.phase⟩
  · rw [(hindex k).1] at hk
    rw [(hindex k').1] at hk'
    rw [(hindex k).2, (hindex k').2] at heq
    exact h.distinct k k' hk hk' heq
  · obtain ⟨l, hl, hlk⟩ := h.covered k hle hlt
    exact ⟨l, (hindex l).1.trans hl, (hindex l).2.trans hlk⟩

/-! ## Flushing -/

theorem EachTask.collection_succ (task : EachTask) (count : Nat) :
    task.collection (count + 1) = task.collection count ++ task.values count := by
  simp [EachTask.collection, List.range_succ]

theorem EachTask.collection_mono (task : EachTask) {a b : Nat} (h : a ≤ b) :
    (task.collection a).length ≤ (task.collection b).length := by
  induction h with
  | refl => exact Nat.le_refl _
  | step _ ih =>
      rw [EachTask.collection_succ, List.length_append]
      omega

/-- What flushing does to the flows: those that stay are as they were. -/
structure FlushedTo (s t : GroupExecution) : Prop where
  executionId : t.executionId = s.executionId
  nextRequestId : t.nextRequestId = s.nextRequestId
  complete : t.complete = s.complete
  stride : t.valueStride = s.valueStride
  next : t.eachNextItem = s.eachNextItem
  le : s.eachFlushItem ≤ t.eachFlushItem
  kept : ∀ j, (t.flows j).active = true → t.flows j = s.flows j
  taken : ∀ k, s.eachFlushItem ≤ k → k < t.eachFlushItem →
    ∃ j, (s.flows j).active = true ∧ (s.flows j).itemIndex = k ∧ (s.flows j).state = .waiting

theorem FlushedTo.refl (s : GroupExecution) : FlushedTo s s :=
  ⟨rfl, rfl, rfl, rfl, rfl, Nat.le_refl _, fun _ _ => rfl, fun k hle hlt => by omega⟩

/-- The item at the front of the window leaves it. -/
theorem Window.flush (h : Window image task s) (ha : (s.flows j).active = true)
    (hitem : (s.flows j).itemIndex = s.eachFlushItem) (hstate : (s.flows j).state = .waiting) :
    Window image task (({ s with
      eachCollection := s.eachCollection ++ (s.flows j).value
      eachFlushItem := s.eachFlushItem + 1 }).setFlow j Flow.flushed) := by
  have hflow := h.flow j ha
  have hvalue : (s.flows j).value = task.values s.eachFlushItem := by
    rcases hflow.phase with hphase | ⟨-, ⟨hready, -⟩ | hprepared | hsent⟩
    · rw [hphase.2, hitem]
    · rw [hready] at hstate; cases hstate
    · rw [hprepared] at hstate; cases hstate
    · rw [hsent] at hstate; cases hstate
  -- The flows that are still active are the others, unchanged.
  have hstays : ∀ k, ((({ s with
      eachCollection := s.eachCollection ++ (s.flows j).value
      eachFlushItem := s.eachFlushItem + 1 } : GroupExecution).setFlow j
        Flow.flushed).flows k).active = true →
      k ≠ j ∧ (({ s with
        eachCollection := s.eachCollection ++ (s.flows j).value
        eachFlushItem := s.eachFlushItem + 1 } : GroupExecution).setFlow j Flow.flushed).flows k =
          s.flows k := by
    intro k hk
    by_cases hkj : k = j
    · subst hkj
      rw [setFlow_flows_self] at hk
      cases hk
    · exact ⟨hkj, setFlow_flows_of_ne _ _ hkj⟩
  have hsame : Sized image { s with
      eachCollection := s.eachCollection ++ (s.flows j).value
      eachFlushItem := s.eachFlushItem + 1 } := h.sized.congr rfl rfl rfl
  refine ⟨hsame.mark rfl rfl, h.region, h.coordinator, h.count, h.items, h.snapshot, h.next_le, ?_, ?_, fun k hk => ?_, fun k k' hk hk' heq => ?_, fun k hle hlt => ?_⟩
  · have := hflow.admitted
    show s.eachFlushItem + 1 ≤ s.eachNextItem
    omega
  · show s.eachCollection ++ (s.flows j).value = task.collection (s.eachFlushItem + 1)
    rw [h.collection, hvalue, EachTask.collection_succ]
  · obtain ⟨hne, hkept⟩ := hstays k hk
    rw [hkept] at hk ⊢
    have hk' := h.flow k hk
    refine ⟨hk'.region, ?_, hk'.admitted, hk'.phase⟩
    show s.eachFlushItem + 1 ≤ (s.flows k).itemIndex
    have hother : (s.flows k).itemIndex ≠ s.eachFlushItem := fun heq =>
      hne (h.distinct k j hk ha (heq.trans hitem.symm))
    have := hk'.flushed
    omega
  · obtain ⟨-, hkept⟩ := hstays k hk
    obtain ⟨-, hkept'⟩ := hstays k' hk'
    rw [hkept] at hk heq
    rw [hkept'] at hk' heq
    exact h.distinct k k' hk hk' heq
  · change s.eachFlushItem + 1 ≤ k at hle
    obtain ⟨l, hl, hlk⟩ := h.covered k (by omega) hlt
    have hne : l ≠ j := by
      rintro rfl
      omega
    exact ⟨l, by rw [setFlow_flows_of_ne _ _ hne]; exact hl,
      by rw [setFlow_flows_of_ne _ _ hne]; exact hlk⟩

/-- **The flush loop takes the finished items off the front**, all of them. -/
theorem flushItems_window
    (hfits : (task.collection task.items.length).length ≤ Protocol.maxPayloadSize) :
    ∀ (rounds : Nat) {s : GroupExecution}, Window image task s →
      s.eachNextItem - s.eachFlushItem < rounds →
      ∃ t, flushItems task.regionId rounds s = some (.ok, t) ∧ Window image task t ∧
        FlushedTo s t ∧ ∀ j, (t.flows j).active = true → (t.flows j).state = .waiting →
          (t.flows j).itemIndex ≠ t.eachFlushItem := by
  intro rounds
  induction rounds with
  | zero => intro s _ hrounds; omega
  | succ rounds ih =>
      intro s h hrounds
      unfold flushItems
      cases hcand : s.flushCandidate task.regionId with
      | none =>
          refine ⟨s, rfl, h, .refl s, fun j ha hstate hitem => ?_⟩
          have hnone := firstIndex_none.mp hcand j
          simp [ha, (h.flow j ha).region, hstate, hitem] at hnone
      | some ready =>
          have hready := firstIndex_some hcand
          simp only [Bool.and_eq_true, beq_iff_eq] at hready
          obtain ⟨⟨⟨ha, -⟩, hstate⟩, hitem⟩ := hready
          have hnext := h.flush ha hitem hstate
          have hadmitted := (h.flow ready ha).admitted
          have hroom : ¬ Protocol.maxPayloadSize - s.eachCollection.length <
              (s.flows ready).value.length := by
            have hgrown := hnext.collection
            have hmono := task.collection_mono (hnext.flush_le.trans hnext.next_le)
            rw [← hgrown] at hmono
            change (s.eachCollection ++ (s.flows ready).value).length ≤ _ at hmono
            rw [List.length_append] at hmono
            omega
          dsimp only
          rw [if_neg hroom]
          obtain ⟨t, hcall, ht, hto, hfront⟩ := ih hnext (by
            show s.eachNextItem - (s.eachFlushItem + 1) < rounds
            omega)
          refine ⟨t, hcall, ht, ?_, hfront⟩
          have hle : s.eachFlushItem + 1 ≤ t.eachFlushItem := hto.le
          refine ⟨hto.executionId, hto.nextRequestId, hto.complete, hto.stride, hto.next, by omega,
            fun k hk => ?_, fun k hk hlt => ?_⟩
          · have hkept := hto.kept k hk
            rw [hkept] at hk ⊢
            by_cases hkr : k = ready
            · subst hkr
              rw [setFlow_flows_self] at hk
              cases hk
            · exact setFlow_flows_of_ne _ _ hkr
          · by_cases hfirst : k = s.eachFlushItem
            · exact ⟨ready, ha, hitem.trans hfirst.symm, hstate⟩
            · obtain ⟨l, hl, hlk, hlw⟩ := hto.taken k (by
                show s.eachFlushItem + 1 ≤ k
                omega) hlt
              by_cases hlr : l = ready
              · subst hlr
                rw [setFlow_flows_self] at hl
                cases hl
              · rw [setFlow_flows_of_ne _ _ hlr] at hl hlk hlw
                exact ⟨l, hl, hlk, hlw⟩

/-! ## Admitting -/

/-- An item takes up a slot. -/
def admitted (task : EachTask) (item : Edge) (slot : FlowIndex) (s : GroupExecution) :
    GroupExecution :=
  { s with eachNextItem := s.eachNextItem + 1 }.setFlow slot fun flow => { flow with
    active := true
    eachRegion := task.regionId
    itemIndex := s.eachNextItem
    value := task.item s.eachNextItem
    valueSourceType := item.sourceType
    valueDestinationType := item.targetType
    currentNode := item.targetNode
    state := .ready }

theorem EachTask.length_item (task : EachTask) (k : Nat) :
    (task.item k).length ≤ task.source.length := by
  rw [EachTask.item, Bytes.slice, List.length_take, List.length_drop]
  omega

/-- The item behind the window joins it. -/
theorem Window.admitted (h : Window image task s) {item : Edge} {slot : FlowIndex}
    (htarget : item.targetNode = task.region.template)
    (hsource : task.source.length ≤ s.valueStride)
    (hfree : (s.flows slot).active = false) (hnext : s.eachNextItem < task.items.length) :
    Window image task (admitted task item slot s) := by
  have hothers : ∀ k, k ≠ slot → (GroupExecution.admitted task item slot s).flows k = s.flows k :=
    fun k hk => setFlow_flows_of_ne _ _ hk
  have hself : (GroupExecution.admitted task item slot s).flows slot = { s.flows slot with
      active := true
      eachRegion := task.regionId
      itemIndex := s.eachNextItem
      value := task.item s.eachNextItem
      valueSourceType := item.sourceType
      valueDestinationType := item.targetType
      currentNode := item.targetNode
      state := .ready } := setFlow_flows_self _ _ _
  have hsame : Sized image { s with eachNextItem := s.eachNextItem + 1 } :=
    h.sized.congr rfl rfl rfl
  have hflush := h.flush_le
  refine ⟨hsame.setFlow rfl ((task.length_item _).trans hsource), h.region, h.coordinator, h.count,
    h.items, h.snapshot, hnext, ?_, h.collection, fun k hk => ?_,
    fun k k' hk hk' heq => ?_, fun k hle hlt => ?_⟩
  · show s.eachFlushItem ≤ s.eachNextItem + 1
    omega
  · by_cases hks : k = slot
    · subst hks
      rw [hself]
      refine ⟨rfl, hflush, ?_, .inr ⟨htarget, .inl ⟨rfl, rfl⟩⟩⟩
      show s.eachNextItem < s.eachNextItem + 1
      omega
    · rw [hothers k hks] at hk ⊢
      have hflow := h.flow k hk
      exact ⟨hflow.region, hflow.flushed, hflow.admitted.trans (Nat.lt_succ_self _), hflow.phase⟩
  · -- The new item is behind all others.
    have hbehind : ∀ l, l ≠ slot → (s.flows l).active = true →
        (s.flows l).itemIndex ≠ s.eachNextItem := by
      intro l _ hl
      have := (h.flow l hl).admitted
      omega
    by_cases hks : k = slot
    · by_cases hks' : k' = slot
      · rw [hks, hks']
      · rw [hothers k' hks'] at hk' heq
        subst hks
        rw [hself] at heq
        exact absurd heq.symm (hbehind k' hks' hk')
    · by_cases hks' : k' = slot
      · rw [hothers k hks] at hk heq
        subst hks'
        rw [hself] at heq
        exact absurd heq (hbehind k hks hk)
      · rw [hothers k hks] at hk heq
        rw [hothers k' hks'] at hk' heq
        exact h.distinct k k' hk hk' heq
  · change s.eachFlushItem ≤ k at hle
    change k < s.eachNextItem + 1 at hlt
    by_cases hlast : k = s.eachNextItem
    · exact ⟨slot, by rw [hself], by rw [hself]; exact hlast.symm⟩
    · obtain ⟨l, hl, hlk⟩ := h.covered k hle (by omega)
      have hne : l ≠ slot := by
        rintro rfl
        rw [hfree] at hl
        cases hl
      exact ⟨l, by rw [hothers l hne]; exact hl, by rw [hothers l hne]; exact hlk⟩

/-- What admitting does to the flows: those in use are as they were, the new ones are ready. -/
structure AdmittedTo (s t : GroupExecution) : Prop where
  executionId : t.executionId = s.executionId
  nextRequestId : t.nextRequestId = s.nextRequestId
  complete : t.complete = s.complete
  flush : t.eachFlushItem = s.eachFlushItem
  stride : t.valueStride = s.valueStride
  kept : ∀ j, (s.flows j).active = true → t.flows j = s.flows j
  new : ∀ j, (s.flows j).active = false → (t.flows j).active = true →
    (t.flows j).state = .ready ∧ s.eachNextItem ≤ (t.flows j).itemIndex

theorem AdmittedTo.refl (s : GroupExecution) : AdmittedTo s s :=
  ⟨rfl, rfl, rfl, rfl, rfl, fun _ _ => rfl, fun j hj hj' => by rw [hj] at hj'; cases hj'⟩

section Admit

variable {enter : FlowIndex → Edge → Outcome → GroupExecution → Call RuntimeResult GroupExecution}
variable {item back out : Edge}

/-- Entering the template gets the flow ready. -/
def EntersTemplate
    (enter : FlowIndex → Edge → Outcome → GroupExecution → Call RuntimeResult GroupExecution)
    (item : Edge) : Prop :=
  ∀ slot s, enter slot item .none s =
    Call.done ((s.aim slot item).setFlow slot fun flow => { flow with state := .ready, active := true })

/-- **The admission loop widens the window** up to the concurrency or the end of the list. -/
theorem admitItems_window (hshape : EachShape image task.regionId task.region item back out)
    (henter : EntersTemplate enter item) (hsmall : task.region.concurrency.toNat ≤ maxFlows) :
    ∀ (rounds : Nat) {s : GroupExecution}, Window image task s →
      task.source.length ≤ s.valueStride →
      s.eachNextItem - s.eachFlushItem ≤ task.region.concurrency.toNat →
      task.region.concurrency.toNat - (s.eachNextItem - s.eachFlushItem) < rounds →
      ∃ t, admitItems image enter task.regionId task.region rounds s = some (.ok, t) ∧
        Window image task t ∧ AdmittedTo s t ∧
        t.eachNextItem =
          min task.items.length (t.eachFlushItem + task.region.concurrency.toNat) := by
  intro rounds
  induction rounds with
  | zero => intro s _ _ _ hrounds; omega
  | succ rounds ih =>
      intro s h hsource hwidth hrounds
      have hflush := h.flush_le
      have hle := h.next_le
      have hactive := h.activeInRegion
      have hcount := h.count
      unfold admitItems
      by_cases hdone : task.region.concurrency.toNat ≤ s.activeInRegion task.regionId ∨
          s.eachItemCount ≤ s.eachNextItem
      · rw [if_pos hdone]
        exact ⟨s, rfl, h, .refl s, by omega⟩
      · rw [if_neg hdone]
        rw [not_or] at hdone
        obtain ⟨slot, hslot, hfree⟩ := h.freeFlow (by omega)
        rw [hslot]
        have hnext := h.admitted hshape.enters.2 hsource hfree (by omega)
        -- The copy fits, and the entry only gets the flow ready.
        have hcapacity : ¬ (s.flows slot).valueCapacity < (task.item s.eachNextItem).length := by
          have := task.length_item s.eachNextItem
          rw [h.sized.capacity slot]
          omega
        have hitem : s.eachSourceSnapshot.slice (s.eachItems.getD s.eachNextItem (0, 0)).1
            (s.eachItems.getD s.eachNextItem (0, 0)).2 = task.item s.eachNextItem := by
          rw [h.snapshot, h.items]
          rfl
        dsimp only
        obtain ⟨t, hcall, ht, hto, hfull⟩ := ih hnext hsource
          (by
            show s.eachNextItem + 1 - s.eachFlushItem ≤ _
            omega)
          (by
            show task.region.concurrency.toNat - (s.eachNextItem + 1 - s.eachFlushItem) < rounds
            omega)
        refine ⟨t, ?_, ht, ?_, hfull⟩
        · rw [← hcall]
          have hcopy : ∀ f : Flow → Flow, (f (s.flows slot)).valueCapacity =
              (s.flows slot).valueCapacity →
              ({ s with eachNextItem := s.eachNextItem + 1 }.setFlow slot f).copyValue slot
                (task.item s.eachNextItem) =
                Call.done (({ s with eachNextItem := s.eachNextItem + 1 }.setFlow slot f).setFlow
                  slot fun flow => { flow with value := task.item s.eachNextItem }) := by
            intro f hf
            unfold copyValue
            rw [setFlow_flows_self, if_neg (by rw [hf]; exact hcapacity)]
          change (copyValue _ slot (s.eachSourceSnapshot.slice
            (s.eachItems.getD s.eachNextItem (0, 0)).1
            (s.eachItems.getD s.eachNextItem (0, 0)).2)).andThen _ = _
          rw [hitem, hcopy _ rfl, Call.andThen_done, hshape.itemEdge]
          dsimp only
          rw [henter, Call.andThen_done]
          congr 1
          simp only [aim, setFlow_setFlow, GroupExecution.admitted]
        · have hothers : ∀ k, k ≠ slot →
              (GroupExecution.admitted task item slot s).flows k = s.flows k :=
            fun k hk => setFlow_flows_of_ne _ _ hk
          have hactive : ((GroupExecution.admitted task item slot s).flows slot).active = true := by
            rw [GroupExecution.admitted, setFlow_flows_self]
          refine ⟨hto.executionId, hto.nextRequestId, hto.complete, hto.flush, hto.stride,
            fun k hk => ?_, fun k hk hk' => ?_⟩
          · have hne : k ≠ slot := by
              rintro rfl
              rw [hfree] at hk
              cases hk
            rw [← hothers k hne] at hk ⊢
            exact hto.kept k hk
          · by_cases hks : k = slot
            · subst hks
              rw [hto.kept k hactive, GroupExecution.admitted, setFlow_flows_self]
              exact ⟨rfl, Nat.le_refl _⟩
            · rw [← hothers k hks] at hk
              obtain ⟨hready, hbehind⟩ := hto.new k hk hk'
              exact ⟨hready, Nat.le_of_succ_le hbehind⟩

/-! ## Finishing -/

theorem EachShape.eachRegion? (hshape : EachShape image task.regionId task.region item back out)
    (hs : Sized image s) : s.eachRegion? task.regionId = some task.region := by
  have hfound := hshape.found
  unfold Image.eachAt at hfound
  unfold GroupExecution.eachRegion?
  split at hfound
  · cases hfound
  · rename_i hne
    have hzero : task.regionId ≠ 0 := by
      rintro hzero
      rw [hzero] at hne
      exact hne rfl
    rw [if_neg hzero, hs.regions]
    rw [UInt8.toNat_toUInt16] at hfound
    exact hfound

theorem EachShape.mem (hshape : EachShape image task.regionId task.region item back out) :
    task.region ∈ image.eachRegions := Image.eachAt_mem hshape.found

/-- What the items return is canonical, and the collected list fits. -/
structure Returned (image : Image) (task : EachTask) (stride : Nat) : Prop where
  valid : ∀ k, k < task.items.length →
    image.validateValue task.region.itemOutput (task.values k) = true
  fits : (task.collection task.items.length).length ≤ stride

/-- **The collected list is canonical**, and its items are what was returned, in order. -/
theorem collection_valid (hregion : task.region ∈ image.eachRegions) {stride : Nat}
    (hreturned : Returned image task stride)
    (hcount : task.items.length ≤ task.region.bound.toNat) :
    image.validateValue task.region.collected (task.collection task.items.length) = true ∧
      image.itemsOf task.region.collected (task.collection task.items.length) maxEachItems =
        (List.range task.items.length).map task.values := by
  obtain ⟨classes, regions, h⟩ := image.checked
  obtain ⟨range, itemRange, element, maximum, hlist, hitem, hbound⟩ :=
    Image.listOf_represents (h.each_checked _ (h.each_eq ▸ hregion)).output
  rw [decide_eq_true_eq, UInt16.toNat_toUInt32] at hbound
  have hmaximum : maximum.toNat ≤ maxEachItems := by
    have hvalid := hlist.stands.valid
    exact UInt16.le_iff_toNat_le.mp hvalid.2.1
  have hvalues : ∀ value ∈ (List.range task.items.length).map task.values,
      element.walk value = some [] := by
    intro value hvalue
    obtain ⟨k, hk, rfl⟩ := List.mem_map.mp hvalue
    exact (hitem.validateValue _).mp (hreturned.valid k (List.mem_range.mp hk))
  have hcollected := Image.collected_valid hlist hvalues (by
    rw [List.length_map, List.length_range]
    omega) hmaximum
  rw [List.length_map, List.length_range, ← List.flatMap_def] at hcollected
  exact hcollected

/-- What the region's output edge is entered with. -/
structure EachOutput (image : Image) (task : EachTask) (t : GroupExecution) : Prop where
  canonical : image.validateValue task.region.collected (t.flows task.coordinator).value = true
  inOrder : image.itemsOf task.region.collected (t.flows task.coordinator).value maxEachItems =
    (List.range task.items.length).map task.values
  alone : ∀ j, j ≠ task.coordinator → (t.flows j).active = false
  idle : t.activeEachRegion = 0

/-- **A region whose items are all flushed hands the collected list on.** -/
theorem eachFinish_window (hshape : EachShape image task.regionId task.region item back out)
    (hcount : task.items.length ≤ task.region.bound.toNat) (h : Window image task s)
    (hreturned : Returned image task s.valueStride)
    (hflush : s.eachFlushItem = task.items.length) :
    ∃ t, eachFinish image enter s = enter task.coordinator out .success t ∧
      EachOutput image task t := by
  obtain ⟨hvalid, hitems⟩ := collection_valid hshape.mem hreturned hcount
  have hcollection : s.eachCollection = task.collection task.items.length :=
    hflush ▸ h.collection
  -- With the window empty no flow is active.
  have hinactive : ∀ j, (s.flows j).active = false := by
    intro j
    cases ha : (s.flows j).active with
    | false => rfl
    | true =>
        have hflow := h.flow j ha
        have h1 := hflow.flushed
        have h2 := hflow.admitted
        have h3 := h.next_le
        omega
  have hcopy : s.copyValue s.eachCoordinatorFlow s.eachCollection =
      Call.done (s.setFlow task.coordinator fun flow =>
        { flow with value := task.collection task.items.length }) := by
    unfold copyValue
    rw [if_neg (by rw [h.sized.capacity, hcollection]; exact not_lt.mpr hreturned.fits),
      h.coordinator, hcollection]
  unfold eachFinish
  dsimp only
  rw [h.region, hshape.eachRegion? h.sized]
  dsimp only
  rw [hcopy, Call.andThen_done, h.coordinator, setFlow_flows_self, if_neg (by simp [hvalid]),
    hshape.outEdge]
  refine ⟨_, rfl, ?_, ?_, fun j hj => ?_, rfl⟩
  · dsimp only
    rw [setFlow_setFlow, setFlow_flows_self]
    exact hvalid
  · dsimp only
    rw [setFlow_setFlow, setFlow_flows_self]
    exact hitems
  · dsimp only
    rw [setFlow_flows_of_ne _ _ hj, setFlow_flows_of_ne _ _ hj]
    exact hinactive j

/-! ## Collecting -/

/-- The flow of an item that came back. -/
def waits (value : Bytes) (back : Edge) (flow : Flow) : Flow := { flow with
  value
  valueSourceType := back.sourceType
  valueDestinationType := back.targetType
  currentNode := back.targetNode
  state := .waiting }

theorem Window.returns (h : Window image task s) (ha : (s.flows j).active = true)
    (hfits : (task.values (s.flows j).itemIndex).length ≤ s.valueStride) :
    Window image task (s.setFlow j (waits (task.values (s.flows j).itemIndex) back)) := by
  have hflow := h.flow j ha
  exact h.move ha ha rfl rfl rfl hfits ⟨hflow.region, hflow.flushed, hflow.admitted, .inl ⟨rfl, rfl⟩⟩

/-- A value that is part of the collection fits where the collection fits. -/
theorem EachTask.values_le (task : EachTask) {k : Nat} (hk : k < task.items.length) :
    (task.values k).length ≤ (task.collection task.items.length).length := by
  have hsucc := task.collection_mono (Nat.succ_le_of_lt hk)
  rw [EachTask.collection_succ, List.length_append] at hsucc
  omega

/-- What collecting the item of flow `j` does to the flows. -/
structure CollectedTo (s : GroupExecution) (j : FlowIndex) (t : GroupExecution) : Prop where
  executionId : t.executionId = s.executionId
  nextRequestId : t.nextRequestId = s.nextRequestId
  complete : t.complete = s.complete
  stride : t.valueStride = s.valueStride
  le : s.eachFlushItem ≤ t.eachFlushItem
  /-- A flow of the window is as it was, came back, or is new. -/
  flows : ∀ l, (t.flows l).active = true →
    ((s.flows l).active = true ∧ (t.flows l).itemIndex = (s.flows l).itemIndex ∧
      ((l ≠ j ∧ t.flows l = s.flows l) ∨ (l = j ∧ (t.flows l).state = .waiting))) ∨
    ((t.flows l).state = .ready ∧ s.eachNextItem ≤ (t.flows l).itemIndex)
  /-- What was flushed had come back. -/
  taken : ∀ k, s.eachFlushItem ≤ k → k < t.eachFlushItem →
    ∃ l, (s.flows l).active = true ∧ (s.flows l).itemIndex = k ∧
      (l = j ∨ (s.flows l).state = .waiting)

/-- The flow of the last item comes back when all others are back. -/
structure LastBack (task : EachTask) (s : GroupExecution) (j : FlowIndex) : Prop where
  admitted : s.eachNextItem = task.items.length
  others : ∀ l, (s.flows l).active = true → l ≠ j → (s.flows l).state = .waiting

/-- The limits that the loader sets. -/
structure EachLimits (task : EachTask) (stride : Nat) : Prop where
  concurrency_pos : 0 < task.region.concurrency.toNat
  concurrency_le : task.region.concurrency.toNat ≤ maxFlows
  count : task.items.length ≤ task.region.bound.toNat
  source : task.source.length ≤ stride

/-- **Collecting an item fills the window up again, or hands the collected list on.** -/
theorem eachCollect_window (hshape : EachShape image task.regionId task.region item back out)
    (henter : EntersTemplate enter item) (hlimits : EachLimits task s.valueStride)
    (h : Filled image task s) (ha : (s.flows j).active = true)
    (hreturned : Returned image task s.valueStride) {rounds : Nat} (hrounds : maxFlows < rounds) :
    (∃ t, eachCollect image enter rounds j task.regionId (s.setFlow j fun flow =>
        { flow with
          value := task.values (s.flows j).itemIndex
          valueSourceType := back.sourceType
          valueDestinationType := back.targetType
          currentNode := back.targetNode }) = some (.ok, t) ∧
      Filled image task t ∧ CollectedTo s j t) ∨
    (LastBack task s j ∧ ∃ t, eachCollect image enter rounds j task.regionId (s.setFlow j fun flow =>
        { flow with
          value := task.values (s.flows j).itemIndex
          valueSourceType := back.sourceType
          valueDestinationType := back.targetType
          currentNode := back.targetNode }) = enter task.coordinator out .success t ∧
      EachOutput image task t) := by
  have hwindow := h.toWindow
  have hflow := hwindow.flow j ha
  have hwidth := hwindow.activeInRegion
  have hle := activeInRegion_le s task.regionId
  have hitem : (s.flows j).itemIndex < task.items.length := hflow.admitted.trans_le hwindow.next_le
  have hvalue := (task.values_le hitem).trans hreturned.fits
  have hnonzero : task.regionId ≠ 0 := eachRegion_active (hshape.eachRegion? hwindow.sized)
  -- The flow waits with what came back.
  let u : GroupExecution := { s.setFlow j (waits (task.values (s.flows j).itemIndex) back) with
    eachCompletedItems := s.eachCompletedItems + 1 }
  have hu : Window image task u := (hwindow.returns ha hvalue).congr s.nextRequestId _
  have hself : u.flows j = waits (task.values (s.flows j).itemIndex) back (s.flows j) :=
    setFlow_flows_self _ _ _
  have hothers : ∀ l, l ≠ j → u.flows l = s.flows l := fun l hl => setFlow_flows_of_ne _ _ hl
  have hactive : ∀ l, (u.flows l).active = (s.flows l).active ∧
      (u.flows l).itemIndex = (s.flows l).itemIndex := by
    intro l
    by_cases hl : l = j
    · subst hl
      rw [hself]
      exact ⟨rfl, rfl⟩
    · rw [hothers l hl]
      exact ⟨rfl, rfl⟩
  have hnext : u.eachNextItem = s.eachNextItem := rfl
  have hfirst : u.eachFlushItem = s.eachFlushItem := rfl
  obtain ⟨v, hflush, hv, hto, hfront⟩ := flushItems_window
    (hreturned.fits.trans hwindow.sized.stride) (maxFlows + 1) hu (by omega)
  have hstride : v.valueStride = s.valueStride := hto.stride
  have hcall : eachCollect image enter rounds j task.regionId (s.setFlow j fun flow =>
      { flow with
        value := task.values (s.flows j).itemIndex
        valueSourceType := back.sourceType
        valueDestinationType := back.targetType
        currentNode := back.targetNode }) =
      if v.eachFlushItem = v.eachItemCount then eachFinish image enter v
      else eachAdmit image enter rounds v := by
    unfold eachCollect
    rw [if_neg (by
      rw [setFlow_flows_self]
      simp only [not_or, not_not]
      refine ⟨hnonzero, hwindow.region.symm, hflow.region, ?_⟩
      show ¬ s.eachItemCount ≤ (s.flows j).itemIndex
      have := hwindow.count
      omega)]
    dsimp only
    rw [setFlow_setFlow]
    change (flushItems task.regionId (maxFlows + 1) u).andThen _ = _
    rw [hflush]
    rfl
  rw [hcall, hv.count]
  by_cases hdone : v.eachFlushItem = task.items.length
  · rw [if_pos hdone]
    obtain ⟨t, hfinish, hout⟩ := eachFinish_window hshape hlimits.count hv
      (hstride ▸ hreturned) hdone
    refine .inr ⟨⟨?_, fun l hl hlj => ?_⟩, t, hfinish, hout⟩
    · have h1 := hv.flush_le
      have h2 := hto.next
      have h3 := hwindow.next_le
      omega
    · have hlflow := hwindow.flow l hl
      have h1 := hlflow.flushed
      have h2 := hlflow.admitted
      have h3 := hwindow.next_le
      obtain ⟨l', hl', hlk, hstate⟩ := hto.taken (s.flows l).itemIndex h1 (by omega)
      have hsame : l' = l := by
        rw [(hactive l').1] at hl'
        rw [(hactive l').2] at hlk
        exact hwindow.distinct l' l hl' hl hlk
      rw [hsame, hothers l hlj] at hstate
      exact hstate
  · rw [if_neg hdone]
    have h1 := hv.flush_le
    have h2 := hv.next_le
    have h3 : v.eachNextItem = s.eachNextItem := hto.next
    have h4 : s.eachFlushItem ≤ v.eachFlushItem := hto.le
    have h5 := h.full
    have h6 := hlimits.concurrency_le
    obtain ⟨t, hadmit, ht, hadmitted, hfull⟩ := admitItems_window hshape henter
      hlimits.concurrency_le rounds hv (hstride ▸ hlimits.source) (by omega) (by omega)
    have hadmit' : eachAdmit image enter rounds v = some (.ok, t) := by
      unfold eachAdmit
      rw [hv.region, hshape.eachRegion? hv.sized]
      exact hadmit
    have hflushItem := hadmitted.flush
    refine .inl ⟨t, hadmit', ⟨ht, hfull, by omega, fun l hl hstate => ?_⟩,
      hadmitted.executionId.trans hto.executionId, hadmitted.nextRequestId.trans hto.nextRequestId,
      hadmitted.complete.trans hto.complete, hadmitted.stride.trans hto.stride, by omega, fun l hl => ?_, fun k hk hlt => ?_⟩
    · -- What waits was there before admitting, and is not at the front.
      cases hlv : (v.flows l).active with
      | true =>
          rw [hadmitted.kept l hlv] at hstate ⊢
          rw [hflushItem]
          exact hfront l hlv hstate
      | false =>
          rw [(hadmitted.new l hlv hl).1] at hstate
          cases hstate
    · cases hlv : (v.flows l).active with
      | true =>
          have hkept := hto.kept l hlv
          rw [hadmitted.kept l hlv, hkept]
          rw [hkept] at hlv
          refine .inl ⟨(hactive l).1.symm.trans hlv, (hactive l).2, ?_⟩
          by_cases hlj : l = j
          · subst hlj
            rw [hself]
            exact .inr ⟨rfl, rfl⟩
          · exact .inl ⟨hlj, hothers l hlj⟩
      | false =>
          obtain ⟨hready, hbehind⟩ := hadmitted.new l hlv hl
          exact .inr ⟨hready, by omega⟩
    · obtain ⟨l, hl, hlk, hstate⟩ := hto.taken k hk (by omega)
      rw [(hactive l).1] at hl
      rw [(hactive l).2] at hlk
      refine ⟨l, hl, hlk, ?_⟩
      by_cases hlj : l = j
      · exact .inl hlj
      · rw [hothers l hlj] at hstate
        exact .inr hstate

end Admit

end GroupExecution

end Hermas
