import Hermas.Runtime.GroupRun

/-!
# Where flows wait

A flow that arrives at a join waits for the other branches, a flow that arrives
at the collect point of a region waits until the items before its own are
collected. What happens next depends on who waits already. These are the two
questions to ask of the state before the arrival, whether a branch is missing and
whether an item is missing, and what the answers mean for the calls.
-/

namespace Hermas

open Image (Edge)

namespace GroupExecution

/-- When flow `i` leaves its delivery and `mover` enters the join behind the edge, some other
branch of the join has not arrived. -/
def BranchMissing (image : Image) (s : GroupExecution) (i mover : FlowIndex) (edge : Edge) : Prop :=
  ∃ tag < (image.node edge.targetNode).subtype.toNat, UInt8.ofNat tag ≠ edge.caseTag ∧
    ∀ k, k ≠ mover → (s.flows k).active = true → ((s.flows k).state = .waiting ∨ k = i) →
      (s.flows k).joinNode = edge.targetNode → (s.flows k).joinTag ≠ UInt8.ofNat tag

/-- Some item of the active region is neither collected nor held, flow `i` apart. -/
def ItemMissing (s : GroupExecution) (i : FlowIndex) : Prop :=
  ∃ item, s.eachFlushItem ≤ item ∧ item < s.eachItemCount ∧ item ≠ (s.flows i).itemIndex ∧
    ∀ k, k ≠ i → (s.flows k).active = true → (s.flows k).eachRegion = s.activeEachRegion →
      (s.flows k).state = .waiting → (s.flows k).itemIndex ≠ item

variable {image : Image} {bound : Nat} {s s' t v : GroupExecution} {i : FlowIndex} {edge : Edge}
variable {o : Outcome} {r : RuntimeResult}

/-- A flow that waits in `t` waited in `s` already, or is flow `i`, for the same branch. -/
structure StillWaits (s : GroupExecution) (i : FlowIndex) (t : GroupExecution)
    (k : FlowIndex) : Prop where
  active : (s.flows k).active = true
  waiting : (s.flows k).state = .waiting ∨ k = i
  joinNode : (t.flows k).joinNode = (s.flows k).joinNode
  joinTag : (t.flows k).joinTag = (s.flows k).joinTag

theorem StillWaits.of_eq {k : FlowIndex} (h : t.flows k = s.flows k)
    (ha : (t.flows k).active = true) (hst : (t.flows k).state = .waiting) :
    StillWaits s i t k := by
  rw [h] at ha hst
  exact ⟨ha, .inl hst, by rw [h], by rw [h]⟩

theorem StillWaits.congr {k : FlowIndex} (h : StillWaits s i t k) (hk : v.flows k = t.flows k) :
    StillWaits s i v k := ⟨h.active, h.waiting, by rw [hk]; exact h.joinNode,
  by rw [hk]; exact h.joinTag⟩

/-- A flow in front of a node has its joins and its item as before. -/
theorem branchMissing_landed {mover : FlowIndex} (e : Edge) (value : Bytes) :
    BranchMissing image (s.landed i e value) i mover edge ↔ BranchMissing image s i mover edge := by
  have hflow : ∀ k, ((s.landed i e value).flows k).active = (s.flows k).active ∧
      ((s.landed i e value).flows k).state = (s.flows k).state ∧
      ((s.landed i e value).flows k).joinNode = (s.flows k).joinNode ∧
      ((s.landed i e value).flows k).joinTag = (s.flows k).joinTag := by
    intro k
    by_cases hk : k = i
    · subst hk; simp [landed]
    · simp [landed, hk]
  unfold BranchMissing
  simp only [fun k => (hflow k).1, fun k => (hflow k).2.1, fun k => (hflow k).2.2.1,
    fun k => (hflow k).2.2.2]

theorem itemMissing_landed (e : Edge) (value : Bytes) :
    (s.landed i e value).ItemMissing i ↔ s.ItemMissing i := by
  have hflow : ∀ k, ((s.landed i e value).flows k).active = (s.flows k).active ∧
      ((s.landed i e value).flows k).state = (s.flows k).state ∧
      ((s.landed i e value).flows k).eachRegion = (s.flows k).eachRegion ∧
      ((s.landed i e value).flows k).itemIndex = (s.flows k).itemIndex := by
    intro k
    by_cases hk : k = i
    · subst hk; simp [landed]
    · simp [landed, hk]
  unfold ItemMissing
  simp only [fun k => (hflow k).1, fun k => (hflow k).2.1, fun k => (hflow k).2.2.1,
    fun k => (hflow k).2.2.2]
  rfl

/-! ## Joins -/

/-- A join that misses a branch is not filled. -/
theorem branchFlows_none {joinNode : UInt16} {count tag : Nat} (htag : tag < count)
    (hnone : s.branchFlow joinNode (UInt8.ofNat tag) = none) :
    s.branchFlows joinNode count = none := by
  cases hb : s.branchFlows joinNode count with
  | none => rfl
  | some flows =>
      have hall := List.forall₂_iff_get.mp (branchFlows_some hb)
      have hlen : tag < (List.range count).length := by simpa using htag
      have := hall.2 tag hlen (hall.1 ▸ hlen)
      simp only [List.get_eq_getElem, List.getElem_range] at this
      rw [hnone] at this
      cases this

/-- A branch that was missing before the arrival is missing behind it. -/
theorem branchFlows_missing {mover : FlowIndex} (hm : BranchMissing image s i mover edge)
    (hflows : ∀ k, k ≠ mover → (t.flows k).active = true → (t.flows k).state = .waiting →
      StillWaits s i t k) :
    (t.setFlow mover fun flow => { flow with
      joinNode := edge.targetNode
      joinTag := edge.caseTag
      state := .waiting }).branchFlows edge.targetNode
        (image.node edge.targetNode).subtype.toNat = none := by
  obtain ⟨tag, hlt, hne, hmiss⟩ := hm
  refine branchFlows_none hlt ?_
  rw [branchFlow, firstIndex_none]
  intro k
  by_contra hk
  simp only [Bool.not_eq_false, Bool.and_eq_true, beq_iff_eq] at hk
  obtain ⟨⟨⟨ha, hst⟩, hnode⟩, htag⟩ := hk
  by_cases hkm : k = mover
  · subst hkm
    simp only [setFlow_flows_self] at htag
    exact hne htag.symm
  · simp only [setFlow_flows_of_ne _ _ hkm] at ha hst hnode htag
    obtain ⟨ha', hst', hj, ht⟩ := hflows k hkm ha hst
    exact hmiss k hkm ha' hst' (hj ▸ hnode) (ht ▸ htag)

/-- With a branch missing the flow just waits. -/
theorem arrive_branchMissing {mover : FlowIndex} {enter rounds} (hk : edge.targetKind = 5)
    (hmem : edge ∈ image.tables.edges) (hm : BranchMissing image s i mover edge)
    (hflows : ∀ k, k ≠ mover → (t.flows k).active = true → (t.flows k).state = .waiting →
      StillWaits s i t k)
    (h : arrive image enter rounds mover edge o t = some (r, s')) :
    r = .ok ∧ s' = (t.setFlow mover fun flow => { flow with
      joinNode := edge.targetNode
      joinTag := edge.caseTag
      state := .waiting }).maybeComplete := by
  rw [arrive_join _ _ _ _ _ _ hk] at h
  simp only [resolveJoin, Image.target_join image hmem hk, ne_eq, not_true, if_false,
    branchFlows_missing hm hflows] at h
  obtain ⟨rfl, rfl⟩ := Prod.mk.inj (Option.some.inj h)
  exact ⟨rfl, rfl⟩

/-! ## Collect points -/

/-- What the flush loop leaves alone. -/
structure Flushed (s t : GroupExecution) : Prop where
  flows : ∀ k, t.flows k = s.flows k ∨ t.flows k = Flow.flushed (s.flows k)
  itemCount : t.eachItemCount = s.eachItemCount
  nextItem : t.eachNextItem = s.eachNextItem
  region : t.activeEachRegion = s.activeEachRegion
  coordinator : t.eachCoordinatorFlow = s.eachCoordinatorFlow
  pendingOutcome : t.pendingOutcome = s.pendingOutcome
  pendingFlow : t.pendingFlow = s.pendingFlow
  entered : t.entered = s.entered

theorem Flushed.refl (s : GroupExecution) : Flushed s s :=
  ⟨fun _ => .inl rfl, rfl, rfl, rfl, rfl, rfl, rfl, rfl⟩

theorem Flushed.trans {u : GroupExecution} (h : Flushed s t) (h' : Flushed t u) : Flushed s u where
  flows k := by
    rcases h'.flows k with hk | hk <;> rw [hk]
    · exact h.flows k
    · rcases h.flows k with hk' | hk' <;> rw [hk'] <;> exact .inr rfl
  itemCount := h'.itemCount.trans h.itemCount
  nextItem := h'.nextItem.trans h.nextItem
  region := h'.region.trans h.region
  coordinator := h'.coordinator.trans h.coordinator
  pendingOutcome := h'.pendingOutcome.trans h.pendingOutcome
  pendingFlow := h'.pendingFlow.trans h.pendingFlow
  entered := h'.entered.trans h.entered

theorem Flushed.inactive (h : Flushed s t) (k : FlowIndex) :
    t.flows k = s.flows k ∨ (t.flows k).active = false :=
  (h.flows k).imp id fun hk => by rw [hk]; rfl

theorem flushItems_flushed {regionId : UInt8} :
    ∀ (rounds : Nat) (s : GroupExecution), (flushItems regionId rounds s).Keeps (Flushed s) := by
  intro rounds
  induction rounds with
  | zero => intro s; exact Call.ensures_none
  | succ rounds ih =>
      intro s
      unfold flushItems
      split
      · exact Call.keeps_done (.refl s)
      · rename_i ready _
        simp only
        split
        · exact Call.keeps_report (.refl s)
        · intro r u hu
          refine Flushed.trans ?_ (ih _ r u hu)
          refine ⟨fun k => ?_, rfl, rfl, rfl, rfl, rfl, rfl, rfl⟩
          by_cases hk : k = ready
          · subst hk; exact .inr (by simp [Flow.flushed])
          · exact .inl (by rw [setFlow_flows_of_ne _ _ hk])

/-- The flush loop does not get past an item that nobody holds. -/
theorem flushItems_missing {regionId : UInt8} {item : Nat} :
    ∀ (rounds : Nat) (s : GroupExecution), s.eachFlushItem ≤ item →
      (∀ k, (s.flows k).active = true → (s.flows k).eachRegion = regionId →
        (s.flows k).state = .waiting → (s.flows k).itemIndex ≠ item) →
      (flushItems regionId rounds s).Keeps fun t => t.eachFlushItem ≤ item := by
  intro rounds
  induction rounds with
  | zero => intro s _ _; exact Call.ensures_none
  | succ rounds ih =>
      intro s hle hmiss
      unfold flushItems
      split
      · exact Call.keeps_done hle
      · rename_i ready hready
        have hcand := firstIndex_some hready
        simp only [Bool.and_eq_true, beq_iff_eq] at hcand
        obtain ⟨⟨⟨ha, hr⟩, hst⟩, hitem⟩ := hcand
        have hne := hmiss ready ha hr hst
        simp only
        split
        · exact Call.keeps_report hle
        · refine ih _ ?_ fun k ha hr hst => ?_
          · show s.eachFlushItem + 1 ≤ item
            omega
          · by_cases hk : k = ready
            · subst hk; simp [Flow.flushed] at ha
            · rw [setFlow_flows_of_ne _ _ hk] at ha hr hst ⊢
              exact hmiss k ha hr hst

/-- Behind the flush loop of a collect point that flow `i` of `t` arrived at. -/
structure Collected (t : GroupExecution) (i : FlowIndex) (v : GroupExecution) : Prop where
  flows : ∀ k, v.flows k = t.flows k ∨ v.flows k = (t.flows k).flushed ∨
    k = i ∧ (v.flows k = { t.flows k with state := .waiting } ∨
      v.flows k = Flow.flushed { t.flows k with state := .waiting })
  itemCount : v.eachItemCount = t.eachItemCount
  nextItem : v.eachNextItem = t.eachNextItem
  region : v.activeEachRegion = t.activeEachRegion
  coordinator : v.eachCoordinatorFlow = t.eachCoordinatorFlow
  pendingOutcome : v.pendingOutcome = t.pendingOutcome
  pendingFlow : v.pendingFlow = t.pendingFlow
  entered : v.entered = t.entered
  missing : t.ItemMissing i → ∃ item, v.eachFlushItem ≤ item ∧ item < t.eachItemCount

/-- Collecting fails without a change, or flushes and then hands the collection on or admits. -/
theorem eachCollect_cases {rounds : Nat} {regionId : UInt8} {enter : FlowIndex → Edge → Outcome →
      GroupExecution → Call RuntimeResult GroupExecution}
    (h : eachCollect image enter rounds i regionId t = some (r, s')) :
    (r ≠ .ok ∧ s' = t) ∨ ∃ v, Collected t i v ∧ ((r ≠ .ok ∧ s' = v) ∨
      (v.eachFlushItem = v.eachItemCount ∧ eachFinish image enter v = some (r, s')) ∨
      eachAdmit image enter rounds v = some (r, s')) := by
  unfold eachCollect at h
  split at h
  · obtain ⟨rfl, rfl⟩ := Prod.mk.inj (Option.some.inj h)
    exact .inl ⟨by decide, rfl⟩
  rename_i hopen
  simp only [not_or, not_not] at hopen
  obtain ⟨-, hid, hin, -⟩ := hopen
  simp only at h
  generalize hu : ({ t.setFlow i fun flow => { flow with state := .waiting } with
    eachCompletedItems := (t.setFlow i fun flow =>
      { flow with state := .waiting }).eachCompletedItems + 1 } : GroupExecution) = u at h
  have hothers : ∀ k, k ≠ i → u.flows k = t.flows k := by
    intro k hk
    subst hu
    simp [setFlow, hk]
  have hself : u.flows i = { t.flows i with state := .waiting } := by
    subst hu
    simp [setFlow]
  have hcollected : ∀ r v, flushItems regionId (maxFlows + 1) u = some (r, v) →
      Collected t i v := by
    intro r v hv
    have hfl := flushItems_flushed _ u r v hv
    refine ⟨fun k => ?_, ?_, ?_, ?_, ?_, ?_, ?_, ?_, ?_⟩
    · by_cases hk : k = i
      · subst hk
        exact .inr (.inr ⟨rfl, hself ▸ hfl.flows k⟩)
      · rw [← hothers k hk]
        exact (hfl.flows k).imp id .inl
    · rw [hfl.itemCount, ← hu]; rfl
    · rw [hfl.nextItem, ← hu]; rfl
    · rw [hfl.region, ← hu]; rfl
    · rw [hfl.coordinator, ← hu]; rfl
    · rw [hfl.pendingOutcome, ← hu]; rfl
    · rw [hfl.pendingFlow, ← hu]; rfl
    · rw [hfl.entered, ← hu]; rfl
    · rintro ⟨item, hle, hlt, hne, hmiss⟩
      have hle' : u.eachFlushItem ≤ item := by
        subst hu
        exact hle
      refine ⟨item, flushItems_missing _ u hle' (fun k ha hr hst => ?_) r v hv, hlt⟩
      by_cases hk : k = i
      · subst hk
        rw [hself]
        exact hne.symm
      · rw [hothers k hk] at ha hr hst ⊢
        exact hmiss k hk ha (hr.trans hid) hst
  cases hflush : flushItems regionId (maxFlows + 1) u with
  | none => rw [hflush] at h; cases h
  | some p =>
      obtain ⟨r₁, v⟩ := p
      rw [hflush] at h
      refine .inr ⟨v, hcollected r₁ v hflush, ?_⟩
      simp only [Call.andThen] at h
      split at h
      · split at h
        · rename_i hdone
          exact .inr (.inl ⟨hdone, h⟩)
        · exact .inr (.inr h)
      · rename_i hbad
        obtain ⟨rfl, rfl⟩ := Prod.mk.inj (Option.some.inj h)
        exact .inl ⟨hbad, rfl⟩

/-- A flow behind the flush loop is as before, waits, or is free. -/
theorem Collected.cases (h : Collected t i v) (k : FlowIndex) :
    v.flows k = t.flows k ∨ (k = i ∧ (v.flows k).state = .waiting) ∨
      (v.flows k).active = false := by
  rcases h.flows k with hk | hk | ⟨rfl, hk | hk⟩
  · exact .inl hk
  · exact .inr (.inr (by rw [hk]; rfl))
  · exact .inr (.inl ⟨rfl, by rw [hk]⟩)
  · exact .inr (.inr (by rw [hk]; rfl))

theorem Collected.stillWaits (h : Collected t i v) (k : FlowIndex)
    (ha : (v.flows k).active = true) (hst : (v.flows k).state = .waiting) :
    StillWaits t i v k := by
  rcases h.flows k with hk | hk | ⟨rfl, hk | hk⟩
  · exact .of_eq hk ha hst
  · rw [hk] at ha; cases ha
  · rw [hk] at ha
    exact ⟨ha, .inr rfl, by rw [hk], by rw [hk]⟩
  · rw [hk] at ha; cases ha

/-- With an item missing the collection is not done. -/
theorem Collected.not_done (h : Collected t i v) (hm : t.ItemMissing i) :
    v.eachFlushItem ≠ v.eachItemCount := by
  obtain ⟨item, hle, hlt⟩ := h.missing hm
  rw [h.itemCount]
  omega

/-- When all items are admitted, admitting changes nothing. -/
theorem Collected.admit_admitted (h : Collected t i v)
    (hadmitted : t.eachItemCount ≤ t.eachNextItem) {rounds : Nat} {enter : FlowIndex → Edge →
      Outcome → GroupExecution → Call RuntimeResult GroupExecution}
    (hadm : eachAdmit image enter rounds v = some (r, s')) : v = s' := by
  unfold eachAdmit at hadm
  split at hadm
  · exact (Prod.mk.inj (Option.some.inj hadm)).2
  · cases rounds with
    | zero => cases hadm
    | succ rounds =>
        unfold admitItems at hadm
        rw [if_pos (.inr (by rw [h.itemCount, h.nextItem]; exact hadmitted))] at hadm
        exact (Prod.mk.inj (Option.some.inj hadm)).2

end GroupExecution

end Hermas
