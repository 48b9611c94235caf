import Hermas.Image.Encode
import Hermas.Runtime.Each

/-!
# Runs of a bounded each region

The deliveries of a region are prepared, sent and answered in any order. What has
been invoked, sent and returned so far is read off the window: an item is past a
phase once it has been flushed, or its flow has got that far. When the last item
returns, each of the three logs lists every item once.
-/

namespace Hermas

open Image (Edge Node EachRegion)

namespace GroupExecution

/-- The region as HScript emits it: its items enter the template, and what the template's
action succeeds with is an item of the collection. -/
structure EachRegular (image : Image) (regionId : UInt8) (region : EachRegion) : Prop where
  found : Image.eachAt image.eachState regionId.toUInt16 = some region
  enters : ∀ edge ∈ image.tables.edges, edge.sourceKind = 8 →
    edge.sourceNode = regionId.toUInt16 → edge.targetKind = 1 ∧ edge.targetNode = region.template
  collects : ∀ edge ∈ image.tables.edges, edge.sourceKind = 1 →
    edge.sourceNode = region.template → edge.targetKind = 7 ∧
      edge.targetNode = regionId.toUInt16 ∧ edge.sourceType = region.itemOutput

variable {image : Image} {task : EachTask} {s t : GroupExecution} {i j : FlowIndex}

/-! ## The edges of a region -/

theorem exists_caseEdge {kind : UInt8} {node : UInt16}
    (hcount : Image.caseCount image.tables.edges kind node 0 = 1) :
    ∃ edge, image.groupFindEdge kind node 0 = some edge := by
  obtain ⟨edge, hmem, hedge⟩ := List.countP_pos_iff.mp (Nat.lt_of_lt_of_eq Nat.one_pos hcount.symm)
  simp only [Bool.and_eq_true, beq_iff_eq] at hedge
  obtain ⟨⟨hkind, hnode⟩, htag⟩ := hedge
  refine Option.isSome_iff_exists.mp (List.find?_isSome.mpr ⟨edge, hmem, ?_⟩)
  simp [hkind, hnode, htag]

theorem EachRegular.shape {regionId : UInt8} {region : EachRegion}
    (h : EachRegular image regionId region) :
    ∃ item back out, EachShape image regionId region item back out := by
  obtain ⟨classes, regions, hchecked⟩ := image.checked
  have hfound := h.found
  rw [hchecked.eachAt_eq] at hfound
  obtain ⟨-, -, hitem, hout⟩ := hchecked.each_counts hfound
  obtain ⟨item, hitem⟩ := exists_caseEdge hitem
  obtain ⟨out, hout⟩ := exists_caseEdge hout
  obtain ⟨back, hback⟩ := hchecked.exists_exit
    (beq_iff_eq.mp (hchecked.each_checked _ (Image.eachAt_mem hfound)).template) (.inl rfl)
  obtain ⟨hitemMem, hitemKind, hitemNode⟩ := Image.mem_of_groupFindEdge hitem
  obtain ⟨hbackMem, hbackKind, hbackNode⟩ := Image.mem_of_groupFindEdge hback
  obtain ⟨hkind, hnode, htype⟩ := h.collects back hbackMem hbackKind hbackNode
  exact ⟨item, back, out, h.found, hitem, h.enters item hitemMem hitemKind hitemNode, hback,
    ⟨hkind, hnode⟩, htype, hout⟩

section Shape

variable {item back out : Edge}

theorem EachShape.template (hshape : EachShape image task.regionId task.region item back out) :
    (image.node task.region.template).kind = 1 := by
  obtain ⟨classes, regions, hchecked⟩ := image.checked
  have hmem := hshape.mem
  rw [← hchecked.each_eq] at hmem
  have haction := hchecked.isAction_of_class (hchecked.each_checked _ hmem).template
  rwa [Image.isAction, beq_iff_eq] at haction

/-- The limits of a task are the loader's. -/
theorem EachShape.limits (hshape : EachShape image task.regionId task.region item back out)
    {stride : Nat} (hsource : task.source.length ≤ stride)
    (hcount : task.items.length ≤ task.region.bound.toNat) : EachLimits task stride := by
  obtain ⟨classes, regions, hchecked⟩ := image.checked
  have hmem := hshape.mem
  rw [← hchecked.each_eq] at hmem
  have heach := hchecked.each_checked _ hmem
  refine ⟨Nat.pos_of_ne_zero fun h0 => heach.concurrency_pos (UInt8.toNat_inj.mp h0),
    heach.concurrency_le, hcount, hsource⟩

/-! ## Entering a region -/

theorem enterEdge_template {bound : Nat} (hkind : item.targetKind = 1) :
    EntersTemplate (enterEdge image (bound + 1)) item := by
  intro slot s
  show arrive image (enterEdge image bound) bound slot item .none (s.aim slot item) = _
  unfold arrive
  rw [if_pos hkind]

theorem enterEdge_each {bound : Nat} {edge : Edge} {o : Outcome} (hkind : edge.targetKind = 6) :
    enterEdge image (bound + 1) i edge o s =
      eachStart image (enterEdge image bound) bound i edge.targetNode.toUInt8 (s.aim i edge) := by
  show arrive image (enterEdge image bound) bound i edge o (s.aim i edge) = _
  unfold arrive
  rw [if_neg (by rw [hkind]; decide), if_neg (by rw [hkind]; decide),
    if_neg (by rw [hkind]; decide), if_neg (by rw [hkind]; decide), if_pos hkind]

theorem enterEdge_collect {bound : Nat} {edge : Edge} {o : Outcome} (hkind : edge.targetKind = 7) :
    enterEdge image (bound + 1) i edge o s =
      eachCollect image (enterEdge image bound) bound i edge.targetNode.toUInt8 (s.aim i edge) := by
  show arrive image (enterEdge image bound) bound i edge o (s.aim i edge) = _
  unfold arrive
  rw [if_neg (by rw [hkind]; decide), if_neg (by rw [hkind]; decide),
    if_neg (by rw [hkind]; decide), if_neg (by rw [hkind]; decide),
    if_neg (by rw [hkind]; decide), if_pos hkind]

end Shape

/-! ## The start -/

section Start

variable {enter : FlowIndex → Edge → Outcome → GroupExecution → Call RuntimeResult GroupExecution}
variable {item back out : Edge}

/-- What a region starts from: the list splits into items within the bound, and no other flow
is active. -/
structure EachBegins (image : Image) (task : EachTask) (s : GroupExecution) : Prop where
  sized : Sized image s
  idle : s.activeEachRegion = 0
  alone : ∀ j, j ≠ task.coordinator → (s.flows j).active = false
  source : task.source = (s.flows task.coordinator).value
  items : image.listItems task.region.sourceList task.source maxEachItems = some task.items
  count : task.items.length ≤ task.region.bound.toNat

/-- The state in which the first items are admitted. -/
def begun (task : EachTask) (s : GroupExecution) : GroupExecution :=
  { s with
    eachSourceSnapshot := task.source
    eachItems := task.items
    activeEachRegion := task.regionId
    eachCoordinatorFlow := task.coordinator
    eachItemCount := task.items.length
    eachNextItem := 0
    eachCompletedItems := 0
    eachFlushItem := 0
    eachCollection := collectionHead task.items.length }.setFlow task.coordinator fun flow =>
      { flow with active := false, eachRegion := 0 }

theorem EachBegins.inactive (h : EachBegins image task s) (j : FlowIndex) :
    ((begun task s).flows j).active = false := by
  unfold begun
  by_cases hj : j = task.coordinator
  · subst hj
    rw [setFlow_flows_self]
  · rw [setFlow_flows_of_ne _ _ hj]
    exact h.alone j hj

/-- The window is empty at first. -/
theorem EachBegins.window (h : EachBegins image task s) : Window image task (begun task s) := by
  have hsame : Sized image { s with
      eachSourceSnapshot := task.source
      eachItems := task.items
      activeEachRegion := task.regionId
      eachCoordinatorFlow := task.coordinator
      eachItemCount := task.items.length
      eachNextItem := 0
      eachCompletedItems := 0
      eachFlushItem := 0
      eachCollection := collectionHead task.items.length } := h.sized.congr rfl rfl rfl
  refine ⟨hsame.mark rfl rfl, rfl, rfl, rfl, rfl, rfl, Nat.zero_le _, Nat.le_refl _, ?_,
    fun j hj => ?_, fun j j' hj => ?_, fun k hle hlt => ?_⟩
  · show collectionHead task.items.length = task.collection 0
    simp [EachTask.collection]
  · rw [h.inactive j] at hj
    cases hj
  · rw [h.inactive j] at hj
    cases hj
  · exact absurd hlt (Nat.not_lt_zero k)

theorem eachStart_eq (hshape : EachShape image task.regionId task.region item back out)
    (h : EachBegins image task s) {rounds : Nat} :
    eachStart image enter rounds task.coordinator task.regionId s =
      if task.items.length = 0 then eachFinish image enter (begun task s)
      else eachAdmit image enter rounds (begun task s) := by
  have hfits : ¬ Protocol.maxPayloadSize < task.source.length := by
    have h1 := h.sized.fits task.coordinator
    have h2 := h.sized.stride
    rw [h.source]
    omega
  unfold eachStart
  rw [hshape.eachRegion? h.sized]
  dsimp only
  rw [if_neg (by simp [h.idle]), ← h.source, if_neg hfits, h.items]
  dsimp only
  rw [if_neg (not_lt.mpr h.count)]
  rfl

/-- **A region fills the window when it starts**, or hands an empty list on at once. -/
theorem eachStart_window (hshape : EachShape image task.regionId task.region item back out)
    (henter : EntersTemplate enter item) (h : EachBegins image task s)
    (hreturned : Returned image task s.valueStride) {rounds : Nat} (hrounds : maxFlows < rounds) :
    (task.items = [] ∧ ∃ t, eachStart image enter rounds task.coordinator task.regionId s =
      enter task.coordinator out .success t ∧ EachOutput image task t) ∨
    (task.items ≠ [] ∧ ∃ t, eachStart image enter rounds task.coordinator task.regionId s =
      some (.ok, t) ∧ Filled image task t ∧ AdmittedTo (begun task s) t) := by
  have hwindow := h.window
  have hsource : task.source.length ≤ s.valueStride := h.source ▸ h.sized.fits _
  have hlimits := hshape.limits hsource h.count
  rw [eachStart_eq hshape h]
  by_cases hempty : task.items = []
  · have hzero : task.items.length = 0 := by rw [hempty, List.length_nil]
    rw [if_pos hzero]
    obtain ⟨t, hfinish, hout⟩ := eachFinish_window hshape h.count hwindow hreturned hzero.symm
    exact .inl ⟨hempty, t, hfinish, hout⟩
  · have hpos : task.items.length ≠ 0 := fun hzero => hempty (List.length_eq_zero_iff.mp hzero)
    rw [if_neg hpos]
    have hconcurrency := hlimits.concurrency_le
    have hnext : (begun task s).eachNextItem = 0 := rfl
    have hfirst : (begun task s).eachFlushItem = 0 := rfl
    obtain ⟨t, hadmit, ht, hadmitted, hfull⟩ := admitItems_window hshape henter
      hlimits.concurrency_le rounds hwindow hsource (by omega) (by omega)
    have hcall : eachAdmit image enter rounds (begun task s) = some (.ok, t) := by
      unfold eachAdmit
      rw [hwindow.region, hshape.eachRegion? hwindow.sized]
      exact hadmit
    have hflush := hadmitted.flush
    refine .inr ⟨hempty, t, hcall, ⟨ht, hfull, by omega, fun j hj hstate => ?_⟩, hadmitted⟩
    -- All items of the first window are ready.
    rw [(hadmitted.new j (h.inactive j) hj).1] at hstate
    cases hstate

end Start

/-! ## Results -/

/-- A frame that returns the value of the item on flow `j`. -/
structure Returns (image : Image) (task : EachTask) (s : GroupExecution) (j : FlowIndex)
    (result : Frame) : Prop where
  sent : s.Sent j
  answers : Execution.answers image result s.executionId (s.flows j).requestId
    (s.flows j).currentNode = true
  success : result.outcome = .success
  sourceType : result.sourceType = task.region.itemOutput
  payload : result.payload = task.values (s.flows j).itemIndex

section Result

variable {item back out : Edge}

/-- A flow whose delivery is out stands at the template. -/
theorem Window.template_of_sent (h : Window image task s) (hsent : s.Sent j) :
    (s.flows j).currentNode = task.region.template := by
  rcases (h.flow j hsent.1).phase with ⟨hwaiting, -⟩ | ⟨hnode, -⟩
  · rw [hsent.2] at hwaiting
    cases hwaiting
  · exact hnode

theorem acceptResult_collect (hshape : EachShape image task.regionId task.region item back out)
    (h : Window image task s) (hreturned : Returned image task s.valueStride) {result : Frame}
    (hresult : Returns image task s j result) {rounds : Nat} :
    acceptResult image (rounds + 1) s j result =
      eachCollect image (enterEdge image rounds) rounds j task.regionId (s.setFlow j fun flow =>
        { flow with
          value := task.values (s.flows j).itemIndex
          valueSourceType := back.sourceType
          valueDestinationType := back.targetType
          currentNode := back.targetNode }) := by
  have hflow := h.flow j hresult.sent.1
  have hitem : (s.flows j).itemIndex < task.items.length := hflow.admitted.trans_le h.next_le
  have hfits := (task.values_le hitem).trans hreturned.fits
  have hvalid := hreturned.valid _ hitem
  have hnode := h.template_of_sent hresult.sent
  have hactive : ¬ (¬ (s.flows j).active ∨ (s.flows j).state ≠ .sent) := by
    rw [not_or, not_not, not_not]
    exact hresult.sent
  have hkind : Execution.resultKind result.outcome = 1 := by
    rw [hresult.success]
    rfl
  unfold acceptResult
  dsimp only
  rw [if_neg hactive, if_neg (by rw [hresult.answers]; simp), hkind, hnode, hshape.backEdge]
  dsimp only
  rw [if_neg (by rw [hresult.sourceType, hshape.typed]; simp), if_neg (by
    rw [h.sized.capacity j, hresult.payload, hresult.sourceType, hvalid]
    simp only [not_or, not_lt, not_true_eq_false, not_false_eq_true, and_true]
    exact hfits)]
  have hregion : back.targetNode.toUInt8 = task.regionId := by
    rw [hshape.collects.2, UInt8.toUInt8_toUInt16]
  rw [enterEdge_collect hshape.collects.1, hregion, hresult.payload]
  simp only [aim, setFlow_setFlow]

/-- **A result is collected**: the window is filled up again, or the collected list is handed on. -/
theorem acceptResult_window (hshape : EachShape image task.regionId task.region item back out)
    (hlimits : EachLimits task s.valueStride) (h : Filled image task s)
    (hreturned : Returned image task s.valueStride) {result : Frame}
    (hresult : Returns image task s j result) {rounds : Nat} (hrounds : maxFlows < rounds) :
    (∃ t, acceptResult image (rounds + 1) s j result = some (.ok, t) ∧
      Filled image task t ∧ CollectedTo s j t) ∨
    (LastBack task s j ∧ ∃ t, acceptResult image (rounds + 1) s j result =
      enterEdge image rounds task.coordinator out .success t ∧ EachOutput image task t) := by
  rw [acceptResult_collect hshape h.toWindow hreturned hresult]
  obtain ⟨inner, rfl⟩ := Nat.exists_eq_succ_of_ne_zero (Nat.ne_of_gt (Nat.zero_lt_of_lt hrounds))
  exact eachCollect_window hshape (enterEdge_template hshape.enters.1) hlimits h hresult.sent.1
    hreturned hrounds

end Result

/-! ## Deliveries -/

/-- The delivery of an item. -/
def EachTask.invoke (image : Image) (task : EachTask) (s : GroupExecution) (j : FlowIndex) :
    Frame where
  kind := .invoke
  executionId := s.executionId
  requestId := s.nextRequestId
  appId := (image.node task.region.template).app
  actionId := (image.node task.region.template).action
  sourceType := (s.flows j).valueSourceType
  destinationType := (s.flows j).valueDestinationType
  payload := task.item (s.flows j).itemIndex

/-- A flow that is ready has its item in front of the template. -/
theorem Window.ready (h : Window image task s) (ha : (s.flows j).active = true)
    (hready : (s.flows j).state = .ready) :
    (s.flows j).currentNode = task.region.template ∧
      (s.flows j).value = task.item (s.flows j).itemIndex := by
  rcases (h.flow j ha).phase with ⟨hwaiting, -⟩ | ⟨hnode, ⟨-, hvalue⟩ | hprepared | hsent⟩
  · rw [hready] at hwaiting
    cases hwaiting
  · exact ⟨hnode, hvalue⟩
  · rw [hready] at hprepared
    cases hprepared
  · rw [hready] at hsent
    cases hsent

/-- Deliveries of one region do not stand in each other's way. -/
theorem Window.conflicts (h : Window image task s) (hne : task.regionId ≠ 0)
    (htemplate : (image.node task.region.template).kind = 1) (ha : (s.flows j).active = true)
    (hready : (s.flows j).state = .ready) : firstIndex (s.conflicts image j) = none := by
  refine firstIndex_none.mpr fun k => ?_
  by_cases hk : (s.flows k).active = true ∧
      ((s.flows k).state = .prepared ∨ (s.flows k).state = .sent)
  · have hflow := h.flow k hk.1
    have hnode : (s.flows k).currentNode = task.region.template := by
      rcases hflow.phase with ⟨hwaiting, -⟩ | ⟨hnode, -⟩
      · rw [hwaiting] at hk
        simp at hk
      · exact hnode
    simp [GroupExecution.conflicts, hnode, htemplate, (h.ready ha hready).1, hflow.region,
      (h.flow j ha).region, hne]
  · simp only [GroupExecution.conflicts]
    rw [Bool.and_eq_false_iff]
    refine .inl ?_
    simp only [Bool.and_eq_false_iff, Bool.or_eq_false_iff, beq_eq_false_iff_ne]
    by_cases hactive : (s.flows k).active = true
    · rw [not_and, not_or] at hk
      exact .inr (hk hactive)
    · exact .inl (.inr (by simpa using hactive))

theorem Window.prepare (h : Window image task s) (hne : task.regionId ≠ 0)
    (htemplate : (image.node task.region.template).kind = 1) (ha : (s.flows j).active = true)
    (hready : (s.flows j).state = .ready) (hopen : s.complete = false)
    (hid : s.nextRequestId ≠ 0) :
    s.prepare image j = .ok (task.invoke image s j,
      { s with nextRequestId := s.nextRequestId + 1 }.setFlow j fun flow =>
        { flow with requestId := s.nextRequestId, state := .prepared }) := by
  obtain ⟨hnode, hvalue⟩ := h.ready ha hready
  unfold GroupExecution.prepare
  dsimp only
  rw [if_neg (by simp [hopen, ha, hready]), if_neg hid, if_neg (by simp [hnode, htemplate]),
    h.conflicts hne htemplate ha hready]
  simp only [EachTask.invoke, hnode, hvalue]

/-- The next phase of a flow leaves the window filled. -/
theorem Filled.move (h : Filled image task s) (ha : (s.flows j).active = true) {f : Flow → Flow}
    (hactive : (f (s.flows j)).active = true)
    (hregion : (f (s.flows j)).eachRegion = (s.flows j).eachRegion)
    (hitem : (f (s.flows j)).itemIndex = (s.flows j).itemIndex)
    (hcapacity : (f (s.flows j)).valueCapacity = (s.flows j).valueCapacity)
    (hvalue : (f (s.flows j)).value = (s.flows j).value)
    (hnode : (f (s.flows j)).currentNode = (s.flows j).currentNode)
    (hbefore : (s.flows j).state ≠ .waiting)
    (hstate : (f (s.flows j)).state = .prepared ∨ (f (s.flows j)).state = .sent) :
    Filled image task (s.setFlow j f) := by
  have hflow := h.flow j ha
  have hphase : ItemFlow task s (f (s.flows j)) := by
    refine ⟨hregion.trans hflow.region, hitem ▸ hflow.flushed, hitem ▸ hflow.admitted, .inr ?_⟩
    rcases hflow.phase with ⟨hwaiting, -⟩ | ⟨htemplate, -⟩
    · exact absurd hwaiting hbefore
    · exact ⟨hnode.trans htemplate, .inr hstate⟩
  refine ⟨h.toWindow.move ha hactive hregion hitem hcapacity (hvalue ▸ h.sized.fits j) hphase,
    h.full, h.open_, fun k hk hwaiting => ?_⟩
  by_cases hkj : k = j
  · subst hkj
    rw [setFlow_flows_self] at hwaiting
    rcases hstate with hstate | hstate
    · rw [hstate] at hwaiting
      cases hwaiting
    · rw [hstate] at hwaiting
      cases hwaiting
  · rw [setFlow_flows_of_ne _ _ hkj] at hk hwaiting ⊢
    exact h.front k hk hwaiting

/-! ## What is behind an item -/

/-- The item has got as far as a phase: it was flushed, or its flow is in such a phase. -/
def Past (P : ExecutionState → Prop) (s : GroupExecution) (k : Nat) : Prop :=
  k < s.eachFlushItem ∨
    ∃ j, (s.flows j).active = true ∧ (s.flows j).itemIndex = k ∧ P (s.flows j).state

variable {P : ExecutionState → Prop}

theorem Window.past_self (h : Window image task s) (ha : (s.flows j).active = true) :
    Past P s (s.flows j).itemIndex ↔ P (s.flows j).state := by
  constructor
  · rintro (hflushed | ⟨l, hl, hitem, hp⟩)
    · have := (h.flow j ha).flushed
      omega
    · rw [← h.distinct l j hl ha hitem]
      exact hp
  · exact fun hp => .inr ⟨j, ha, rfl, hp⟩

/-- Items behind a phase are items of the list. -/
theorem Window.past_lt (h : Window image task s) {k : Nat} (hp : Past P s k) :
    k < task.items.length := by
  have hnext := h.next_le
  have hflush := h.flush_le
  rcases hp with hflushed | ⟨l, hl, rfl, -⟩
  · omega
  · have := (h.flow l hl).admitted
    omega

/-- Only the item that moves gets anywhere. -/
theorem Window.past_setFlow (h : Window image task s) (ha : (s.flows j).active = true)
    {f : Flow → Flow} (hactive : (f (s.flows j)).active = true)
    (hitem : (f (s.flows j)).itemIndex = (s.flows j).itemIndex) {k : Nat} :
    Past P (s.setFlow j f) k ↔
      (k = (s.flows j).itemIndex ∧ P (f (s.flows j)).state) ∨
        (k ≠ (s.flows j).itemIndex ∧ Past P s k) := by
  have hflushed := (h.flow j ha).flushed
  constructor
  · rintro (hlt | ⟨l, hl, hk, hp⟩)
    · change k < s.eachFlushItem at hlt
      exact .inr ⟨by omega, .inl hlt⟩
    · by_cases hlj : l = j
      · subst hlj
        rw [setFlow_flows_self] at hk hp
        exact .inl ⟨by rw [← hk, hitem], hp⟩
      · rw [setFlow_flows_of_ne _ _ hlj] at hl hk hp
        refine .inr ⟨fun hsame => hlj (h.distinct l j hl ha (hk.trans hsame)), .inr ⟨l, hl, hk, hp⟩⟩
  · rintro (⟨hk, hp⟩ | ⟨hne, hlt | ⟨l, hl, hk, hp⟩⟩)
    · refine .inr ⟨j, ?_, ?_, ?_⟩
      · rw [setFlow_flows_self]
        exact hactive
      · rw [setFlow_flows_self, hitem, hk]
      · rw [setFlow_flows_self]
        exact hp
    · exact .inl hlt
    · have hlj : l ≠ j := by
        rintro rfl
        exact hne hk.symm
      refine .inr ⟨l, ?_⟩
      rw [setFlow_flows_of_ne _ _ hlj]
      exact ⟨hl, hk, hp⟩

/-- Of the items behind a phase that waiting is part of, collecting adds the one collected. -/
theorem past_collected (h : Filled image task s) (ht : Filled image task t)
    (hc : CollectedTo s j t) (ha : (s.flows j).active = true) (hwaiting : P .waiting)
    (hready : ¬ P .ready) {k : Nat} :
    Past P t k ↔ Past P s k ∨ k = (s.flows j).itemIndex := by
  have hle := hc.le
  constructor
  · rintro (hlt | ⟨l, hl, rfl, hp⟩)
    · by_cases hfirst : k < s.eachFlushItem
      · exact .inl (.inl hfirst)
      · obtain ⟨l, hl, hk, hcame⟩ := hc.taken k (Nat.le_of_not_lt hfirst) hlt
        rcases hcame with rfl | hstate
        · exact .inr hk.symm
        · exact .inl (.inr ⟨l, hl, hk, hstate ▸ hwaiting⟩)
    · rcases hc.flows l hl with ⟨hls, hitem, ⟨-, hkept⟩ | ⟨rfl, -⟩⟩ | ⟨hstate, -⟩
      · rw [hkept] at hp ⊢
        exact .inl (.inr ⟨l, hls, rfl, hp⟩)
      · exact .inr hitem
      · exact absurd (hstate ▸ hp) hready
  · intro hk
    -- An item of the old window is flushed now, or on the flow it was on.
    have hstill : ∀ l, (s.flows l).active = true → (l = j ∨ P (s.flows l).state) →
        Past P t (s.flows l).itemIndex := by
      intro l hl hp
      by_cases hlt : (s.flows l).itemIndex < t.eachFlushItem
      · exact .inl hlt
      · have hadmitted := (h.flow l hl).admitted
        have hfull := h.full
        have hfull' := ht.full
        obtain ⟨l', hl', hk'⟩ := ht.covered (s.flows l).itemIndex (Nat.le_of_not_lt hlt) (by omega)
        rcases hc.flows l' hl' with ⟨hls, hitem, hcase⟩ | ⟨-, hbehind⟩
        · have hsame : l' = l := h.distinct l' l hls hl (hitem.symm.trans hk')
          subst hsame
          refine .inr ⟨l', hl', hk', ?_⟩
          rcases hcase with ⟨hne, hkept⟩ | ⟨-, hstate⟩
          · rw [hkept]
            exact hp.resolve_left hne
          · exact hstate ▸ hwaiting
        · omega
    rcases hk with (hlt | ⟨l, hl, rfl, hp⟩) | rfl
    · exact .inl (by omega)
    · exact hstill l hl (.inr hp)
    · exact hstill j ha (.inl rfl)

/-- A log lists the items behind a phase, each once. -/
structure Lists (P : ExecutionState → Prop) (log : List Nat) (s : GroupExecution) : Prop where
  nodup : log.Nodup
  mem : ∀ k, k ∈ log ↔ Past P s k

variable {log : List Nat}

/-- A move within a phase. -/
theorem Lists.stay (hl : Lists P log s) (h : Window image task s)
    (ha : (s.flows j).active = true) {f : Flow → Flow}
    (hactive : (f (s.flows j)).active = true)
    (hitem : (f (s.flows j)).itemIndex = (s.flows j).itemIndex)
    (hsame : P (f (s.flows j)).state ↔ P (s.flows j).state) : Lists P log (s.setFlow j f) := by
  refine ⟨hl.nodup, fun k => ?_⟩
  rw [hl.mem, h.past_setFlow ha hactive hitem]
  by_cases hk : k = (s.flows j).itemIndex
  · subst hk
    rw [h.past_self ha, hsame]
    simp
  · simp [hk]

/-- A move into the phase. -/
theorem Lists.join (hl : Lists P log s) (h : Window image task s)
    (ha : (s.flows j).active = true) {f : Flow → Flow}
    (hactive : (f (s.flows j)).active = true)
    (hitem : (f (s.flows j)).itemIndex = (s.flows j).itemIndex)
    (hbefore : ¬ P (s.flows j).state) (hafter : P (f (s.flows j)).state) :
    Lists P (log ++ [(s.flows j).itemIndex]) (s.setFlow j f) := by
  have hnew : (s.flows j).itemIndex ∉ log := by
    rw [hl.mem, h.past_self ha]
    exact hbefore
  refine ⟨List.nodup_append.mpr ⟨hl.nodup, List.nodup_singleton _, fun a hin b hb => ?_⟩,
    fun k => ?_⟩
  · rw [List.mem_singleton.mp hb]
    rintro rfl
    exact hnew hin
  · rw [List.mem_append, List.mem_singleton, hl.mem, h.past_setFlow ha hactive hitem]
    by_cases hk : k = (s.flows j).itemIndex
    · simp [hk, hafter]
    · simp [hk]

/-- The item collected had been listed before. -/
theorem Lists.collect (hl : Lists P log s) (h : Filled image task s) (ht : Filled image task t)
    (hc : CollectedTo s j t) (ha : (s.flows j).active = true) (hwaiting : P .waiting)
    (hready : ¬ P .ready) (hbefore : P (s.flows j).state) : Lists P log t := by
  refine ⟨hl.nodup, fun k => ?_⟩
  rw [hl.mem, past_collected h ht hc ha hwaiting hready, or_iff_left_of_imp]
  rintro rfl
  exact (h.toWindow.past_self ha).mpr hbefore

/-- The item collected is listed now. -/
theorem Lists.collect_new (hl : Lists P log s) (h : Filled image task s)
    (ht : Filled image task t) (hc : CollectedTo s j t) (ha : (s.flows j).active = true)
    (hwaiting : P .waiting) (hready : ¬ P .ready) (hbefore : ¬ P (s.flows j).state) :
    Lists P (log ++ [(s.flows j).itemIndex]) t := by
  have hnew : (s.flows j).itemIndex ∉ log := by
    rw [hl.mem, h.toWindow.past_self ha]
    exact hbefore
  refine ⟨List.nodup_append.mpr ⟨hl.nodup, List.nodup_singleton _, fun a hin b hb => ?_⟩,
    fun k => ?_⟩
  · rw [List.mem_singleton.mp hb]
    rintro rfl
    exact hnew hin
  · rw [List.mem_append, List.mem_singleton, hl.mem, past_collected h ht hc ha hwaiting hready]

theorem Lists.length_le (hl : Lists P log s) (h : Window image task s) :
    log.length ≤ task.items.length := by
  have hsub : log ⊆ List.range task.items.length := fun k hk =>
    List.mem_range.mpr (h.past_lt ((hl.mem k).mp hk))
  have := (hl.nodup.subperm hsub).length_le
  rwa [List.length_range] at this

/-- A log with all items lists them as they come. -/
theorem Lists.perm (hl : Lists P log s) (h : Window image task s)
    (hall : ∀ k, k < task.items.length → Past P s k) :
    log.Perm (List.range task.items.length) := by
  refine (List.perm_ext_iff_of_nodup hl.nodup List.nodup_range).mpr fun k => ?_
  rw [hl.mem, List.mem_range]
  exact ⟨h.past_lt, hall k⟩

/-! ## Runs -/

/-- A region under way, with what has been invoked, sent and returned so far. -/
structure ItemRun where
  state : GroupExecution
  invoked : List (Nat × Frame) := []
  sent : List Nat := []
  returned : List Nat := []

/-- A delivery of an item gets on. -/
inductive ItemOp where
  | prepare (j : FlowIndex)
  | markSent (j : FlowIndex)
  | succeed (j : FlowIndex) (result : Frame)

/-- The calls on the deliveries of a region, all results but the last. -/
def ItemStep (image : Image) (task : EachTask) (r : ItemRun) (op : ItemOp) (r' : ItemRun) : Prop :=
  match op with
  | .prepare j => ∃ frame t, r.state.prepare image j = .ok (frame, t) ∧
      r' = { r with
        state := t
        invoked := r.invoked ++ [((r.state.flows j).itemIndex, frame)] }
  | .markSent j => ∃ t, r.state.markSent j = .ok t ∧
      r' = { r with state := t, sent := r.sent ++ [(r.state.flows j).itemIndex] }
  | .succeed j result => Returns image task r.state j result ∧
      r.returned.length + 1 < task.items.length ∧ ∃ bound status t, maxFlows + 1 < bound ∧
        acceptResult image bound r.state j result = some (status, t) ∧
        r' = { r with state := t, returned := r.returned ++ [(r.state.flows j).itemIndex] }

/-- The runs of a region from the state it starts in. -/
def itemSystem (image : Image) (task : EachTask) (started : GroupExecution) :
    System ItemRun ItemOp where
  Init := fun r => r = { state := started }
  Step := ItemStep image task

/-- The phases behind the first, the second and the last call on a delivery. -/
def WasInvoked (state : ExecutionState) : Prop :=
  state = .prepared ∨ state = .sent ∨ state = .waiting

def WasSent (state : ExecutionState) : Prop := state = .sent ∨ state = .waiting

def HasReturned (state : ExecutionState) : Prop := state = .waiting

/-- The frame carries an item to the action of the template. -/
structure Carries (image : Image) (task : EachTask) (executionId : UInt64) (k : Nat)
    (frame : Frame) : Prop where
  kind : frame.kind = .invoke
  executionId : frame.executionId = executionId
  action : frame.appId = (image.node task.region.template).app ∧
    frame.actionId = (image.node task.region.template).action
  payload : frame.payload = task.item k

/-- The logs of a run list what is behind the phases. -/
structure Logged (image : Image) (task : EachTask) (s : GroupExecution) (r : ItemRun) : Prop where
  filled : Filled image task r.state
  executionId : r.state.executionId = s.executionId
  complete : r.state.complete = s.complete
  stride : r.state.valueStride = s.valueStride
  invoked : Lists WasInvoked (r.invoked.map Prod.fst) r.state
  sent : Lists WasSent r.sent r.state
  returned : Lists HasReturned r.returned r.state
  carried : ∀ e ∈ r.invoked, Carries image task s.executionId e.1 e.2

theorem logged_init (h : EachBegins image task s) (ht : Filled image task t)
    (hadmitted : AdmittedTo (begun task s) t) : Logged image task s { state := t } := by
  -- Nothing is flushed and every flow is ready.
  have hnothing : ∀ {P : ExecutionState → Prop}, ¬ P .ready → Lists P [] t := by
    intro P hready
    refine ⟨List.nodup_nil, fun k => ⟨fun hk => absurd hk List.not_mem_nil, ?_⟩⟩
    rintro (hlt | ⟨l, hl, -, hp⟩)
    · rw [hadmitted.flush] at hlt
      exact absurd hlt (Nat.not_lt_zero k)
    · rw [(hadmitted.new l (h.inactive l) hl).1] at hp
      exact absurd hp hready
  exact ⟨ht, hadmitted.executionId, hadmitted.complete, hadmitted.stride,
    hnothing (by simp [WasInvoked]), hnothing (by simp [WasSent]), hnothing (by simp [HasReturned]),
    fun e he => absurd he List.not_mem_nil⟩

section Step

variable {item back out : Edge} {r r' : ItemRun}

theorem Logged.prepare (hshape : EachShape image task.regionId task.region item back out)
    (h : Logged image task s r) {frame : Frame} (hp : r.state.prepare image j = .ok (frame, t)) :
    Logged image task s { r with
      state := t
      invoked := r.invoked ++ [((r.state.flows j).itemIndex, frame)] } := by
  obtain ⟨hopen, ha, hready, -, rfl⟩ := prepare_ok hp
  have hne : task.regionId ≠ 0 := eachRegion_active (hshape.eachRegion? h.filled.sized)
  have hid : r.state.nextRequestId ≠ 0 := by
    intro hzero
    unfold GroupExecution.prepare at hp
    dsimp only at hp
    rw [if_neg (by simp [hopen, ha, hready]), if_pos hzero] at hp
    cases hp
  rw [h.filled.toWindow.prepare hne hshape.template ha hready hopen hid] at hp
  obtain ⟨rfl, -⟩ := Prod.mk.inj (Except.ok.inj hp)
  -- The count of request ids is no part of the window.
  let u : GroupExecution := { r.state with nextRequestId := r.state.nextRequestId + 1 }
  have hu : Filled image task u :=
    ⟨h.filled.toWindow.congr _ r.state.eachCompletedItems, h.filled.full, h.filled.open_,
      h.filled.front⟩
  have hmoved : ∀ {P : ExecutionState → Prop} {log : List Nat}, Lists P log r.state →
      Lists P log u := fun hl => ⟨hl.nodup, hl.mem⟩
  have hstate : (u.flows j).state = .ready := hready
  let f : Flow → Flow := fun flow =>
    { flow with requestId := r.state.nextRequestId, state := .prepared }
  have hfilled : Filled image task (u.setFlow j f) :=
    hu.move ha ha rfl rfl rfl rfl rfl (by rw [hstate]; decide) (.inl rfl)
  have hinvoked : Lists WasInvoked ((r.invoked ++ [((r.state.flows j).itemIndex,
      task.invoke image r.state j)]).map Prod.fst) (u.setFlow j f) := by
    rw [List.map_append]
    exact (hmoved h.invoked).join hu.toWindow ha ha rfl (by rw [hstate]; simp [WasInvoked])
      (.inl rfl)
  have hsent : Lists WasSent r.sent (u.setFlow j f) := by
    refine (hmoved h.sent).stay hu.toWindow ha ha rfl ?_
    rw [hstate]
    simp [WasSent, f]
  have hback : Lists HasReturned r.returned (u.setFlow j f) := by
    refine (hmoved h.returned).stay hu.toWindow ha ha rfl ?_
    rw [hstate]
    simp [HasReturned, f]
  refine ⟨hfilled, h.executionId, h.complete, h.stride, hinvoked, hsent, hback, fun e he => ?_⟩
  rcases List.mem_append.mp he with he | he
  · exact h.carried e he
  · rw [List.mem_singleton.mp he]
    exact ⟨rfl, h.executionId, ⟨rfl, rfl⟩, rfl⟩

theorem Logged.markSent (h : Logged image task s r) (hm : r.state.markSent j = .ok t) :
    Logged image task s { r with
      state := t
      sent := r.sent ++ [(r.state.flows j).itemIndex] } := by
  obtain ⟨ha, hprepared, rfl⟩ := markSent_ok hm
  have hw := h.filled.toWindow
  let f : Flow → Flow := fun flow => { flow with state := .sent }
  have hfilled : Filled image task (r.state.setFlow j f) :=
    h.filled.move ha ha rfl rfl rfl rfl rfl (by rw [hprepared]; decide) (.inr rfl)
  have hinvoked : Lists WasInvoked (r.invoked.map Prod.fst) (r.state.setFlow j f) := by
    refine h.invoked.stay hw ha ha rfl ?_
    rw [hprepared]
    simp [WasInvoked, f]
  have hsent : Lists WasSent (r.sent ++ [(r.state.flows j).itemIndex]) (r.state.setFlow j f) :=
    h.sent.join hw ha ha rfl (by rw [hprepared]; simp [WasSent]) (.inl rfl)
  have hback : Lists HasReturned r.returned (r.state.setFlow j f) := by
    refine h.returned.stay hw ha ha rfl ?_
    rw [hprepared]
    simp [HasReturned, f]
  exact ⟨hfilled, h.executionId, h.complete, h.stride, hinvoked, hsent, hback, h.carried⟩

/-- All items but the last to come back have returned. -/
theorem Logged.lastBack (h : Logged image task s r) (hsent : r.state.Sent j)
    (hlast : LastBack task r.state j) :
    (r.returned ++ [(r.state.flows j).itemIndex]).Perm (List.range task.items.length) := by
  have hw := h.filled.toWindow
  have hitem : (r.state.flows j).itemIndex < task.items.length :=
    (hw.flow j hsent.1).admitted.trans_le hw.next_le
  have hnew : (r.state.flows j).itemIndex ∉ r.returned := by
    rw [h.returned.mem, hw.past_self hsent.1, hsent.2]
    simp [HasReturned]
  have hnodup : (r.returned ++ [(r.state.flows j).itemIndex]).Nodup := by
    refine List.nodup_append.mpr ⟨h.returned.nodup, List.nodup_singleton _, fun a hin b hb => ?_⟩
    rw [List.mem_singleton.mp hb]
    rintro rfl
    exact hnew hin
  refine (List.perm_ext_iff_of_nodup hnodup List.nodup_range).mpr fun k => ?_
  rw [List.mem_append, List.mem_singleton, List.mem_range, h.returned.mem]
  constructor
  · rintro (hp | rfl)
    · exact hw.past_lt hp
    · exact hitem
  · intro hk
    by_cases hflushed : k < r.state.eachFlushItem
    · exact .inl (.inl hflushed)
    · obtain ⟨l, hl, hlk⟩ := hw.covered k (Nat.le_of_not_lt hflushed) (by
        rw [hlast.admitted]
        exact hk)
      by_cases hlj : l = j
      · exact .inr (by rw [← hlk, hlj])
      · exact .inl (.inr ⟨l, hl, hlk, hlast.others l hl hlj⟩)

/-- The item at the front of a filled window has not returned. -/
theorem Logged.front (h : Logged image task s r) : r.returned.length < task.items.length := by
  have hw := h.filled.toWindow
  have hfront : r.state.eachFlushItem ∉ r.returned := by
    rw [h.returned.mem]
    rintro (hlt | ⟨l, hl, hitem, hwaiting⟩)
    · omega
    · exact h.filled.front l hl hwaiting hitem
  have hmissing : (r.state.eachFlushItem :: r.returned).Nodup :=
    List.nodup_cons.mpr ⟨hfront, h.returned.nodup⟩
  have hsub : r.state.eachFlushItem :: r.returned ⊆ List.range task.items.length := by
    intro k hk
    rw [List.mem_range]
    rcases List.mem_cons.mp hk with rfl | hk
    · exact h.filled.open_
    · exact hw.past_lt ((h.returned.mem k).mp hk)
  have := (hmissing.subperm hsub).length_le
  rw [List.length_cons, List.length_range] at this
  omega

theorem Logged.collect (h : Logged image task s r) (hsent : r.state.Sent j)
    (ht : Filled image task t) (hc : CollectedTo r.state j t) :
    Logged image task s { r with
      state := t
      returned := r.returned ++ [(r.state.flows j).itemIndex] } := by
  refine ⟨ht, hc.executionId.trans h.executionId, hc.complete.trans h.complete,
    hc.stride.trans h.stride, ?_, ?_, ?_, h.carried⟩
  · exact h.invoked.collect h.filled ht hc hsent.1 (.inr (.inr rfl)) (by simp [WasInvoked])
      (.inr (.inl hsent.2))
  · exact h.sent.collect h.filled ht hc hsent.1 (.inr rfl) (by simp [WasSent]) (.inl hsent.2)
  · exact h.returned.collect_new h.filled ht hc hsent.1 rfl (by simp [HasReturned])
      (by rw [hsent.2]; simp [HasReturned])

/-- A result before the last one is collected, and only that one ends the region. -/
theorem Logged.acceptResult (hshape : EachShape image task.regionId task.region item back out)
    (hcount : task.items.length ≤ task.region.bound.toNat)
    (hsource : task.source.length ≤ s.valueStride) (hreturned : Returned image task s.valueStride)
    (h : Logged image task s r) {result : Frame} (hresult : Returns image task r.state j result)
    {rounds : Nat} (hrounds : maxFlows < rounds) :
    (r.returned.length + 1 < task.items.length ∧
      ∃ t, GroupExecution.acceptResult image (rounds + 1) r.state j result = some (.ok, t) ∧
        Logged image task s { r with
          state := t
          returned := r.returned ++ [(r.state.flows j).itemIndex] }) ∨
    (r.returned.length + 1 = task.items.length ∧ LastBack task r.state j ∧
      ∃ t, GroupExecution.acceptResult image (rounds + 1) r.state j result =
        enterEdge image rounds task.coordinator out .success t ∧ EachOutput image task t) := by
  have hlimits := hshape.limits hsource hcount
  rw [← h.stride] at hlimits hreturned
  rcases acceptResult_window hshape hlimits h.filled hreturned hresult hrounds with
    ⟨t, hcall, ht, hc⟩ | ⟨hlast, t, hcall, hout⟩
  · have hnext := h.collect hresult.sent ht hc
    have hmore := hnext.front
    rw [List.length_append, List.length_singleton] at hmore
    exact .inl ⟨hmore, t, hcall, hnext⟩
  · have hlen := (h.lastBack hresult.sent hlast).length_eq
    rw [List.length_append, List.length_singleton, List.length_range] at hlen
    exact .inr ⟨hlen, hlast, t, hcall, hout⟩

theorem Logged.step (hshape : EachShape image task.regionId task.region item back out)
    (hcount : task.items.length ≤ task.region.bound.toNat)
    (hsource : task.source.length ≤ s.valueStride) (hreturned : Returned image task s.valueStride)
    (h : Logged image task s r) {op : ItemOp} (hstep : ItemStep image task r op r') :
    Logged image task s r' := by
  cases op with
  | prepare j =>
      obtain ⟨frame, t, hp, rfl⟩ := hstep
      exact h.prepare hshape hp
  | markSent j =>
      obtain ⟨t, hm, rfl⟩ := hstep
      exact h.markSent hm
  | succeed j result =>
      obtain ⟨hresult, hmore, bound, status, t, hbound, hcall, rfl⟩ := hstep
      obtain ⟨rounds, rfl⟩ := Nat.exists_eq_succ_of_ne_zero (Nat.ne_of_gt (Nat.zero_lt_of_lt hbound))
      rcases h.acceptResult hshape hcount hsource hreturned hresult
        (Nat.lt_of_succ_lt_succ hbound) with ⟨-, t', hcall', hnext⟩ | ⟨hlast, -⟩
      · rw [Nat.succ_eq_add_one, hcall'] at hcall
        obtain ⟨-, rfl⟩ := Prod.mk.inj (Option.some.inj hcall)
        exact hnext
      · omega

end Step

/-! ## The guarantee -/

/-- The deliveries that are prepared or sent. -/
def inFlight (s : GroupExecution) : Nat :=
  (List.finRange maxFlows).countP fun i =>
    (s.flows i).active && ((s.flows i).state == .prepared || (s.flows i).state == .sent)

/-- In flight are items of the window only. -/
theorem Filled.inFlight_le (h : Filled image task s) :
    s.inFlight ≤ task.region.concurrency.toNat := by
  have hwidth := h.toWindow.activeInRegion
  have hfull := h.full
  have hle : s.inFlight ≤ s.activeInRegion task.regionId := by
    unfold inFlight GroupExecution.activeInRegion
    refine List.countP_mono_left fun j _ hj => ?_
    rw [Bool.and_eq_true] at hj
    rw [Bool.and_eq_true, beq_iff_eq]
    exact ⟨hj.1, (h.flow j hj.1).region⟩
  omega

/-- The front item of a filled window is on its way. -/
theorem Filled.pending (h : Filled image task s) (hpos : 0 < task.region.concurrency.toNat) :
    ∃ j, (s.flows j).active = true ∧
      ((s.flows j).state = .ready ∨ (s.flows j).state = .prepared ∨ (s.flows j).state = .sent) := by
  have hopen := h.open_
  have hfull := h.full
  obtain ⟨j, ha, hitem⟩ := h.covered s.eachFlushItem (Nat.le_refl _) (by omega)
  refine ⟨j, ha, ?_⟩
  rcases (h.flow j ha).phase with ⟨hwaiting, -⟩ | ⟨-, ⟨hready, -⟩ | hprepared | hsent⟩
  · exact absurd hitem (h.front j ha hwaiting)
  · exact .inl hready
  · exact .inr (.inl hprepared)
  · exact .inr (.inr hsent)

/-- What holds of a region under way that started from `s`. -/
structure EachGuarantee (image : Image) (task : EachTask) (out : Edge) (s : GroupExecution)
    (r : ItemRun) : Prop where
  /-- No item is delivered twice. -/
  once : (r.invoked.map Prod.fst).Nodup ∧ r.sent.Nodup ∧ r.returned.Nodup
  /-- What is delivered for an item is that item. -/
  carried : ∀ e ∈ r.invoked, e.1 < task.items.length ∧ Carries image task s.executionId e.1 e.2
  inFlight : r.state.inFlight ≤ task.region.concurrency.toNat
  /-- There is always a delivery to go on with. -/
  pending : ∃ j, (r.state.flows j).active = true ∧ ((r.state.flows j).state = .ready ∨
    (r.state.flows j).state = .prepared ∨ (r.state.flows j).state = .sent)
  /-- A ready item can be prepared, unless the execution is over or out of request ids. -/
  prepares : ∀ j, (r.state.flows j).active = true → (r.state.flows j).state = .ready →
    s.complete = false → r.state.nextRequestId ≠ 0 →
    ∃ frame t, r.state.prepare image j = .ok (frame, t)
  /-- Every result before the last one is collected. -/
  collects : ∀ j result bound, maxFlows + 1 < bound → Returns image task r.state j result →
    r.returned.length + 1 < task.items.length →
    ∃ t, acceptResult image bound r.state j result = some (.ok, t)
  /-- With the last result every item has been delivered, and the collected list is handed on. -/
  finishes : ∀ j result bound, maxFlows < bound → Returns image task r.state j result →
    ¬ r.returned.length + 1 < task.items.length →
    (r.invoked.map Prod.fst).Perm (List.range task.items.length) ∧
      r.sent.Perm (List.range task.items.length) ∧
      (r.returned ++ [(r.state.flows j).itemIndex]).Perm (List.range task.items.length) ∧
      ∃ t, acceptResult image (bound + 1) r.state j result =
        enterEdge image bound task.coordinator out .success t ∧ EachOutput image task t

theorem Logged.guarantee {item back out : Edge} {r : ItemRun}
    (hshape : EachShape image task.regionId task.region item back out)
    (hcount : task.items.length ≤ task.region.bound.toNat)
    (hsource : task.source.length ≤ s.valueStride) (hreturned : Returned image task s.valueStride)
    (h : Logged image task s r) : EachGuarantee image task out s r where
  once := ⟨h.invoked.nodup, h.sent.nodup, h.returned.nodup⟩
  carried e he := ⟨h.filled.toWindow.past_lt
    ((h.invoked.mem e.1).mp (List.mem_map_of_mem he)), h.carried e he⟩
  inFlight := h.filled.inFlight_le
  pending := h.filled.pending (hshape.limits hsource hcount).concurrency_pos
  prepares j ha hready hopen hid := by
    have hne : task.regionId ≠ 0 := eachRegion_active (hshape.eachRegion? h.filled.sized)
    exact ⟨_, _, h.filled.toWindow.prepare hne hshape.template ha hready
      (h.complete.trans hopen) hid⟩
  collects j result bound hbound hresult hmore := by
    obtain ⟨rounds, rfl⟩ := Nat.exists_eq_succ_of_ne_zero (Nat.ne_of_gt (Nat.zero_lt_of_lt hbound))
    rcases h.acceptResult hshape hcount hsource hreturned hresult
      (Nat.lt_of_succ_lt_succ hbound) with ⟨-, t, hcall, -⟩ | ⟨hlast, -⟩
    · exact ⟨t, hcall⟩
    · omega
  finishes j result bound hbound hresult hlast := by
    rcases h.acceptResult hshape hcount hsource hreturned hresult hbound with
      ⟨hmore, -⟩ | ⟨-, hback, t, hcall, hout⟩
    · exact absurd hmore hlast
    have hw := h.filled.toWindow
    -- Everything is flushed, waits, or is the delivery that returns now.
    have hall : ∀ {P : ExecutionState → Prop}, P .waiting → P .sent →
        ∀ k, k < task.items.length → Past P r.state k := by
      intro P hwaiting hsent k hk
      by_cases hflushed : k < r.state.eachFlushItem
      · exact .inl hflushed
      · obtain ⟨l, hl, hlk⟩ := hw.covered k (Nat.le_of_not_lt hflushed) (by
          rw [hback.admitted]
          exact hk)
        refine .inr ⟨l, hl, hlk, ?_⟩
        by_cases hlj : l = j
        · rw [hlj, hresult.sent.2]
          exact hsent
        · rw [hback.others l hl hlj]
          exact hwaiting
    exact ⟨h.invoked.perm hw (hall (.inr (.inr rfl)) (.inr (.inl rfl))),
      h.sent.perm hw (hall (.inr rfl) (.inl rfl)), h.lastBack hresult.sent hback, t, hcall, hout⟩

theorem EachBegins.aim (h : EachBegins image task s) (edge : Edge) :
    EachBegins image task (s.aim task.coordinator edge) := by
  refine ⟨h.sized.mark rfl rfl, h.idle, fun j hj => ?_, ?_, h.items, h.count⟩
  · rw [GroupExecution.aim, setFlow_flows_of_ne _ _ hj]
    exact h.alone j hj
  · rw [GroupExecution.aim, setFlow_flows_self]
    exact h.source

/-- **A canonical list starts its region**: it splits into items, no more than the bound. -/
theorem items_of_canonical {regionId : UInt8} {region : EachRegion}
    (hregular : EachRegular image regionId region) {source : Bytes}
    (hvalid : image.validateValue region.sourceList source = true) :
    ∃ items, image.listItems region.sourceList source maxEachItems = some items ∧
      items.length ≤ region.bound.toNat := by
  obtain ⟨classes, regions, hchecked⟩ := image.checked
  have hmem : region ∈ image.eachRegions := Image.eachAt_mem hregular.found
  rw [← hchecked.each_eq] at hmem
  obtain ⟨range, itemRange, element, maximum, hlist, -, hbound⟩ :=
    Image.listOf_represents (hchecked.each_checked _ hmem).source
  rw [beq_iff_eq, UInt16.toNat_toUInt32] at hbound
  have hmaximum : maximum.toNat ≤ maxEachItems :=
    UInt16.le_iff_toNat_le.mp hlist.stands.valid.2.1
  obtain ⟨items, hitems, hcount⟩ := Image.listItems_of_valid hlist hvalid hmaximum
  exact ⟨items, hitems, hbound ▸ hcount⟩

/--
**An each region delivers every item once and collects what they return in order.**

However the deliveries are prepared, sent and answered, none is made twice, no more
than the concurrency limit are in flight, and with the last result the output edge is
entered with the list of the returned values in the order of the items. An empty list
is handed on at once.
-/
theorem each_ordered (hregular : EachRegular image task.regionId task.region)
    (edge : Edge) (hedge : edge.targetKind = 6 ∧ edge.targetNode = task.regionId.toUInt16)
    (hbegins : EachBegins image task s) (hreturned : Returned image task s.valueStride)
    (bound : Nat) (hbound : maxFlows < bound) (outcome : Outcome) :
    ∃ out, image.groupFindEdge 9 task.regionId.toUInt16 0 = some out ∧
      (task.items = [] → ∃ t, enterEdge image (bound + 1) task.coordinator edge outcome s =
        enterEdge image bound task.coordinator out .success t ∧ EachOutput image task t) ∧
      (task.items ≠ [] → ∃ started,
        enterEdge image (bound + 1) task.coordinator edge outcome s = some (.ok, started) ∧
        ∀ r, (itemSystem image task started).Reach r → EachGuarantee image task out s r) := by
  obtain ⟨item, back, out, hshape⟩ := hregular.shape
  obtain ⟨inner, rfl⟩ := Nat.exists_eq_succ_of_ne_zero (Nat.ne_of_gt (Nat.zero_lt_of_lt hbound))
  have haimed := hbegins.aim edge
  have hregion : edge.targetNode.toUInt8 = task.regionId := by
    rw [hedge.2, UInt8.toUInt8_toUInt16]
  have hsource : task.source.length ≤ s.valueStride := hbegins.source ▸ hbegins.sized.fits _
  rw [enterEdge_each hedge.1, hregion]
  refine ⟨out, hshape.outEdge, ?_⟩
  rcases eachStart_window hshape (enterEdge_template hshape.enters.1) haimed hreturned hbound with
    ⟨hempty, t, hcall, hout⟩ | ⟨hsome, t, hcall, ht, hadmitted⟩
  · exact ⟨fun _ => ⟨t, hcall, hout⟩, fun hsome => absurd hempty hsome⟩
  · refine ⟨fun hempty => absurd hempty hsome, fun _ => ⟨t, hcall, fun r hr => ?_⟩⟩
    have hlogged : Logged image task s r := by
      refine hr.invariant (fun r hinit => ?_) fun r op r' hlogged _ hstep =>
        hlogged.step hshape hbegins.count hsource hreturned hstep
      obtain rfl := hinit
      have hstart := logged_init haimed ht hadmitted
      exact ⟨hstart.filled, hstart.executionId, hstart.complete, hstart.stride, hstart.invoked,
        hstart.sent, hstart.returned, hstart.carried⟩
    exact hlogged.guarantee hshape hbegins.count hsource hreturned

/-! ## A region of three items, two at a time -/

/-- `[Bool]` with three items at most goes through one action. -/
def eachLayout : Image.Layout where
  inputType := 2
  successType := 2
  errors := [1]
  contracts := [.of 1]
  types := [Image.boolType, (2, [7, 0, 1, 0, 3, 0, 0, 0, 3, 0, 0, 0, 0, 0, 0, 0])]
  nodes := [.action1 1, .terminal 1, .terminal 2, .terminal 3, .terminal 4]
  edges := [{ Edge.wire 0 0 6 1 with sourceType := 2, targetType := 2 },
    .wire 8 1 1 1, .wire 1 1 7 1, .wire 2 1 2 3, .bare 3 1 4, .bare 4 1 5,
    { Edge.wire 9 1 2 2 with sourceType := 2, targetType := 2 }]
  regions := [[2, 2] ++ Image.Layout.u16 1 ++ Image.Layout.u16 2 ++ Image.Layout.u16 1 ++
    Image.Layout.u16 1 ++ Image.Layout.u16 2 ++ Image.Layout.u16 3 ++ Image.Layout.u16 0]

set_option maxRecDepth 20000 in
theorem each_valid : (Image.imageValidate eachLayout.encode).toOption.isSome = true := by
  decide +kernel

def eachImage : Image := eachLayout.image each_valid

/-- Three items, each of which returns `true`. -/
def threeItems : EachTask where
  regionId := 1
  region := ⟨2, 1, 2, 1, 1, 2, 3⟩
  coordinator := 0
  source := [3, 0, 0, 0, 0, 0, 0, 0, 0, 1, 0]
  items := [(8, 1), (9, 1), (10, 1)]
  values := fun _ => [1]

/-- The flow with the list in front of the region. -/
def beforeItems : GroupExecution where
  executionId := 1
  eachRegions := [⟨2, 1, 2, 1, 1, 2, 3⟩]
  valueStride := 64
  flows := fun i =>
    { value := if i = 0 then [3, 0, 0, 0, 0, 0, 0, 0, 0, 1, 0] else []
      valueCapacity := 64
      active := i == 0 }

set_option maxRecDepth 20000 in
theorem each_ordered_threeItems : ∃ out, eachImage.groupFindEdge 9 1 0 = some out ∧
    ∃ started, enterEdge eachImage 10 0
      { Edge.wire 0 0 6 1 with sourceType := 2, targetType := 2 } .none beforeItems =
        some (.ok, started) ∧
      ∀ r, (itemSystem eachImage threeItems started).Reach r →
        EachGuarantee eachImage threeItems out beforeItems r := by
  have hregular : EachRegular eachImage 1 ⟨2, 1, 2, 1, 1, 2, 3⟩ :=
    ⟨by decide +kernel, by decide +kernel, by decide +kernel⟩
  have hsized : Sized eachImage beforeItems :=
    ⟨by decide +kernel, by decide, by decide, by decide⟩
  have hbegins : EachBegins eachImage threeItems beforeItems :=
    ⟨hsized, rfl, by decide, rfl, by decide +kernel, by decide⟩
  have hvalue : eachImage.validateValue 1 [1] = true := by decide +kernel
  have hreturned : Returned eachImage threeItems 64 := ⟨fun _ _ => hvalue, by decide⟩
  obtain ⟨out, hout, -, hstarts⟩ := each_ordered hregular
    { Edge.wire 0 0 6 1 with sourceType := 2, targetType := 2 } ⟨rfl, rfl⟩ hbegins hreturned 9
    (by decide) .none
  exact ⟨out, hout, hstarts (by decide)⟩

end GroupExecution

end Hermas
