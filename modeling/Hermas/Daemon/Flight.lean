import Hermas.Daemon.Calls
import Hermas.Runtime.EachRun

/-!
# One flight for each action

An action serves one execution at a time: a delivery is given its action only when
no other delivery owns it, the items of one each region excepted. Ownership is taken
in one place and given back in many, so the invariant needs two things: what serves a
slot never takes an action, and what assigns actions has looked at every delivery.
-/

namespace Hermas.Daemon

open Loop (PollItem Event)

namespace Slot

/-- A sequential slot owns an action only while its delivery is prepared or sent. -/
def Tidy (slot : Slot) : Prop :=
  slot.group = none → slot.ownsAction = true → slot.prepared = true ∨ slot.sent = true

/-- What serves a slot may give actions back and prepare new deliveries, but takes no action. -/
structure Frees (s s' : Slot) : Prop where
  active : s'.active = s.active
  grouped : s'.group.isSome = s.group.isSome
  flows : ∀ i, (s'.groupDeliveries i).ownsAction = true →
    s'.groupDeliveries i = s.groupDeliveries i
  slot : s'.ownsAction = true →
    s.ownsAction = true ∧ s'.appId = s.appId ∧ s'.actionId = s.actionId
  tidy : s.Tidy → s'.Tidy

theorem Frees.refl (s : Slot) : Frees s s := ⟨rfl, rfl, fun _ _ => rfl, fun h => ⟨h, rfl, rfl⟩, id⟩

theorem Frees.trans {s t u : Slot} (h : Frees s t) (h' : Frees t u) : Frees s u where
  active := h'.active.trans h.active
  grouped := h'.grouped.trans h.grouped
  flows := fun i howns => by
    have hsame := h'.flows i howns
    rw [hsame] at howns ⊢
    exact h.flows i howns
  slot := fun howns => by
    obtain ⟨howns', happ', haction'⟩ := h'.slot howns
    obtain ⟨howns'', happ, haction⟩ := h.slot howns'
    exact ⟨howns'', happ'.trans happ, haction'.trans haction⟩
  tidy := fun ht => h'.tidy (h.tidy ht)

/-- The slots agree in all that says who owns an action. -/
structure SameHold (s s' : Slot) : Prop where
  active : s'.active = s.active
  group : s'.group = s.group
  deliveries : s'.groupDeliveries = s.groupDeliveries
  ownsAction : s'.ownsAction = s.ownsAction
  appId : s'.appId = s.appId
  actionId : s'.actionId = s.actionId

theorem SameHold.refl (s : Slot) : SameHold s s := ⟨rfl, rfl, rfl, rfl, rfl, rfl⟩

theorem SameHold.trans {s t u : Slot} (h : SameHold s t) (h' : SameHold t u) : SameHold s u :=
  ⟨h'.active.trans h.active, h'.group.trans h.group, h'.deliveries.trans h.deliveries,
    h'.ownsAction.trans h.ownsAction, h'.appId.trans h.appId, h'.actionId.trans h.actionId⟩

/-- The slot gave its action back; its deliveries are as they were. -/
structure Released (s s' : Slot) : Prop where
  active : s'.active = s.active
  group : s'.group = s.group
  deliveries : s'.groupDeliveries = s.groupDeliveries
  ownsAction : s'.ownsAction = false

theorem SameHold.released {s t u : Slot} (h : SameHold s t) (h' : Released t u) :
    Released s u :=
  ⟨h'.active.trans h.active, h'.group.trans h.group, h'.deliveries.trans h.deliveries,
    h'.ownsAction⟩

theorem Released.held {s t u : Slot} (h : Released s t) (h' : SameHold t u) : Released s u :=
  ⟨h'.active.trans h.active, h'.group.trans h.group, h'.deliveries.trans h.deliveries,
    h'.ownsAction.trans h.ownsAction⟩

/-- A slot that is left without its action takes none. -/
theorem Released.frees {s t : Slot} (h : Released s t) : Frees s t where
  active := h.active
  grouped := by rw [h.group]
  flows := fun i _ => by rw [h.deliveries]
  slot := fun howns => by rw [h.ownsAction] at howns; cases howns
  tidy := fun _ _ howns => by rw [h.ownsAction] at howns; cases howns

/-- A slot whose delivery stays prepared or sent takes no action. -/
theorem SameHold.frees_of {s t : Slot} (h : SameHold s t)
    (ht : s.Tidy → s.ownsAction = true → s.group = none → t.prepared = true ∨ t.sent = true) :
    Frees s t where
  active := h.active
  grouped := by rw [h.group]
  flows := fun i _ => by rw [h.deliveries]
  slot := fun howns => ⟨h.ownsAction ▸ howns, h.appId, h.actionId⟩
  tidy := fun htidy hgroup howns =>
    ht htidy (h.ownsAction ▸ howns) (h.group ▸ hgroup)

/-- A grouped slot whose deliveries own no action that they did not own before. -/
theorem Frees.of_group {s t : Slot} (ht : t.group.isSome = true) (hs : s.group.isSome = true)
    (hactive : t.active = s.active)
    (hflows : ∀ i, (t.groupDeliveries i).ownsAction = true →
      t.groupDeliveries i = s.groupDeliveries i)
    (hslot : t.ownsAction = s.ownsAction ∧ t.appId = s.appId ∧ t.actionId = s.actionId) :
    Frees s t where
  active := hactive
  grouped := ht.trans hs.symm
  flows := hflows
  slot := fun howns => ⟨hslot.1 ▸ howns, hslot.2⟩
  tidy := fun _ hnone => by rw [hnone] at ht; cases ht

end Slot

namespace AtSlot

open Slot (Frees SameHold Released)

variable {image : Image} {bound : Nat} {w w' : AtSlot} {i : FlowIndex}

/-! ## Flows -/

theorem Marked.sameHold (h : Marked w w') : SameHold w.slot w'.slot := by
  obtain ⟨finished, stored, hslot⟩ := h.slot
  rw [hslot]
  exact ⟨rfl, rfl, rfl, rfl, rfl, rfl⟩

/-- A delivery that is closed gives its action back. -/
theorem FlowEnds.frees {group' : GroupExecution} {record : Journal.Record}
    (hgroup : w.slot.group.isSome = true) (h : FlowEnds w i group' record w') :
    Frees w.slot w'.slot := by
  obtain ⟨v, u, hcloses, hfinish, rfl⟩ := h
  have hheld : SameHold v.slot u.slot := (finishGroupTransition_marked hfinish).sameHold
  rw [hcloses.slot] at hheld
  refine Frees.of_group (by rw [advance_slot, hheld.group]; rfl) hgroup hheld.active
    (fun k howns => ?_) ⟨hheld.ownsAction, hheld.appId, hheld.actionId⟩
  rw [advance_slot, hheld.deliveries] at howns ⊢
  by_cases hk : k = i
  · subst hk
    simp at howns
  · simp [hk]

theorem disown_frees (hgroup : w.slot.group.isSome = true) : Frees w.slot (w.disown i).slot := by
  refine Frees.of_group hgroup hgroup rfl (fun k howns => ?_) ⟨rfl, rfl, rfl⟩
  by_cases hk : k = i
  · subst hk
    simp [disown, setDelivery] at howns
  · simp [disown, setDelivery, hk]

theorem prepareFlow_frees (h : w.prepareFlow image i = some (.ok, w')) :
    Frees w.slot w'.slot := by
  rcases prepareFlow_ok h with rfl | ⟨group, invocation, group', journal, hgroup, -, rfl⟩
  · exact Frees.refl _
  · refine Frees.of_group rfl (by rw [hgroup]; rfl) rfl (fun k howns => ?_) ⟨rfl, rfl, rfl⟩
    by_cases hk : k = i
    · subst hk
      simp [setDelivery] at howns
    · simp [setDelivery, setGroup, hk]

theorem reconcileFlow_frees (h : w.reconcileFlow image bound i = some (.ok, w')) :
    Frees w.slot w'.slot := by
  rcases reconcileFlow_ok h with
    ⟨rfl, -⟩ | ⟨-, -, -, group, hgroup, ⟨-, rfl⟩ | ⟨group', -, -, hends⟩⟩
  · exact Frees.refl _
  · exact disown_frees (by rw [hgroup]; rfl)
  · exact hends.frees (by rw [hgroup]; rfl)

theorem FlowSent.frees (h : FlowSent image bound w i w') (hgroup : w.slot.group.isSome = true) :
    Frees w.slot w'.slot := by
  cases h with
  | same => exact Frees.refl _
  | disowned missing => exact disown_frees hgroup
  | sent grouped found marked =>
      exact Frees.of_group rfl hgroup rfl (fun k _ => rfl) ⟨rfl, rfl, rfl⟩
  | failed grouped marked ends => exact ends.frees hgroup

theorem setGroup_frees (group : GroupExecution) (hgroup : w.slot.group.isSome = true) :
    Frees w.slot (w.setGroup group).slot :=
  Frees.of_group rfl hgroup rfl (fun _ _ => rfl) ⟨rfl, rfl, rfl⟩

theorem FlowReceived.frees {received : Received}
    (h : FlowReceived image bound received w i w') : Frees w.slot w'.slot := by
  cases h with
  | same => exact Frees.refl _
  | lost grouped missing marked ends => exact ends.frees (by rw [grouped]; rfl)
  | refused grouped marked ends => exact ends.frees (by rw [grouped]; rfl)
  | unanswered grouped matched refused failed marked ends =>
      exact (setGroup_frees _ (by rw [grouped]; rfl)).trans (ends.frees rfl)
  | accepted grouped found read matched accepted ends => exact ends.frees (by rw [grouped]; rfl)

/-! ## Sequential slots -/

theorem beginLiveCompensation_sameHold {outcome : Outcome}
    (h : w.beginLiveCompensation image outcome = some (.ok, w')) : SameHold w.slot w'.slot := by
  rcases beginLiveCompensation_ok h with ⟨-, rfl⟩ | ⟨-, -, plan, driver, log, -, -, rfl⟩
  · exact SameHold.refl _
  · exact ⟨rfl, rfl, rfl, rfl, rfl, rfl⟩

theorem appendCompensationToken_sameHold {result : Frame}
    (h : w.appendCompensationToken image result = some (.ok, w')) :
    SameHold w.slot w'.slot := by
  rcases appendCompensationToken_ok h with ⟨-, rfl⟩ | ⟨route, compensation, -, -, -, -, -, rfl⟩
  · exact SameHold.refl _
  · exact ⟨rfl, rfl, rfl, rfl, rfl, rfl⟩

/-- Whatever comes behind the end of a sequential delivery, its action was given back. -/
theorem settleExecution_released {appError : Bool}
    (h : w.settleExecution image appError = some (.ok, w')) : Released w.slot w'.slot := by
  obtain ⟨u, v, x, hu, hv, hx, rfl⟩ := settleExecution_ok h
  have hfree : Released w.slot w.releaseAction.slot := ⟨rfl, rfl, rfl, rfl⟩
  have hmarked := (hfree.held (appendResult_marked hu).sameHold).held
    (appendFinished_marked hv).sameHold
  split at hx
  · have hlive : SameHold v.slot x.slot := beginLiveCompensation_sameHold hx
    exact hmarked.held hlive
  · cases hx
    exact hmarked

theorem loseExecution_released (h : w.loseExecution image = some (.ok, w')) :
    Released w.slot w'.slot := by
  obtain ⟨journal, execution, u, -, -, hu, rfl⟩ := loseExecution_ok h
  have hfree : Released w.slot ((w.recorded journal
      (w.actionRecord .actionUnknown .unknown)).setExecution execution).releaseAction.slot :=
    ⟨rfl, rfl, rfl, rfl⟩
  exact hfree.held (appendFinished_marked hu).sameHold

theorem refuseExecution_released (h : w.refuseExecution image = some (.ok, w')) :
    Released w.slot w'.slot := by
  obtain ⟨journal, execution, -, -, hsettle⟩ := refuseExecution_ok h
  have hsettled := settleExecution_released hsettle
  exact ⟨hsettled.active, hsettled.group, hsettled.deliveries, hsettled.ownsAction⟩

theorem recordResult_released {result : Frame}
    (h : w.recordResult image result = some (.ok, w')) : Released w.slot w'.slot := by
  obtain ⟨t, journal, ht, -, hsettle⟩ := recordResult_ok h
  have htoken : SameHold w.slot t.slot := by
    split at ht
    · exact appendCompensationToken_sameHold ht
    · cases ht
      exact SameHold.refl _
  have hsettled := settleExecution_released hsettle
  rw [recorded_slot] at hsettled
  exact htoken.released hsettled

theorem failToSend_released (h : w.failToSend image = some (.ok, w')) :
    Released w.slot w'.slot := by
  obtain ⟨journal, execution, u, v, -, -, hu, hv, rfl⟩ := failToSend_ok h
  have hfinished := (appendFinished_marked hu).sameHold
  have hlive : SameHold u.slot v.slot := beginLiveCompensation_sameHold hv
  have hfree : Released w.slot u.slot :=
    ⟨hfinished.active, hfinished.group, hfinished.deliveries, hfinished.ownsAction⟩
  exact hfree.held hlive

theorem RefusedCompensation.released (h : RefusedCompensation w w') :
    Released w.slot w'.slot := by
  obtain ⟨driver, log, -, rfl⟩ := h
  exact ⟨rfl, rfl, rfl, rfl⟩

theorem CompensationReceived.released {result : Option Frame}
    (h : CompensationReceived image w result w') : Released w.slot w'.slot := by
  cases h with
  | refused refused => exact refused.released
  | unanswered failed refused =>
      have hreleased := refused.released
      exact ⟨hreleased.active, hreleased.group, hreleased.deliveries, hreleased.ownsAction⟩
  | accepted accepted settled =>
      rcases settled with ⟨-, rfl⟩ | ⟨-, rfl⟩ | ⟨-, -, rfl⟩ <;> exact ⟨rfl, rfl, rfl, rfl⟩

theorem SlotReceived.frees {received : Received} (h : SlotReceived image received w w') :
    Frees w.slot w'.slot := by
  cases h with
  | same => exact Frees.refl _
  | lost plain missing lost => exact (loseExecution_released lost).frees
  | compensationLost compensating missing lost =>
      obtain ⟨driver, log, -, rfl⟩ := loseCompensation_ok lost
      exact Released.frees ⟨rfl, rfl, rfl, rfl⟩
  | refused plain refused => exact (refuseExecution_released refused).frees
  | unanswered plain rejected failed refused =>
      have hreleased := refuseExecution_released refused
      exact Released.frees ⟨hreleased.active, hreleased.group, hreleased.deliveries,
        hreleased.ownsAction⟩
  | accepted plain found read decoded accepted recorded =>
      have hreleased := recordResult_released recorded
      exact Released.frees ⟨hreleased.active, hreleased.group, hreleased.deliveries,
        hreleased.ownsAction⟩
  | compensation compensating found read settled => exact settled.released.frees

/-- A packet that goes out leaves its delivery sent. -/
theorem driver_markSent_sent {driver driver' : Saga.Driver} {log log' : Saga.Log.Writer}
    (h : driver.markSent log = (.ok, driver', log')) : driver'.execution.state = .sent := by
  unfold Saga.Driver.markSent Saga.markSent at h
  split at h
  · rename_i e he
    split at he
    · cases he
      cases h
    · cases he
  · rename_i execution he
    split at he
    · cases he
    · cases he
      simp only [Saga.Driver.appendRecord] at h
      split at h
      · cases h
      · cases h
        rfl

theorem SlotSent.frees (h : SlotSent image w w') : Frees w.slot w'.slot := by
  cases h with
  | released missing => exact Released.frees ⟨rfl, rfl, rfl, rfl⟩
  | waits registered =>
      exact SameHold.frees_of ⟨rfl, rfl, rfl, rfl, rfl, rfl⟩ fun ht howns hgroup =>
        ht hgroup howns
  | sent plain found marked =>
      refine SameHold.frees_of ⟨rfl, rfl, rfl, rfl, rfl, rfl⟩ fun _ _ hgroup => .inr ?_
      unfold Execution.markSent at marked
      split at marked
      · cases marked
      · cases marked
        simp [Slot.sent, setExecution, plain, hgroup]
  | compensationSent compensating found marked =>
      refine SameHold.frees_of ⟨rfl, rfl, rfl, rfl, rfl, rfl⟩ fun _ _ hgroup => .inr ?_
      simp [Slot.sent, setSaga, compensating, hgroup, driver_markSent_sent marked]
  | failed plain failed =>
      have hreleased := failToSend_released failed
      exact Released.frees ⟨hreleased.active, hreleased.group, hreleased.deliveries,
        hreleased.ownsAction⟩
  | compensationFailed compensating failed =>
      obtain ⟨driver, log, -, rfl⟩ := failToSendCompensation_ok failed
      exact Released.frees ⟨rfl, rfl, rfl, rfl⟩

end AtSlot

namespace Loop

open Slot (Frees)

variable {image : Image} {bound : Nat} {loop loop' : Loop}

theorem serveFlow_frees {event : Event} {i : FlowIndex} {w w' : AtSlot}
    (h : serveFlow image bound event i w = some (.ok, w')) : Frees w.slot w'.slot := by
  unfold serveFlow at h
  cases hgroup : w.slot.group with
  | none => rw [hgroup] at h; cases h; exact Frees.refl _
  | some group =>
      rw [hgroup] at h
      simp only at h
      have hsend : ∀ {outcome}, w.sendGroupInvocation image bound outcome i = some (.ok, w') →
          Frees w.slot w'.slot := fun h =>
        (AtSlot.sendGroupInvocation_ok h).frees (by rw [hgroup]; rfl)
      split at h
      · exact hsend h
      split at h
      · exact (AtSlot.receiveGroupResult_ok h).frees
      split at h
      · split at h
        · exact hsend h
        · exact (AtSlot.receiveGroupResult_ok h).frees
      · cases h; exact Frees.refl _

theorem serveSlot_frees {event : Event} {w w' : AtSlot}
    (h : serveSlot image event w = some (.ok, w')) : Frees w.slot w'.slot := by
  unfold serveSlot at h
  split at h
  · exact (AtSlot.sendInvocation_ok h).frees
  split at h
  · exact (AtSlot.receiveResult_ok h).frees
  split at h
  · split at h
    · exact (AtSlot.sendInvocation_ok h).frees
    · exact (AtSlot.receiveResult_ok h).frees
  · cases h; exact Frees.refl _

/-- The delivery of an item owns an action. -/
def Owns (loop : Loop) (item : PollItem) (action : UInt16 × UInt16) : Prop :=
  loop.ownsAt item = true ∧ loop.actionAt item = action

/-- Every action serves one execution, and sequential slots own theirs only while they need it. -/
structure Exclusive (loop : Loop) : Prop where
  tidy : ∀ i, (loop.slots i).Tidy
  single : ∀ {item other : PollItem} {action}, loop.Owns item action → loop.Owns other action →
    item.slot = other.slot

/-- Who owned nothing still owns nothing. -/
def Loses (loop loop' : Loop) : Prop :=
  ∀ item action, loop'.Owns item action → loop.Owns item action

theorem Exclusive.loses (h : loop.Exclusive) (ht : ∀ i, (loop'.slots i).Tidy)
    (hl : Loses loop loop') : loop'.Exclusive :=
  ⟨ht, fun ha hb => h.single (hl _ _ ha) (hl _ _ hb)⟩

theorem Exclusive.of_slots (h : loop.Exclusive) (hslots : loop'.slots = loop.slots) :
    loop'.Exclusive := by
  refine h.loses (hslots ▸ h.tidy) fun item action howns => ?_
  unfold Owns ownsAt actionAt at howns ⊢
  rwa [hslots] at howns

/-- What is put in place of a slot takes no action. -/
theorem put_loses {i : SlotIndex} {w : AtSlot} (h : Frees (loop.slots i) w.slot) :
    Loses loop (loop.put i w) := by
  rintro ⟨j, flow⟩ action ⟨howns, haction⟩
  by_cases hj : j = i
  · subst hj
    cases flow with
    | none =>
        simp only [ownsAt, actionAt, put_slots_self, Bool.and_eq_true, Option.isNone_iff_eq_none]
          at howns haction
        obtain ⟨hactive, hnone, howns⟩ := howns
        obtain ⟨howns', happ, haction'⟩ := h.slot howns
        have hnone' : (loop.slots j).group = none := by
          have hgrouped := h.grouped
          rw [hnone] at hgrouped
          simpa using hgrouped.symm
        refine ⟨?_, ?_⟩
        · simp only [ownsAt, Bool.and_eq_true, Option.isNone_iff_eq_none]
          exact ⟨h.active ▸ hactive, hnone', howns'⟩
        · simp only [actionAt, ← happ, ← haction']
          exact haction
    | some k =>
        simp only [ownsAt, actionAt, put_slots_self, Bool.and_eq_true] at howns haction
        obtain ⟨hactive, hsome, howns⟩ := howns
        have hsame := h.flows k howns
        rw [hsame] at howns haction
        refine ⟨?_, haction⟩
        simp only [ownsAt, Bool.and_eq_true]
        exact ⟨h.active ▸ hactive, h.grouped ▸ hsome, howns⟩
  · refine ⟨?_, ?_⟩
    · simpa only [ownsAt, put_slots_of_ne _ _ hj] using howns
    · simpa only [actionAt, put_slots_of_ne _ _ hj] using haction

theorem put_tidy {i : SlotIndex} {w : AtSlot} (h : Frees (loop.slots i) w.slot)
    (ht : ∀ j, (loop.slots j).Tidy) (j : SlotIndex) : ((loop.put i w).slots j).Tidy := by
  by_cases hj : j = i
  · subst hj
    rw [put_slots_self]
    exact h.tidy (ht j)
  · rw [put_slots_of_ne _ _ hj]
    exact ht j

theorem Exclusive.put (h : loop.Exclusive) {i : SlotIndex} {w : AtSlot}
    (hf : Frees (loop.slots i) w.slot) : (loop.put i w).Exclusive :=
  h.loses (put_tidy hf h.tidy) (put_loses hf)

/-! ## Assigning actions -/

theorem sameRegion_iff {slot : Slot} {a b : FlowIndex} : sameRegion slot a b = true ↔
    ∃ group, slot.group = some group ∧ (group.flows a).eachRegion ≠ 0 ∧
      (group.flows a).eachRegion = (group.flows b).eachRegion := by
  unfold sameRegion
  cases slot.group <;> simp

theorem sameRegion_symm {slot : Slot} {a b : FlowIndex} (h : sameRegion slot a b = true) :
    sameRegion slot b a = true := by
  obtain ⟨group, hgroup, hregion, hsame⟩ := sameRegion_iff.mp h
  exact sameRegion_iff.mpr ⟨group, hgroup, hsame ▸ hregion, hsame.symm⟩

/-- A candidate whose action no other delivery owns, the items of its own region excepted. -/
theorem actionOwnedByOther_false {i : SlotIndex} {flow : Option FlowIndex} {appId actionId : UInt16}
    (h : loop.actionOwnedByOther i flow appId actionId = false) {other : PollItem}
    (howns : loop.Owns other (appId, actionId)) :
    other.slot = i ∧ (other.flow = none ∨ other.flow = flow ∨
      ∃ k m, flow = some k ∧ other.flow = some m ∧
        sameRegion (loop.slots i) k m = true) := by
  obtain ⟨j, otherFlow⟩ := other
  obtain ⟨howns, haction⟩ := howns
  unfold actionOwnedByOther at h
  rw [List.any_eq_false] at h
  have hj := h j (List.mem_finRange j)
  cases otherFlow with
  | none =>
      simp only [ownsAt, Bool.and_eq_true] at howns
      simp only [actionAt, Prod.mk.injEq] at haction
      simp only [howns.1, howns.2.1, howns.2.2, haction.1, haction.2, Bool.true_and, if_true,
        bne_iff_ne, Bool.and_true, beq_self_eq_true, ne_eq, not_not] at hj
      exact ⟨hj, .inl rfl⟩
  | some m =>
      simp only [ownsAt, Bool.and_eq_true] at howns
      simp only [actionAt, Prod.mk.injEq] at haction
      have hgrouped : (loop.slots j).group.isNone = false := by
        rw [← Option.not_isSome, howns.2.1]; rfl
      simp only [howns.1, hgrouped, Bool.true_and, if_false, Bool.false_eq_true] at hj
      rw [Bool.not_eq_true, List.any_eq_false] at hj
      have hm := hj m (List.mem_finRange m)
      simp only [howns.2.2, haction.1, haction.2, beq_self_eq_true, Bool.and_true,
        Bool.and_eq_true, Bool.not_eq_true', not_and, Bool.and_eq_false_iff,
        beq_eq_false_iff_ne] at hm
      by_cases hsame : j = i ∧ flow = some m
      · exact ⟨hsame.1, .inr (.inl hsame.2.symm)⟩
      · have hboth := hm (by
          by_cases hji : j = i
          · exact .inr fun hf => hsame ⟨hji, hf⟩
          · exact .inl hji)
        rw [not_or, ne_eq, not_not, Bool.not_eq_false] at hboth
        obtain ⟨hji, hregion⟩ := hboth
        subst hji
        cases flow with
        | none => simp at hregion
        | some k => exact ⟨rfl, .inr (.inr ⟨k, m, rfl, rfl, by simpa using hregion⟩)⟩

/-- Two flows of a slot that own one action feed one each region. -/
def Shared (loop : Loop) (outstanding : PollItem → Prop) : Prop :=
  ∀ i k m action, k ≠ m → outstanding ⟨i, some k⟩ → outstanding ⟨i, some m⟩ →
    loop.Owns ⟨i, some k⟩ action → loop.Owns ⟨i, some m⟩ action →
    sameRegion (loop.slots i) k m = true

/-- What an assignment changes: the slots are the same but for the marks of ownership. -/
structure SameButOwned (loop loop' : Loop) : Prop where
  shared : loop'.toShared = loop.toShared
  slots : ∀ i, ∃ owns, loop'.slots i = { loop.slots i with
    ownsAction := owns, groupDeliveries := (loop'.slots i).groupDeliveries }
  deliveries : ∀ i k, ∃ owns, (loop'.slots i).groupDeliveries k =
    { (loop.slots i).groupDeliveries k with ownsAction := owns }

theorem SameButOwned.refl (loop : Loop) : SameButOwned loop loop :=
  ⟨rfl, fun _ => ⟨_, rfl⟩, fun _ _ => ⟨_, rfl⟩⟩

theorem SameButOwned.trans {loop'' : Loop} (h : SameButOwned loop loop')
    (h' : SameButOwned loop' loop'') : SameButOwned loop loop'' := by
  refine ⟨h'.shared.trans h.shared, fun i => ?_, fun i k => ?_⟩
  · obtain ⟨a, ha⟩ := h.slots i
    obtain ⟨b, hb⟩ := h'.slots i
    exact ⟨b, by rw [hb, ha]⟩
  · obtain ⟨a, ha⟩ := h.deliveries i k
    obtain ⟨b, hb⟩ := h'.deliveries i k
    exact ⟨b, by rw [hb, ha]⟩

theorem SameButOwned.inState (h : SameButOwned loop loop') {states : Slot → Bool}
    {flowStates : ExecutionState → Bool} (item : PollItem)
    (hstates : ∀ i, states (loop'.slots i) = states (loop.slots i)) :
    loop'.inState item states flowStates = loop.inState item states flowStates := by
  obtain ⟨owns, hslot⟩ := h.slots item.slot
  have hactive : (loop'.slots item.slot).active = (loop.slots item.slot).active := by rw [hslot]
  have hgroup : (loop'.slots item.slot).group = (loop.slots item.slot).group := by rw [hslot]
  unfold Loop.inState flowAt
  rw [hactive, hgroup, hstates item.slot]

theorem SameButOwned.preparedAt (h : SameButOwned loop loop') (item : PollItem) :
    loop'.preparedAt item = loop.preparedAt item :=
  h.inState item fun i => by
    obtain ⟨owns, hslot⟩ := h.slots i
    rw [hslot]
    rfl

theorem SameButOwned.sentAt (h : SameButOwned loop loop') (item : PollItem) :
    loop'.sentAt item = loop.sentAt item :=
  h.inState item fun i => by
    obtain ⟨owns, hslot⟩ := h.slots i
    rw [hslot]
    rfl

theorem SameButOwned.actionAt (h : SameButOwned loop loop') (item : PollItem) :
    loop'.actionAt item = loop.actionAt item := by
  obtain ⟨i, flow⟩ := item
  cases flow with
  | none =>
      obtain ⟨owns, hslot⟩ := h.slots i
      unfold Loop.actionAt
      simp only
      rw [hslot]
  | some k =>
      obtain ⟨owns, hdelivery⟩ := h.deliveries i k
      unfold Loop.actionAt
      simp only
      rw [hdelivery]

theorem SameButOwned.sameRegion (h : SameButOwned loop loop') (i : SlotIndex) (k m : FlowIndex) :
    sameRegion (loop'.slots i) k m = sameRegion (loop.slots i) k m := by
  obtain ⟨owns, hslot⟩ := h.slots i
  unfold Loop.sameRegion
  rw [hslot]

/-- One more delivery owns its action, and nobody else does, the items of its region excepted. -/
structure Assigns (loop loop' : Loop) (item : PollItem) : Prop where
  same : SameButOwned loop loop'
  owns : ∀ other action, loop'.Owns other action → other = item ∨ loop.Owns other action
  alone : ∀ other, loop.Owns other (loop.actionAt item) → other.slot = item.slot ∧
    ∀ k m, item.flow = some k → other.flow = some m → k ≠ m →
      Loop.sameRegion (loop.slots item.slot) k m = true
  tidy : ∀ i, (loop.slots i).Tidy → (loop'.slots i).Tidy

theorem Assigns.exclusive {item : PollItem} (h : Assigns loop loop' item)
    (hx : loop.Exclusive) : loop'.Exclusive := by
  refine ⟨fun i => h.tidy i (hx.tidy i), fun {a b action} ha hb => ?_⟩
  have hitem : ∀ {other}, loop'.Owns item action → loop.Owns other action →
      other.slot = item.slot := fun hi ho =>
    (h.alone _ (by rw [← h.same.actionAt, hi.2]; exact ho)).1
  rcases h.owns _ _ ha with hai | hao <;> rcases h.owns _ _ hb with hbi | hbo
  · rw [hai, hbi]
  · rw [hai] at ha ⊢
    exact (hitem ha hbo).symm
  · rw [hbi] at hb ⊢
    exact hitem hb hao
  · exact hx.single hao hbo

theorem Assigns.keepsShared {item : PollItem} (h : Assigns loop loop' item)
    {outstanding : PollItem → Prop} (hs : loop.Shared outstanding) : loop'.Shared outstanding := by
  intro i k m action hne hk hm howns howns'
  rw [h.same.sameRegion]
  rcases h.owns _ _ howns with hki | hko <;> rcases h.owns _ _ howns' with hmi | hmo
  · rw [← hmi] at hki
    exact absurd (Option.some.inj (PollItem.mk.inj hki).2) hne
  · -- the first flow is the new owner
    subst hki
    have halone := h.alone ⟨i, some m⟩ (by rw [← h.same.actionAt, howns.2]; exact hmo)
    exact halone.2 k m rfl rfl hne
  · subst hmi
    have halone := h.alone ⟨i, some k⟩ (by rw [← h.same.actionAt, howns'.2]; exact hko)
    exact sameRegion_symm (halone.2 m k rfl rfl hne.symm)
  · exact hs i k m action hne hk hm hko hmo

theorem assignSlot_assigns (i : SlotIndex) :
    loop.assignSlot i = loop ∨ Assigns loop (loop.assignSlot i) ⟨i, none⟩ := by
  unfold assignSlot
  simp only
  split
  · exact .inl rfl
  rename_i hopen
  simp only [not_or, Bool.not_eq_false, Bool.not_eq_true] at hopen
  obtain ⟨-, -, hprepared, -, hfree⟩ := hopen
  have hgroup : (loop.slots i).group = none := by
    unfold Slot.prepared at hprepared
    simp only [Bool.and_eq_true, Option.isNone_iff_eq_none] at hprepared
    exact hprepared.1
  refine .inr ⟨⟨rfl, fun j => ?_, fun j k => ?_⟩, fun other action howns => ?_,
    fun other howns => ?_, fun j ht => ?_⟩
  · by_cases hj : j = i
    · subst hj
      exact ⟨true, by rw [put_slots_self]; rfl⟩
    · exact ⟨_, by rw [put_slots_of_ne _ _ hj]⟩
  · by_cases hj : j = i
    · subst hj
      exact ⟨_, by rw [put_slots_self]; rfl⟩
    · exact ⟨_, by rw [put_slots_of_ne _ _ hj]⟩
  · obtain ⟨j, flow⟩ := other
    obtain ⟨howns, haction⟩ := howns
    by_cases hj : j = i
    · subst hj
      cases flow with
      | none => exact .inl rfl
      | some k =>
          simp only [ownsAt, put_slots_self, AtSlot.setSlot_slot, Bool.and_eq_true] at howns
          have hsome : (loop.slots j).group.isSome = true := howns.2.1
          rw [hgroup] at hsome
          cases hsome
    · refine .inr ⟨?_, ?_⟩
      · simpa only [ownsAt, put_slots_of_ne _ _ hj] using howns
      · simpa only [actionAt, put_slots_of_ne _ _ hj] using haction
  · exact ⟨(actionOwnedByOther_false hfree howns).1, fun k m hk => by cases hk⟩
  · by_cases hj : j = i
    · subst hj
      rw [put_slots_self]
      exact fun _ _ => .inl hprepared
    · rw [put_slots_of_ne _ _ hj]
      exact ht

theorem assignFlow_assigns (i : SlotIndex) (flow : FlowIndex) :
    loop.assignFlow i flow = loop ∨ Assigns loop (loop.assignFlow i flow) ⟨i, some flow⟩ := by
  unfold assignFlow
  simp only
  cases hgroup : (loop.slots i).group with
  | none => exact .inl rfl
  | some group =>
      simp only
      split
      · exact .inl rfl
      rename_i hopen
      simp only [not_or, Bool.not_eq_true] at hopen
      obtain ⟨-, -, -, -, -, hfree⟩ := hopen
      refine .inr ⟨⟨rfl, fun j => ?_, fun j k => ?_⟩, fun other action howns => ?_,
        fun other howns => ?_, fun j ht => ?_⟩
      · by_cases hj : j = i
        · subst hj
          exact ⟨_, by rw [put_slots_self]; rfl⟩
        · exact ⟨_, by rw [put_slots_of_ne _ _ hj]⟩
      · by_cases hj : j = i
        · subst hj
          rw [put_slots_self]
          by_cases hk : k = flow
          · subst hk
            exact ⟨true, by simp [AtSlot.setDelivery, view]⟩
          · exact ⟨_, by simp [AtSlot.setDelivery, view, hk]; rfl⟩
        · exact ⟨_, by rw [put_slots_of_ne _ _ hj]⟩
      · obtain ⟨j, otherFlow⟩ := other
        obtain ⟨howns, haction⟩ := howns
        by_cases hj : j = i
        · subst hj
          cases otherFlow with
          | none =>
              simp only [ownsAt, put_slots_self, Bool.and_eq_true] at howns
              have hnone : (loop.slots j).group.isNone = true := howns.2.1
              rw [hgroup] at hnone
              cases hnone
          | some k =>
              by_cases hk : k = flow
              · exact .inl (by rw [hk])
              · simp only [ownsAt, actionAt, put_slots_self, AtSlot.setDelivery,
                  AtSlot.setSlot_slot, view, Function.update_of_ne hk] at howns haction
                exact .inr ⟨howns, haction⟩
        · refine .inr ⟨?_, ?_⟩
          · simpa only [ownsAt, put_slots_of_ne _ _ hj] using howns
          · simpa only [actionAt, put_slots_of_ne _ _ hj] using haction
      · obtain ⟨hslot, hflow⟩ := actionOwnedByOther_false hfree howns
        refine ⟨hslot, fun k m hk hm hne => ?_⟩
        cases hk
        rcases hflow with hnone | hsame | ⟨k', m', hk', hm', hregion⟩
        · rw [hnone] at hm; cases hm
        · rw [hsame] at hm; cases hm; exact absurd rfl hne
        · rw [hm'] at hm
          cases hk'
          cases hm
          exact hregion
      · by_cases hj : j = i
        · subst hj
          rw [put_slots_self]
          intro hnone
          have hnone : (loop.slots j).group = none := hnone
          rw [hgroup] at hnone
          cases hnone
        · rw [put_slots_of_ne _ _ hj]
          exact ht

/-- **Assigning keeps actions exclusive**, and changes nothing else. -/
theorem assignAvailableActions_keeps {outstanding : PollItem → Prop} (hx : loop.Exclusive)
    (hs : loop.Shared outstanding) :
    SameButOwned loop loop.assignAvailableActions ∧ loop.assignAvailableActions.Exclusive ∧
      loop.assignAvailableActions.Shared outstanding := by
  let Good (l : Loop) : Prop := SameButOwned loop l ∧ l.Exclusive ∧ l.Shared outstanding
  have hstep : ∀ {l l' : Loop} {item : PollItem}, Good l → (l' = l ∨ Assigns l l' item) →
      Good l' := by
    intro l l' item hg hl
    rcases hl with rfl | hl
    · exact hg
    · exact ⟨hg.1.trans hl.same, hl.exclusive hg.2.1, hl.keepsShared hg.2.2⟩
  have hslots : Good ((turn loop.schedulerCursor).foldl assignSlot loop) :=
    List.foldlRecOn (motive := Good) _ _ ⟨SameButOwned.refl loop, hx, hs⟩
      fun l hg i _ => hstep hg (assignSlot_assigns i)
  exact List.foldlRecOn (motive := Good) _ _ hslots fun l hg i _ =>
    List.foldlRecOn (motive := Good) _ _ hg fun l hg flow _ => hstep hg (assignFlow_assigns i flow)

end Loop

/-! ## Preparing and reconciling -/

namespace Slot

/-- A delivery that owns its action behind a call, and stands at its flow, stood there before. -/
def Steady (s s' : Slot) : Prop :=
  ∀ k group', (s'.groupDeliveries k).ownsAction = true → s'.group = some group' →
    (group'.flows k).Out → ∃ group, s.group = some group ∧ group'.flows k = group.flows k

/-- What a poll does to a slot before it assigns actions. -/
structure Renews (s s' : Slot) : Prop extends Frees s s' where
  steady : Steady s s'

theorem Renews.refl (s : Slot) : Renews s s :=
  ⟨Frees.refl s, fun _ group' _ hgroup _ => ⟨group', hgroup, rfl⟩⟩

theorem Renews.trans {s t u : Slot} (h : Renews s t) (h' : Renews t u) : Renews s u := by
  refine ⟨h.toFrees.trans h'.toFrees, fun k group' howns hgroup hout => ?_⟩
  obtain ⟨group, hsome, hsame⟩ := h'.steady k group' howns hgroup hout
  have hdelivery := h'.flows k howns
  obtain ⟨first, hfirst, hflow⟩ := h.steady k group (hdelivery ▸ howns) hsome (hsame ▸ hout)
  exact ⟨first, hfirst, hsame.trans hflow⟩

theorem Renews.of_none {s t : Slot} (h : Frees s t) (hnone : s.group = none) : Renews s t := by
  refine ⟨h, fun k group' _ hsome _ => ?_⟩
  have hgrouped := h.grouped
  rw [hsome, hnone] at hgrouped
  cases hgrouped

end Slot

namespace AtSlot

open Slot (Renews)

variable {image : Image} {bound : Nat} {w w' : AtSlot} {i : FlowIndex}

theorem FlowEnds.group {group' : GroupExecution} {record : Journal.Record}
    (h : FlowEnds w i group' record w') : w'.slot.group = some group' := by
  obtain ⟨v, u, hcloses, hfinish, rfl⟩ := h
  rw [advance_slot, (finishGroupTransition_marked hfinish).sameHold.group, hcloses.slot]

theorem prepareFlow_renews (h : w.prepareFlow image i = some (.ok, w')) :
    Renews w.slot w'.slot := by
  refine ⟨prepareFlow_frees h, fun k group₁ howns hgroup₁ _ => ?_⟩
  rcases prepareFlow_ok h with rfl | ⟨group, invocation, group', journal, hgroup, hprepare, rfl⟩
  · exact ⟨group₁, hgroup₁, rfl⟩
  · obtain ⟨-, -, -, -, rfl⟩ := GroupExecution.prepare_ok hprepare
    by_cases hk : k = i
    · subst hk
      simp [setDelivery] at howns
    · cases hgroup₁
      exact ⟨group, hgroup, GroupExecution.setFlow_flows_of_ne _ _ hk⟩

theorem reconcileFlow_renews (h : w.reconcileFlow image bound i = some (.ok, w')) :
    Renews w.slot w'.slot := by
  refine ⟨reconcileFlow_frees h, fun k group₁ _ hgroup₁ hout => ?_⟩
  rcases reconcileFlow_ok h with
    ⟨rfl, -⟩ | ⟨-, -, -, group, hgroup, ⟨-, rfl⟩ | ⟨group', -, hmark, hends⟩⟩
  · exact ⟨group₁, hgroup₁, rfl⟩
  · exact ⟨group₁, hgroup₁, rfl⟩
  · rw [hends.group] at hgroup₁
    cases hgroup₁
    rcases GroupExecution.deliveryOutcome_cases (.inr rfl) hmark with ⟨hbad, -⟩ | ⟨-, -, -, hcloses⟩
    · exact absurd rfl hbad
    · rcases hcloses.flows k with hreleased | ⟨-, hsame⟩
      · rw [hout.1] at hreleased
        cases hreleased
      · exact ⟨group, hgroup, hsame⟩

theorem each_renews {ι : Type} {body : ι → AtSlot → Call LoopResult AtSlot}
    (hbody : ∀ k {w w' : AtSlot}, body k w = some (.ok, w') → Renews w.slot w'.slot) :
    ∀ (ks : List ι) {w w' : AtSlot}, Call.each body ks w = some (.ok, w') →
      Renews w.slot w'.slot
  | [], w, w', h => by cases h; exact Renews.refl _
  | k :: ks, w, w', h => by
      obtain ⟨u, hu, h⟩ := Call.andThen_ok h
      exact (hbody k hu).trans (each_renews hbody ks h)

/-- Preparing takes no action: what is ready owns none. -/
theorem prepareSlot_renews (ht : w.slot.Tidy) (h : w.prepareSlot image = some (.ok, w')) :
    Renews w.slot w'.slot := by
  unfold prepareSlot at h
  split at h
  · cases h; exact Renews.refl _
  split at h
  · exact each_renews (fun _ => prepareFlow_renews) _ h
  rename_i hgroup
  split at h
  · cases h; exact Renews.refl _
  rename_i hready
  have hnone : w.slot.group = none := by simpa using hgroup
  have hfree : w.slot.ownsAction = false := by
    cases howns : w.slot.ownsAction with
    | false => rfl
    | true =>
        have hready : w.slot.ready = true := not_not.mp hready
        have hout := ht hnone howns
        unfold Slot.ready at hready
        unfold Slot.prepared Slot.sent at hout
        cases hc : w.slot.compensating <;> simp_all
  refine Renews.of_none ?_ hnone
  split at h
  · obtain ⟨invocation, packet, driver, log, -, rfl⟩ := prepareCompensation_ok h
    exact Slot.Released.frees ⟨rfl, rfl, rfl, hfree⟩
  · obtain ⟨invocation, packet, execution, journal, -, rfl⟩ := prepareExecution_ok h
    exact Slot.Released.frees ⟨rfl, rfl, rfl, hfree⟩

theorem reconcileSlot_renews (h : w.reconcileSlot image bound = some (.ok, w')) :
    Renews w.slot w'.slot := by
  unfold reconcileSlot at h
  split at h
  · cases h; exact Renews.refl _
  split at h
  · exact each_renews (fun _ => reconcileFlow_renews) _ h
  rename_i hgroup
  refine Renews.of_none ?_ (by simpa using hgroup)
  split at h
  · cases h; exact Slot.Frees.refl _
  split at h
  · cases h
    exact Slot.Released.frees ⟨rfl, rfl, rfl, rfl⟩
  split at h
  · obtain ⟨driver, log, -, rfl⟩ := loseCompensation_ok h
    exact Slot.Released.frees ⟨rfl, rfl, rfl, rfl⟩
  · have hreleased := loseExecution_released h
    exact Slot.Released.frees ⟨hreleased.active, hreleased.group, hreleased.deliveries,
      hreleased.ownsAction⟩

end AtSlot

namespace Loop

open Slot (Renews Frees)

variable {image : Image} {bound : Nat} {loop loop' : Loop}

/-- What is done at one slot after the other renews all of them. -/
theorem each_onSlot_renews {call : AtSlot → Call LoopResult AtSlot}
    (hcall : ∀ {w w' : AtSlot}, w.slot.Tidy → call w = some (.ok, w') → Renews w.slot w'.slot) :
    ∀ (order : List SlotIndex) {loop loop' : Loop}, (∀ i, (loop.slots i).Tidy) →
      Call.each (fun i => onSlot i call) order loop = some (.ok, loop') →
      ∀ i, Renews (loop.slots i) (loop'.slots i)
  | [], loop, loop', _, h, i => by cases h; exact Renews.refl _
  | j :: order, loop, loop', ht, h, i => by
      obtain ⟨loop₁, hj, h⟩ := Call.andThen_ok h
      obtain ⟨w, hw, rfl⟩ := onSlot_some hj
      have hslot : Renews (loop.slots j) w.slot := hcall (ht j) hw
      have hrest := each_onSlot_renews hcall order (put_tidy hslot.toFrees ht) h i
      by_cases hi : i = j
      · subst hi
        rw [put_slots_self] at hrest
        exact hslot.trans hrest
      · rwa [put_slots_of_ne _ _ hi] at hrest

/-- A poll prepares and reconciles every slot, and then assigns actions. -/
theorem beginPoll_ok (ht : ∀ i, (loop.slots i).Tidy)
    (h : loop.beginPoll image bound = some (.ok, loop')) :
    ∃ loop₁ : Loop, (∀ i, Renews (loop.slots i) (loop₁.slots i)) ∧
      loop' = loop₁.assignAvailableActions := by
  obtain ⟨prepared, hprepare, hrest⟩ := Call.andThen_ok h
  obtain ⟨cursor, hcursor, rfl⟩ := Call.andThen_done_ok hprepare
  obtain ⟨reconciled, hreconcile, hassign⟩ := Call.andThen_ok hrest
  have hfirst : ∀ i, Renews (({ loop with progress := 0 } : Loop).slots i) (cursor.slots i) :=
    each_onSlot_renews (fun hw => AtSlot.prepareSlot_renews hw) _ ht hcursor
  have htidy : ∀ i, (cursor.slots i).Tidy := fun i => (hfirst i).tidy (ht i)
  have hsecond : ∀ i, Renews (({ cursor with
      schedulerCursor := (cursor.schedulerCursor + 1) % maxExecutions } : Loop).slots i)
      (reconciled.slots i) :=
    each_onSlot_renews (fun _ => AtSlot.reconcileSlot_renews) _ htidy hreconcile
  simp only at hassign
  refine ⟨reconciled, fun i => (hfirst i).trans (hsecond i), ?_⟩
  split at hassign
  · have hstatus := (Prod.mk.inj (Option.some.inj hassign)).1
    exact absurd hstatus (by decide)
  · exact (Prod.mk.inj (Option.some.inj hassign)).2.symm

theorem loses_of_frees (h : ∀ i, Frees (loop.slots i) (loop'.slots i)) : Loses loop loop' := by
  intro item action howns
  have hput : Loses loop (loop.put item.slot { loop.toShared with slot := loop'.slots item.slot }) :=
    put_loses (h item.slot)
  refine hput item action ?_
  unfold Owns ownsAt actionAt at howns ⊢
  rw [put_slots_self]
  exact howns

theorem loses_of_slots (h : loop'.slots = loop.slots) : Loses loop loop' := by
  intro item action howns
  unfold Owns ownsAt actionAt at howns ⊢
  rwa [h] at howns

/-- A slot that is filled anew owns nothing, and nothing of it is out. -/
structure Unowned (slot : Slot) : Prop where
  ownsAction : slot.ownsAction = false
  deliveries : ∀ k, (slot.groupDeliveries k).ownsAction = false
  unsent : slot.sent = false
  flows : ∀ group, slot.group = some group → ∀ k, ¬ (group.flows k).Out
  calm : slot.compensating = true → slot.execution.state = .complete

theorem update_loses {i : SlotIndex} {slot : Slot} (hslots : loop'.slots =
    Function.update loop.slots i slot) (h : Unowned slot) : Loses loop loop' := by
  rintro ⟨j, flow⟩ action ⟨howns, haction⟩
  unfold ownsAt at howns
  unfold actionAt at haction
  rw [hslots] at howns haction
  by_cases hj : j = i
  · subst hj
    simp only [Function.update_self, Bool.and_eq_true] at howns
    cases flow with
    | none => rw [h.ownsAction] at howns; simp at howns
    | some k => simp only [h.deliveries] at howns; simp at howns
  · simp only [Function.update_of_ne hj] at howns haction
    exact ⟨howns, haction⟩

theorem update_tidy {i : SlotIndex} {slot : Slot} (hslots : loop'.slots =
    Function.update loop.slots i slot) (h : Unowned slot) (ht : ∀ j, (loop.slots j).Tidy)
    (j : SlotIndex) : (loop'.slots j).Tidy := by
  rw [hslots]
  by_cases hj : j = i
  · subst hj
    rw [Function.update_self]
    intro _ howns
    rw [h.ownsAction] at howns
    cases howns
  · rw [Function.update_of_ne hj]
    exact ht j

theorem unowned_empty : Unowned {} where
  ownsAction := rfl
  deliveries := fun _ => rfl
  unsent := rfl
  flows := by
    intro group hgroup
    cases hgroup
  calm := by
    intro hcompensating
    cases hcompensating

/-- The slot of an execution that was admitted. -/
theorem Unowned.admitted {slot : Slot} (h : Unowned slot) : Unowned { slot with active := true } :=
  ⟨h.ownsAction, h.deliveries, h.unsent, h.flows, h.calm⟩

theorem unowned_group {executionId : UInt64} {capacity stride : Nat} {inputType : UInt16}
    {input : Bytes} {group : GroupExecution} {g : Fin maxGroupExecutions}
    (h : GroupExecution.start image bound executionId capacity stride inputType input =
      some (.ok group)) : Unowned { group := some group, groupIndex := g } where
  ownsAction := rfl
  deliveries := fun _ => rfl
  unsent := rfl
  flows := by
    intro started hgroup k
    cases hgroup
    exact GroupExecution.starts_out ⟨bound, executionId, capacity, stride, inputType, input, h⟩ k
  calm := by
    intro hcompensating
    cases hcompensating

theorem unowned_execution {executionId : UInt64} {capacity : Nat} {inputType : UInt16}
    {input : Bytes} {execution : Execution}
    (h : Execution.start image executionId capacity inputType input = .ok execution) :
    Unowned { execution } where
  ownsAction := rfl
  deliveries := fun _ => rfl
  unsent := by
    have hready := (Execution.start_ready h).1
    simp [Slot.sent, hready]
  flows := by
    intro group hgroup
    cases hgroup
  calm := by
    intro hcompensating
    cases hcompensating

theorem unowned_resumed {execution : Saga.Execution} {driver : Saga.Driver}
    {log log' : Saga.Log.Writer} {result : Option ResultStore.Record}
    (hready : execution.state = .ready)
    (h : Saga.Driver.start {} execution log true = (.ok, driver, log')) :
    Unowned (resumedSlot driver result) where
  ownsAction := rfl
  deliveries := fun _ => rfl
  unsent := by
    have hdriver := Saga.Driver.resume_ok hready h
    simp [Slot.sent, resumedSlot, hdriver, hready]
  flows := by
    intro group hgroup
    cases hgroup
  calm := fun _ => rfl

/-- The connections are as they were, and so are the slots, but for one that is filled anew. -/
def Refilled (loop loop' : Loop) : Prop :=
  loop'.registry = loop.registry ∧ (loop'.slots = loop.slots ∨
    ∃ i slot, Unowned slot ∧ loop'.slots = Function.update loop.slots i slot)

theorem refilled_admitSlot {i : SlotIndex} {slot : Slot} {used : Fin maxGroupExecutions → Bool}
    {r : LoopResult} (hslot : Unowned slot) (h : loop.admitSlot i slot used = some (r, loop')) :
    Refilled loop loop' := by
  unfold admitSlot at h
  split at h
  · cases h
  · rename_i w hw
    obtain ⟨journal, -, rfl⟩ := AtSlot.journalRecord_ok hw
    cases h
    exact ⟨rfl, .inr ⟨i, { slot with active := true }, hslot.admitted, rfl⟩⟩
  · cases h
    exact ⟨rfl, .inr ⟨i, {}, unowned_empty, rfl⟩⟩

theorem refilled_admitExecution {executionId : UInt64} {inputType : UInt16} {input : Bytes}
    {r : LoopResult}
    (h : loop.admitExecution image bound executionId inputType input = some (r, loop')) :
    Refilled loop loop' := by
  unfold admitExecution at h
  split at h
  · cases h; exact ⟨rfl, .inl rfl⟩
  split at h
  · cases h; exact ⟨rfl, .inl rfl⟩
  split at h
  · cases h; exact ⟨rfl, .inl rfl⟩
  split at h
  · cases h; exact ⟨rfl, .inl rfl⟩
  rename_i i _
  simp only at h
  split at h
  · split at h
    · cases h; exact ⟨rfl, .inr ⟨i, {}, unowned_empty, rfl⟩⟩
    · split at h
      · cases h
      · cases h; exact ⟨rfl, .inr ⟨i, {}, unowned_empty, rfl⟩⟩
      · rename_i hstart
        exact refilled_admitSlot (unowned_group hstart) h
  · split at h
    · cases h; exact ⟨rfl, .inr ⟨i, {}, unowned_empty, rfl⟩⟩
    · rename_i hstart
      exact refilled_admitSlot (unowned_execution hstart) h

theorem refilled_release {executionId : UInt64} {r : LoopResult}
    (h : loop.release executionId = some (r, loop')) : Refilled loop loop' := by
  unfold release at h
  split at h
  · cases h; exact ⟨rfl, .inl rfl⟩
  split at h
  · cases h; exact ⟨rfl, .inl rfl⟩
  rename_i i _
  simp only at h
  split at h
  · cases h; exact ⟨rfl, .inl rfl⟩
  · cases h; exact ⟨rfl, .inr ⟨i, {}, unowned_empty, rfl⟩⟩

theorem refilled_resumeSaga {execution : Saga.Execution} {r : LoopResult}
    (h : loop.resumeSaga image execution = some (r, loop')) : Refilled loop loop' := by
  unfold resumeSaga at h
  split at h
  · cases h; exact ⟨rfl, .inl rfl⟩
  rename_i hopen
  simp only [not_or, not_not] at hopen
  split at h
  · cases h; exact ⟨rfl, .inl rfl⟩
  rename_i i _
  simp only at h
  split at h
  · rename_i driver log hstart
    have hresumed : ∀ result, Unowned (resumedSlot driver result) := fun result =>
      unowned_resumed hopen.1 hstart
    split at h
    · split at h
      · cases h; exact ⟨rfl, .inr ⟨i, {}, unowned_empty, rfl⟩⟩
      · cases h; exact ⟨rfl, .inr ⟨i, _, hresumed _, rfl⟩⟩
    · cases h; exact ⟨rfl, .inr ⟨i, _, hresumed _, rfl⟩⟩
  · cases h; exact ⟨rfl, .inr ⟨i, {}, unowned_empty, rfl⟩⟩

end Loop

namespace Host

open Loop

variable {image : Image} {host host' : Host}

/-- The calls between two polls. -/
theorem between_some {call : Call LoopResult Loop} (h : host.between call = some host') :
    host.pending = [] ∧ ∃ r loop, call = some (r, loop) ∧
      host' = { host with toLoop := loop, outstanding := host.stillOutstanding loop none } := by
  unfold between at h
  split at h
  · rename_i hpending
    cases hcall : call with
    | none => rw [hcall] at h; cases h
    | some p =>
        rw [hcall] at h
        cases h
        exact ⟨hpending, p.1, p.2, rfl, rfl⟩
  · cases h

/-- Every action serves one execution, and in it the items of one region. -/
structure SingleFlight (host : Host) : Prop where
  exclusive : host.Exclusive
  shared : host.Shared fun item => host.outstanding item = true

/-- Deliveries that stay outstanding share their regions if they did before. -/
theorem stillOutstanding_shared (hs : host.Shared fun item => host.outstanding item = true)
    {loop : Loop} {served : Option PollItem} (hl : Loses host.toLoop loop) :
    loop.Shared fun item => host.stillOutstanding loop served item = true := by
  have hregion : ∀ {i k}, host.stillOutstanding loop served ⟨i, some k⟩ = true →
      ∃ flow flow', host.flowAt ⟨i, some k⟩ = some flow ∧ loop.flowAt ⟨i, some k⟩ = some flow' ∧
        flow'.eachRegion = flow.eachRegion := by
    intro i k h
    simp only [stillOutstanding, Bool.and_eq_true, Bool.or_eq_true, beq_iff_eq] at h
    obtain ⟨⟨-, hout⟩, hflow⟩ := h
    have hsome : ∃ flow', loop.flowAt ⟨i, some k⟩ = some flow' := by
      simp only [preparedAt, sentAt, inState, Bool.and_eq_true, Option.any_eq_true] at hout
      rcases hout with ⟨-, flow', hflow', -⟩ | ⟨-, flow', hflow', -⟩ <;> exact ⟨flow', hflow'⟩
    obtain ⟨flow', hflow'⟩ := hsome
    rw [hflow'] at hflow
    rcases hflow with hsame | ⟨-, hsent⟩
    · exact ⟨flow', flow', hsame.symm, hflow', rfl⟩
    · cases hbefore : host.flowAt ⟨i, some k⟩ with
      | none => rw [hbefore] at hsent; cases hsent
      | some flow =>
          rw [hbefore] at hsent
          cases hsent
          exact ⟨flow, _, rfl, hflow', rfl⟩
  intro i k m action hne hk hm howns howns'
  have hopen : ∀ {item}, host.stillOutstanding loop served item = true →
      host.outstanding item = true := fun h => by
    simp only [stillOutstanding, Bool.and_eq_true] at h
    exact h.1.1
  have hbefore := hs i k m action hne (hopen hk) (hopen hm) (hl _ _ howns) (hl _ _ howns')
  obtain ⟨flow, flow', hflow, hflow', hsame⟩ := hregion hk
  obtain ⟨other, other', hother, hother', hsame'⟩ := hregion hm
  obtain ⟨group, hgroup, hzero, hregions⟩ := sameRegion_iff.mp hbefore
  simp only [flowAt, Option.bind_some, hgroup, Option.map_some, Option.some.injEq] at hflow hother
  cases hgroup' : (loop.slots i).group with
  | none => simp [flowAt, hgroup'] at hflow'
  | some group' =>
      simp only [flowAt, Option.bind_some, hgroup', Option.map_some, Option.some.injEq]
        at hflow' hother'
      refine sameRegion_iff.mpr ⟨group', hgroup', ?_, ?_⟩
      · rw [hflow', hsame, ← hflow]; exact hzero
      · rw [hflow', hsame, ← hflow, hother', hsame', ← hother]; exact hregions

/-- A call between polls refills one slot at most. -/
theorem SingleFlight.between (h : host.SingleFlight) {loop : Loop}
    (hr : Refilled host.toLoop loop) :
    SingleFlight { host with
      toLoop := loop, outstanding := host.stillOutstanding loop none } := by
  have hl : Loses host.toLoop loop ∧ ∀ i, (loop.slots i).Tidy := by
    rcases hr with ⟨-, hsame | ⟨i, slot, hslot, hslots⟩⟩
    · exact ⟨loses_of_slots hsame, fun i => by rw [hsame]; exact h.exclusive.tidy i⟩
    · exact ⟨update_loses hslots hslot, update_tidy hslots hslot h.exclusive.tidy⟩
  exact ⟨h.exclusive.loses hl.2 hl.1, stillOutstanding_shared h.shared hl.1⟩

/-- What owns its action behind the reconciliation and is out was outstanding before the poll. -/
theorem beginPoll_shared (h : host.SingleFlight) {loop₁ : Loop}
    (hrenews : ∀ i, Slot.Renews (host.slots i) (loop₁.slots i)) :
    loop₁.Shared fun item =>
      ((loop₁.assignAvailableActions.preparedAt item ||
        loop₁.assignAvailableActions.sentAt item) &&
        (host.outstanding item || host.readyAt item)) = true := by
  have hl : Loses host.toLoop loop₁ := loses_of_frees fun i => (hrenews i).toFrees
  have hnone : loop₁.Shared fun _ => False := fun _ _ _ _ _ hk => hk.elim
  have hsame := (assignAvailableActions_keeps (h.exclusive.loses
    (fun i => (hrenews i).tidy (h.exclusive.tidy i)) hl) hnone).1
  have hstood : ∀ {i k action}, ((loop₁.assignAvailableActions.preparedAt ⟨i, some k⟩ ||
      loop₁.assignAvailableActions.sentAt ⟨i, some k⟩) &&
      (host.outstanding ⟨i, some k⟩ || host.readyAt ⟨i, some k⟩)) = true →
      loop₁.Owns ⟨i, some k⟩ action → host.outstanding ⟨i, some k⟩ = true ∧
        ∃ group group', (host.slots i).group = some group ∧
          (loop₁.slots i).group = some group' ∧ group'.flows k = group.flows k := by
    intro i k action hout howns
    rw [hsame.preparedAt, hsame.sentAt, Bool.and_eq_true, Bool.or_eq_true, Bool.or_eq_true] at hout
    obtain ⟨hstate, hwas⟩ := hout
    cases hgroup' : (loop₁.slots i).group with
    | none => simp [preparedAt, sentAt, inState, flowAt, hgroup'] at hstate
    | some group' =>
        simp only [preparedAt, sentAt, inState, flowAt, Option.bind_some, hgroup',
          Option.map_some, Option.any_some, Bool.and_eq_true, beq_iff_eq] at hstate
        have hout : (group'.flows k).Out := by
          rcases hstate with ⟨-, hactive, hstate⟩ | ⟨-, hactive, hstate⟩
          · exact ⟨hactive, .inl hstate⟩
          · exact ⟨hactive, .inr hstate⟩
        have hdelivery : ((loop₁.slots i).groupDeliveries k).ownsAction = true := by
          have howns := howns.1
          simp only [ownsAt, Bool.and_eq_true] at howns
          exact howns.2.2
        obtain ⟨group, hgroup, hflow⟩ := (hrenews i).steady k group' hdelivery hgroup' hout
        refine ⟨?_, group, group', hgroup, rfl, hflow⟩
        rcases hwas with hwas | hready
        · exact hwas
        · -- a flow that was ready was not out
          simp only [readyAt, inState, flowAt, Option.bind_some, hgroup, Option.map_some,
            Option.any_some, Bool.and_eq_true, beq_iff_eq] at hready
          rw [hflow] at hout
          have hstate := hout.2
          rw [hready.2.2] at hstate
          simp at hstate
  intro i k m action hne hk hm howns howns'
  obtain ⟨hbefore, group, group', hgroup, hgroup', hflow⟩ := hstood hk howns
  obtain ⟨hbefore', first, first', hfirst, hfirst', hflow'⟩ := hstood hm howns'
  rw [hgroup] at hfirst
  rw [hgroup'] at hfirst'
  cases hfirst
  cases hfirst'
  obtain ⟨group₀, hgroup₀, hregion⟩ := sameRegion_iff.mp
    (h.shared i k m action hne hbefore hbefore' (hl _ _ howns) (hl _ _ howns'))
  rw [hgroup] at hgroup₀
  cases hgroup₀
  exact sameRegion_iff.mpr ⟨group', hgroup', by rw [hflow, hflow']; exact hregion⟩

theorem singleFlight_init (h : Opened image host) : host.SingleFlight := by
  have hnone : ∀ item action, ¬ host.Owns item action := by
    intro item action howns
    have howns := howns.1
    unfold ownsAt at howns
    rw [h.slots] at howns
    simp at howns
  refine ⟨⟨fun i => ?_, fun ha => absurd ha (hnone _ _)⟩,
    fun i k m action _ _ _ howns => absurd howns (hnone _ _)⟩
  rw [h.slots]
  intro _ howns
  cases howns

theorem singleFlight_step {move : Move} (h : host.SingleFlight)
    (hm : Performs image host move host') : host'.SingleFlight := by
  obtain ⟨bound, hm⟩ := hm
  cases move with
  | admission executionId inputType input =>
      obtain ⟨-, r, loop, hcall, rfl⟩ := between_some hm
      exact h.between (refilled_admitExecution hcall)
  | release executionId =>
      obtain ⟨-, r, loop, hcall, rfl⟩ := between_some hm
      exact h.between (refilled_release hcall)
  | resumeSaga execution =>
      obtain ⟨-, r, loop, hcall, rfl⟩ := between_some hm
      exact h.between (refilled_resumeSaga hcall)
  | publish index registeredActionId =>
      simp only [perform] at hm
      split at hm
      · cases hm
        exact ⟨h.exclusive.of_slots rfl, h.shared⟩
      · cases hm
  | beginPoll =>
      simp only [perform] at hm
      split at hm
      · split at hm
        · rename_i loop hbegin
          cases hm
          obtain ⟨loop₁, hrenews, hassign⟩ := beginPoll_ok h.exclusive.tidy hbegin
          have hl : Loses host.toLoop loop₁ := loses_of_frees fun i => (hrenews i).toFrees
          have hx : loop₁.Exclusive := h.exclusive.loses
            (fun i => (hrenews i).tidy (h.exclusive.tidy i)) hl
          have hshared := beginPoll_shared h hrenews
          have hkeeps := assignAvailableActions_keeps hx hshared
          rw [← hassign] at hkeeps
          exact ⟨hkeeps.2.1, hkeeps.2.2⟩
        · cases hm
      · cases hm
  | serve event =>
      simp only [perform] at hm
      split at hm
      · cases hm
      rename_i item rest _
      split at hm
      · rename_i loop hserve
        cases hm
        obtain ⟨w, rfl, hw⟩ := serve_some hserve
        have hf : Slot.Frees (host.slots item.slot) w.slot := by
          rcases hw with ⟨flow, -, hw⟩ | ⟨-, hw⟩
          · exact serveFlow_frees hw
          · exact serveSlot_frees hw
        exact ⟨h.exclusive.put hf, stillOutstanding_shared h.shared (put_loses hf)⟩
      · cases hm

theorem singleFlight_reachable (h : (system image).Reach host) : host.SingleFlight :=
  System.ReachWhere.invariant (P := SingleFlight) (fun _ => singleFlight_init)
    (fun _ _ _ hs _ hstep => singleFlight_step hs hstep) h

/-- **Single flight per action.** Whatever the interleaving of admissions, polls, drops and
registrations: two deliveries that are outstanding and own the same action belong to the same
execution and to the same each region. -/
theorem single_flight (h : (system image).Reach host) {item other : PollItem}
    {action : UInt16 × UInt16} (hne : item ≠ other) (hout : host.outstanding item = true)
    (hout' : host.outstanding other = true) (howns : host.Owns item action)
    (howns' : host.Owns other action) :
    item.slot = other.slot ∧ ∃ k m, item.flow = some k ∧ other.flow = some m ∧
      sameRegion (host.slots item.slot) k m = true := by
  have hsingle := singleFlight_reachable h
  have hslot := hsingle.exclusive.single howns howns'
  obtain ⟨i, flow⟩ := item
  obtain ⟨j, otherFlow⟩ := other
  simp only at hslot
  subst hslot
  refine ⟨rfl, ?_⟩
  have hgroups := howns.1
  have hgroups' := howns'.1
  cases flow with
  | none =>
      cases otherFlow with
      | none => exact absurd rfl hne
      | some m =>
          -- a slot is either sequential or grouped
          simp only [ownsAt, Bool.and_eq_true] at hgroups hgroups'
          obtain ⟨-, hnone, -⟩ := hgroups
          obtain ⟨-, hsome, -⟩ := hgroups'
          rw [← Option.not_isSome, hsome] at hnone
          cases hnone
  | some k =>
      cases otherFlow with
      | none =>
          simp only [ownsAt, Bool.and_eq_true] at hgroups hgroups'
          obtain ⟨-, hsome, -⟩ := hgroups
          obtain ⟨-, hnone, -⟩ := hgroups'
          rw [← Option.not_isSome, hsome] at hnone
          cases hnone
      | some m =>
          refine ⟨k, m, rfl, rfl, hsingle.shared i k m action (fun hkm => hne ?_) hout hout'
            howns howns'⟩
          rw [hkm]

/-- Two items of one list go out to one app. -/
def twoItems : List Move :=
  [.publish 0 1, .admission 1 2 [2, 0, 0, 0, 0, 0, 0, 0, 0, 1], .beginPoll,
    .serve { pollOut := true }, .serve { pollOut := true }]

set_option maxRecDepth 20000 in
theorem single_flight_twoItems : ∃ host, (system GroupExecution.eachImage).Reach host ∧
    host.Owns ⟨⟨0, by decide⟩, some 0⟩ (1, 1) ∧ host.Owns ⟨⟨0, by decide⟩, some 1⟩ (1, 1) ∧
    ∃ k m, some 0 = some k ∧ some 1 = some m ∧
      sameRegion (host.slots ⟨0, by decide⟩) k m = true := by
  have hsome : ((fresh GroupExecution.eachImage).performAll GroupExecution.eachImage 10
      twoItems).isSome = true := by decide +kernel
  have hall : ((fresh GroupExecution.eachImage).performAll GroupExecution.eachImage 10
      twoItems).all (fun host => [0, 1].all fun k =>
        host.outstanding ⟨⟨0, by decide⟩, some k⟩ && host.ownsAt ⟨⟨0, by decide⟩, some k⟩ &&
          host.actionAt ⟨⟨0, by decide⟩, some k⟩ == (1, 1)) = true := by decide +kernel
  obtain ⟨host, hhost⟩ := Option.isSome_iff_exists.mp hsome
  rw [hhost] at hall
  simp only [Option.all_some, List.all_cons, List.all_nil, Bool.and_true, Bool.and_eq_true,
    beq_iff_eq] at hall
  obtain ⟨⟨⟨hout, howns⟩, haction⟩, ⟨hout', howns'⟩, haction'⟩ := hall
  have hreach := reach_performAll twoItems (.init (opened_fresh (by decide +kernel))) hhost
  obtain ⟨-, hregion⟩ := single_flight hreach (by decide) hout hout' ⟨howns, haction⟩
    ⟨howns', haction'⟩
  exact ⟨host, hreach, ⟨howns, haction⟩, ⟨howns', haction'⟩, hregion⟩

end Host

end Hermas.Daemon
