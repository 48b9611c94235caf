import Hermas.Daemon.Connections

/-!
# Deliveries stay with their connections

What `Connections` says of the calls on a slot is put together here to what holds in
every run: a delivery that is out as sent is served by the connection it was sent on,
or by none. A delivery that lost its connection is put on record as unknown by the next
poll, before any app that registers can serve it, unless the app registers between the
two.
-/

namespace Hermas.Daemon

open Loop (PollItem Event)

/-- The record that a delivery of the execution is closed as unknown. -/
def Effect.Loses (executionId : UInt64) (delivery : Delivery) : Effect → Prop
  | .journal r => r.kind = .actionUnknown ∧ r.outcome = .unknown ∧
      r.executionId = executionId ∧ r.requestId = delivery.requestId ∧
      r.appId = delivery.appId ∧ r.actionId = delivery.actionId
  | _ => False

namespace AtSlot

variable {image : Image} {bound : Nat} {w w' : AtSlot} {i k : FlowIndex}

/-- A call that puts no result on record and drops no connection. -/
structure Passes (w w' : AtSlot) : Prop where
  silent : Silent w w'
  registry : w'.registry = w.registry

theorem Passes.refl (w : AtSlot) : Passes w w := ⟨Silent.refl w, rfl⟩

theorem Passes.trans {u : AtSlot} (h : Passes w u) (h' : Passes u w') : Passes w w' :=
  ⟨h.silent.trans h'.silent, h'.registry.trans h.registry⟩

theorem prepareFlow_passes (h : w.prepareFlow image i = some (.ok, w')) : Passes w w' := by
  rcases prepareFlow_ok h with rfl | ⟨group, invocation, group', journal, -, -, rfl⟩
  · exact Passes.refl _
  · exact ⟨Silent.one rfl (by simp [Effect.answer, deliveryRecord]), rfl⟩

/-- A delivery that is given up is put on record as unknown. -/
theorem FlowEnds.tells {group' : GroupExecution} {record : Journal.Record}
    (h : FlowEnds w i group' record w') :
    ∃ effects, w'.history = w.history ++
      Effect.journal { record with sequence := w.journal.nextSequence } :: effects ∧
        ∀ e ∈ effects, e.answer = none := by
  obtain ⟨v, u, hcloses, hfinish, rfl⟩ := h
  obtain ⟨effects, hhistory, hsilent⟩ := finishGroupTransition_silent hfinish
  refine ⟨effects, ?_, hsilent⟩
  rw [advance, hhistory, hcloses.history, List.append_assoc]
  rfl

theorem reconcileFlow_passes (h : w.reconcileFlow image bound i = some (.ok, w')) :
    Passes w w' := by
  rcases reconcileFlow_ok h with
    ⟨rfl, -⟩ | ⟨-, hregistry, -, group, -, ⟨-, rfl⟩ | ⟨group', -, -, hends⟩⟩
  · exact Passes.refl _
  · exact ⟨Silent.refl w, rfl⟩
  · refine ⟨?_, hregistry⟩
    obtain ⟨effects, hhistory, hsilent⟩ := hends.tells
    refine ⟨_, hhistory, fun e he => ?_⟩
    rcases List.mem_cons.mp he with rfl | he
    · simp [Effect.answer, deliveryRecord]
    · exact hsilent e he

theorem prepareSlot_passes (h : w.prepareSlot image = some (.ok, w')) : Passes w w' := by
  unfold prepareSlot at h
  split at h
  · cases h; exact Passes.refl _
  split at h
  · exact Call.each_rel Passes.refl Passes.trans (fun _ _ _ => prepareFlow_passes) _ h
  split at h
  · cases h; exact Passes.refl _
  split at h
  · obtain ⟨invocation, packet, driver, log, hprepare, rfl⟩ := prepareCompensation_ok h
    obtain ⟨execution, -, -, rfl, r, hkind, hwritten⟩ := Saga.Driver.prepare_ok hprepare
    have hhistory : (w.setSaga { w.slot.saga with execution } log).history =
        w.history ++ [Effect.saga r] := setSaga_history hwritten
    exact ⟨Silent.one hhistory (by simp [Effect.answer, hkind]), rfl⟩
  · obtain ⟨invocation, packet, execution, journal, -, rfl⟩ := prepareExecution_ok h
    exact ⟨Silent.one rfl (by simp [Effect.answer, actionRecord]), rfl⟩

theorem loseExecution_passes (h : w.loseExecution image = some (.ok, w')) : Passes w w' := by
  obtain ⟨journal, execution, u, -, -, hu, rfl⟩ := loseExecution_ok h
  have hfirst : Silent w (w.recorded journal (w.actionRecord .actionUnknown .unknown)) :=
    Silent.one rfl (by simp [Effect.answer, actionRecord])
  have hfinished := appendFinished_silent hu
  exact ⟨hfirst.trans hfinished, (appendFinished_marked hu).registry⟩

theorem loseCompensation_passes (h : w.loseCompensation = some (.ok, w')) : Passes w w' := by
  obtain ⟨driver, log, hmark, rfl⟩ := loseCompensation_ok h
  obtain ⟨-, -, r, f, hkind, -, hfinished, hwritten⟩ := Saga.Driver.markUnknown_ok hmark
  exact ⟨driver_silent hwritten (by simp [Effect.answer, hkind]) hfinished rfl, rfl⟩

theorem reconcileSlot_passes (h : w.reconcileSlot image bound = some (.ok, w')) :
    Passes w w' := by
  unfold reconcileSlot at h
  split at h
  · cases h; exact Passes.refl _
  split at h
  · exact Call.each_rel Passes.refl Passes.trans (fun _ _ _ => reconcileFlow_passes) _ h
  split at h
  · cases h; exact Passes.refl _
  split at h
  · cases h; exact ⟨Silent.refl w, rfl⟩
  split at h
  · have hpasses : Passes w.releaseAction w' := loseCompensation_passes h
    exact ⟨hpasses.silent, hpasses.registry⟩
  · have hpasses : Passes w.releaseAction w' := loseExecution_passes h
    exact ⟨hpasses.silent, hpasses.registry⟩

/-! ## A delivery without a connection -/

/-- The flow is sent, and what serves it is gone. -/
structure Cut (executionId : UInt64) (k : FlowIndex) (delivery : Delivery) (w : AtSlot) :
    Prop where
  active : w.slot.active = true
  sent : ∃ group, w.slot.group = some group ∧ group.executionId = executionId ∧ group.Sent k
  same : w.slot.groupDeliveries k = delivery
  owns : delivery.ownsAction = true
  missing : w.registry.findAction delivery.appId delivery.actionId = none

variable {executionId : UInt64} {delivery : Delivery}

theorem Cut.prepareFlow (h : Cut executionId k delivery w)
    (hcall : w.prepareFlow image i = some (.ok, w')) : Cut executionId k delivery w' := by
  rcases prepareFlow_ok hcall with rfl | ⟨group, invocation, group', journal, hgroup, hprepare, rfl⟩
  · exact h
  obtain ⟨-, -, hready, -, rfl⟩ := GroupExecution.prepare_ok hprepare
  obtain ⟨first, hfirst, hid, hsent⟩ := h.sent
  rw [hgroup] at hfirst
  cases hfirst
  have hne : k ≠ i := by
    rintro rfl
    rw [hsent.2] at hready
    cases hready
  refine ⟨h.active, ⟨_, rfl, hid, ?_⟩, ?_, h.owns, h.missing⟩
  · unfold GroupExecution.Sent
    rwa [GroupExecution.setFlow_flows_of_ne _ _ hne]
  · exact (Function.update_of_ne hne _ _).trans h.same

theorem FlowEnds.deliveries {group' : GroupExecution} {record : Journal.Record}
    (hne : k ≠ i) (h : FlowEnds w i group' record w') :
    w'.slot.groupDeliveries k = w.slot.groupDeliveries k ∧ w'.slot.active = w.slot.active := by
  obtain ⟨v, u, hcloses, hfinish, rfl⟩ := h
  obtain ⟨finished, stored, hslot⟩ := (finishGroupTransition_marked hfinish).slot
  rw [advance_slot, hslot, hcloses.slot]
  exact ⟨Function.update_of_ne hne _ _, rfl⟩

/-- Giving up another delivery leaves it for its own turn. -/
theorem Cut.reconcileFlow (hne : i ≠ k) (h : Cut executionId k delivery w)
    (hcall : w.reconcileFlow image bound i = some (.ok, w')) : Cut executionId k delivery w' := by
  obtain ⟨first, hfirst, hid, hsent⟩ := h.sent
  rcases reconcileFlow_ok hcall with
    ⟨rfl, -⟩ | ⟨-, hregistry, -, group, hgroup, ⟨-, rfl⟩ | ⟨group', -, hmark, hends⟩⟩
  · exact h
  · exact ⟨h.active, ⟨first, hfirst, hid, hsent⟩,
      (Function.update_of_ne hne.symm _ _).trans h.same, h.owns, h.missing⟩
  · rw [hgroup] at hfirst
    cases hfirst
    obtain ⟨hdelivery, hactive⟩ := hends.deliveries hne.symm
    refine ⟨hactive.trans h.active, ⟨group', hends.group, ?_, ?_⟩, hdelivery.trans h.same, h.owns,
      hregistry ▸ h.missing⟩
    · rw [GroupExecution.deliveryOutcome_executionId (.inr rfl) hmark]
      exact hid
    · exact GroupExecution.deliveryOutcome_sent (.inr rfl) hmark hne.symm hsent

/-- On its turn it is put on record as unknown, and is sent no more. -/
theorem Cut.given_up (h : Cut executionId k delivery w)
    (hcall : w.reconcileFlow image bound k = some (.ok, w')) :
    ¬ w'.slot.sentFor (some k) ∧ ∃ e, w.Tells w'.toShared e ∧ e.Loses executionId delivery := by
  obtain ⟨first, hfirst, hid, hsent⟩ := h.sent
  rcases reconcileFlow_ok hcall with
    ⟨rfl, hkept⟩ | ⟨-, -, -, group, hgroup, ⟨hunsent, -⟩ | ⟨group', -, hmark, hends⟩⟩
  · refine absurd ⟨by rw [hfirst]; rfl, ?_, ?_⟩ hkept <;> rw [h.same]
    · exact h.owns
    · exact h.missing
  · rw [hgroup] at hfirst
    cases hfirst
    exact absurd hsent hunsent
  · obtain ⟨effects, hhistory, -⟩ := hends.tells
    refine ⟨fun hstill => ?_, _, ⟨_, hhistory, List.mem_cons_self⟩, ?_⟩
    · obtain ⟨k', hk', -, hk⟩ := Slot.sentFor_flow hends.group hstill
      cases hk'
      exact (GroupExecution.deliveryOutcome_out (.inr rfl) hmark ⟨hk.1, .inr hk.2⟩).1 rfl
    · have hrecord : (w.deliveryRecord k .actionUnknown .unknown).executionId = executionId := by
        simp only [deliveryRecord, Slot.executionId, hfirst, hid]
      exact ⟨rfl, rfl, hrecord, by rw [← h.same]; rfl, by rw [← h.same]; rfl,
        by rw [← h.same]; rfl⟩

theorem Cut.prepareSlot (h : Cut executionId k delivery w)
    (hcall : w.prepareSlot image = some (.ok, w')) : Cut executionId k delivery w' := by
  obtain ⟨group, hgroup, -⟩ := h.sent
  unfold AtSlot.prepareSlot at hcall
  rw [if_neg (by simp [h.active]), if_pos (by simp [hgroup])] at hcall
  exact Call.each_rel
    (R := fun w w' => Cut executionId k delivery w → Cut executionId k delivery w')
    (fun _ => id) (fun h h' hs => h' (h hs)) (fun _ _ _ hcall h => h.prepareFlow hcall) _ hcall h

/-- **A delivery without a connection is closed as unknown** when its slot is reconciled. -/
theorem Cut.reconcileSlot (h : Cut executionId k delivery w) (hcalm : w.slot.Calm)
    (hcall : w.reconcileSlot image bound = some (.ok, w')) :
    ¬ w'.slot.sentFor (some k) ∧ ∃ e, w.Tells w'.toShared e ∧ e.Loses executionId delivery := by
  obtain ⟨group, hgroup, -⟩ := h.sent
  unfold AtSlot.reconcileSlot at hcall
  rw [if_neg (by simp [h.active]), if_pos (by simp [hgroup])] at hcall
  let Before (u : AtSlot) : Prop :=
    Cut executionId k delivery u ∧ u.slot.Calm ∧ Silent w u
  let After (u : AtSlot) : Prop := u.slot.Calm ∧ ¬ u.slot.sentFor (some k) ∧
    ∃ e, w.Tells u.toShared e ∧ e.Loses executionId delivery
  have hafter : After w' := by
    refine Call.each_meets (P := Before) (Q := After) (fun i u u' hne hu hround => ?_)
      (fun {u u'} hu hround => ?_) (fun i u u' hu hround => ?_) (List.mem_finRange k)
      ⟨h, hcalm, Silent.refl w⟩ hcall
    · obtain ⟨hcut, hc, hsilent⟩ := hu
      exact ⟨hcut.reconcileFlow hne hround, (reconcileFlow_stays hround).calm hc,
        hsilent.trans (reconcileFlow_passes hround).silent⟩
    · obtain ⟨hcut, hc, effects, hhistory, -⟩ := hu
      obtain ⟨hgone, e, ⟨told, htold, hmem⟩, hloses⟩ := hcut.given_up hround
      refine ⟨(reconcileFlow_stays hround).calm hc, hgone, e, ⟨effects ++ told, ?_, ?_⟩, hloses⟩
      · rw [htold, hhistory, List.append_assoc]
      · exact List.mem_append_right _ hmem
    · obtain ⟨hc, hgone, e, ⟨told, htold, hmem⟩, hloses⟩ := hu
      obtain ⟨effects, hhistory, -⟩ := (reconcileFlow_passes hround).silent
      have hstays := reconcileFlow_stays hround
      refine ⟨hstays.calm hc, fun hsent => hgone (hstays.sent hc _ hsent).1, e,
        ⟨told ++ effects, ?_, List.mem_append_left _ hmem⟩, hloses⟩
      rw [hhistory, htold, List.append_assoc]
  exact hafter.2

end AtSlot

/-! ## The beginning of a poll -/

namespace Loop

open Slot (Stays Calm)
open AtSlot (Silent Cut)

variable {image : Image} {bound : Nat} {loop loop' : Loop} {i j : SlotIndex}
variable {call : AtSlot → Call LoopResult AtSlot}

/-- A call that puts no result on record. -/
def Quiet (loop loop' : Loop) : Prop :=
  ∃ effects, loop'.history = loop.history ++ effects ∧ ∀ e ∈ effects, e.answer = none

theorem quiet_of_same (h : loop'.history = loop.history) : Quiet loop loop' :=
  ⟨[], by simp [h], by simp⟩

/-- Calls on slots that put no result on record, drop no connection and send nothing. -/
structure Passes (loop loop' : Loop) : Prop where
  silent : Quiet loop loop'
  registry : loop'.registry = loop.registry
  stays : ∀ i, Stays (loop.slots i) (loop'.slots i)

theorem Passes.refl (loop : Loop) : Passes loop loop :=
  ⟨quiet_of_same rfl, rfl, fun _ => Stays.refl _⟩

theorem Passes.trans {loop'' : Loop} (h : Passes loop loop') (h' : Passes loop' loop'') :
    Passes loop loop'' := by
  obtain ⟨xs, hxs, hx⟩ := h.silent
  obtain ⟨ys, hys, hy⟩ := h'.silent
  refine ⟨⟨xs ++ ys, by rw [hys, hxs, List.append_assoc], fun e he => ?_⟩,
    h'.registry.trans h.registry, fun i => (h.stays i).trans (h'.stays i)⟩
  rcases List.mem_append.mp he with he | he
  · exact hx e he
  · exact hy e he

theorem onSlot_passes (hcall : ∀ {w w' : AtSlot}, call w = some (.ok, w') →
      AtSlot.Passes w w' ∧ Stays w.slot w'.slot)
    (h : onSlot i call loop = some (.ok, loop')) : Passes loop loop' := by
  obtain ⟨w, hw, rfl⟩ := onSlot_some h
  obtain ⟨hpasses, hstays⟩ := hcall hw
  refine ⟨hpasses.silent, hpasses.registry, fun j => ?_⟩
  by_cases hj : j = i
  · subst hj
    rw [put_slots_self]
    exact hstays
  · rw [put_slots_of_ne _ _ hj]
    exact Stays.refl _

/-- A delivery without a connection is not touched by what is done at other slots. -/
theorem cut_elsewhere {executionId : UInt64} {k : FlowIndex} {delivery : Delivery}
    (hcut : Cut executionId k delivery (loop.view i)) (hcall : ∀ {w w' : AtSlot},
      call w = some (.ok, w') → AtSlot.Passes w w') (hj : j ≠ i)
    (h : onSlot j call loop = some (.ok, loop')) : Cut executionId k delivery (loop'.view i) := by
  obtain ⟨w, hw, rfl⟩ := onSlot_some h
  have hslot : (loop.put j w).slots i = loop.slots i := put_slots_of_ne _ _ hj.symm
  have hregistry : (loop.put j w).registry = loop.registry := (hcall hw).registry
  refine ⟨?_, ?_, ?_, hcut.owns, ?_⟩
  · simp only [view, hslot]
    exact hcut.active
  · simp only [view, hslot]
    exact hcut.sent
  · simp only [view, hslot]
    exact hcut.same
  · simp only [view, hregistry]
    exact hcut.missing

@[simp] theorem put_view (loop : Loop) (i : SlotIndex) (w : AtSlot) :
    (loop.put i w).view i = w := by simp [view, put]

/-- A poll prepares and reconciles, and then assigns actions. -/
theorem beginPoll_stages (h : loop.beginPoll image bound = some (.ok, loop')) :
    ∃ prepared reconciled : Loop,
      Call.each (fun i => onSlot i (AtSlot.prepareSlot image)) (turn loop.schedulerCursor)
        { loop with progress := 0 } = some (.ok, prepared) ∧
      Call.each (fun i => onSlot i (AtSlot.reconcileSlot image bound))
        (List.finRange maxExecutions) { prepared with
          schedulerCursor := (prepared.schedulerCursor + 1) % maxExecutions } =
        some (.ok, reconciled) ∧
      loop' = reconciled.assignAvailableActions := by
  obtain ⟨prepared, hprepare, hrest⟩ := Call.andThen_ok h
  obtain ⟨cursor, hcursor, rfl⟩ := Call.andThen_done_ok hprepare
  obtain ⟨reconciled, hreconcile, hassign⟩ := Call.andThen_ok hrest
  refine ⟨cursor, reconciled, hcursor, hreconcile, ?_⟩
  simp only at hassign
  split at hassign
  · have hstatus := (Prod.mk.inj (Option.some.inj hassign)).1
    exact absurd hstatus (by decide)
  · exact (Prod.mk.inj (Option.some.inj hassign)).2.symm

/-- **What a poll does before it assigns actions**: it takes no result, drops no connection and
sends nothing, and closes what has lost its connection. -/
theorem beginPoll_passes (h : loop.beginPoll image bound = some (.ok, loop')) :
    ∃ loop₁ : Loop, Passes loop loop₁ ∧ loop' = loop₁.assignAvailableActions ∧
      ∀ i k executionId delivery, Cut executionId k delivery (loop.view i) →
        (loop.slots i).Calm → ¬ (loop₁.slots i).sentFor (some k) ∧
          ∃ e, loop.Tells loop₁.toShared e ∧ e.Loses executionId delivery := by
  obtain ⟨prepared, reconciled, hprepare, hreconcile, hassign⟩ := beginPoll_stages h
  have hfirst : Passes { loop with progress := 0 } prepared :=
    Call.each_rel Passes.refl Passes.trans (fun _ _ _ hslot => onSlot_passes (fun hw =>
      ⟨AtSlot.prepareSlot_passes hw, AtSlot.prepareSlot_stays hw⟩) hslot) _ hprepare
  have hround : ∀ {i : SlotIndex} {l l' : Loop},
      onSlot i (AtSlot.reconcileSlot image bound) l = some (.ok, l') → Passes l l' :=
    fun hslot => onSlot_passes (fun hw =>
      ⟨AtSlot.reconcileSlot_passes hw, AtSlot.reconcileSlot_stays hw⟩) hslot
  have hsecond : Passes { prepared with
      schedulerCursor := (prepared.schedulerCursor + 1) % maxExecutions } reconciled :=
    Call.each_rel (R := Passes) Passes.refl Passes.trans (fun _ _ _ hslot => hround hslot) _
      hreconcile
  have hboth : Passes loop reconciled := by
    have hstart : Passes loop prepared := ⟨hfirst.silent, hfirst.registry, hfirst.stays⟩
    exact hstart.trans ⟨hsecond.silent, hsecond.registry, hsecond.stays⟩
  refine ⟨reconciled, hboth, hassign, fun i k executionId delivery hcut hcalm => ?_⟩
  have hprepared : Cut executionId k delivery (prepared.view i) := by
    have hstart : Cut executionId k delivery (({ loop with progress := 0 } : Loop).view i) :=
      ⟨hcut.active, hcut.sent, hcut.same, hcut.owns, hcut.missing⟩
    refine Call.each_rel (R := fun l l' : Loop =>
      Cut executionId k delivery (l.view i) → Cut executionId k delivery (l'.view i))
      (fun _ => id) (fun h h' hs => h' (h hs)) (fun j l l' hslot hc => ?_) _ hprepare hstart
    by_cases hj : j = i
    · subst hj
      obtain ⟨w, hw, rfl⟩ := onSlot_some hslot
      rw [put_view]
      exact hc.prepareSlot hw
    · exact cut_elsewhere hc (fun hw => AtSlot.prepareSlot_passes hw) hj hslot
  let Before (l : Loop) : Prop :=
    Cut executionId k delivery (l.view i) ∧ (l.slots i).Calm ∧ Passes loop l
  let After (l : Loop) : Prop := (l.slots i).Calm ∧ ¬ (l.slots i).sentFor (some k) ∧
    ∃ e, loop.Tells l.toShared e ∧ e.Loses executionId delivery
  have hbefore : Before { prepared with
      schedulerCursor := (prepared.schedulerCursor + 1) % maxExecutions } :=
    ⟨⟨hprepared.active, hprepared.sent, hprepared.same, hprepared.owns, hprepared.missing⟩,
      (hfirst.stays i).calm hcalm, ⟨hfirst.silent, hfirst.registry, hfirst.stays⟩⟩
  have hafter : After reconciled := by
    refine Call.each_meets (P := Before) (Q := After) (fun j l l' hj hl hslot => ?_)
      (fun {l l'} hl hslot => ?_) (fun j l l' hl hslot => ?_) (List.mem_finRange i) hbefore
      hreconcile
    · obtain ⟨hc, hquiet, hpasses⟩ := hl
      have hnext := hround hslot
      exact ⟨cut_elsewhere hc (fun hw => AtSlot.reconcileSlot_passes hw) hj hslot,
        (hnext.stays i).calm hquiet, hpasses.trans hnext⟩
    · obtain ⟨hc, hquiet, hpasses⟩ := hl
      obtain ⟨effects, hhistory, -⟩ := hpasses.silent
      have hnext := (hround hslot).stays i
      obtain ⟨w, hw, rfl⟩ := onSlot_some hslot
      obtain ⟨hgone, e, ⟨told, htold, hmem⟩, hloses⟩ := hc.reconcileSlot hquiet hw
      refine ⟨hnext.calm hquiet, by rwa [put_slots_self], e,
        ⟨effects ++ told, ?_, List.mem_append_right _ hmem⟩, hloses⟩
      have htold : w.history = l.history ++ told := htold
      rw [← List.append_assoc, ← hhistory]
      exact htold
    · obtain ⟨hquiet, hgone, e, ⟨told, htold, hmem⟩, hloses⟩ := hl
      obtain ⟨effects, hhistory, -⟩ := (hround hslot).silent
      have hstays := (hround hslot).stays i
      refine ⟨hstays.calm hquiet, fun hsent => hgone (hstays.sent hquiet _ hsent).1, e,
        ⟨told ++ effects, ?_, List.mem_append_left _ hmem⟩, hloses⟩
      rw [hhistory, htold, List.append_assoc]
  exact hafter.2

/-! ## Assigning actions and collecting items -/

theorem ownsAt_assignSlot (i : SlotIndex) {item : PollItem} (h : loop.ownsAt item = true) :
    (loop.assignSlot i).ownsAt item = true := by
  unfold assignSlot
  simp only
  split
  · exact h
  obtain ⟨j, flow⟩ := item
  by_cases hj : j = i
  · subst hj
    simp only [ownsAt, Bool.and_eq_true] at h ⊢
    rw [put_slots_self]
    cases flow with
    | none => exact ⟨h.1, Bool.and_eq_true_iff.mpr ⟨(Bool.and_eq_true_iff.mp h.2).1, rfl⟩⟩
    | some k => exact h
  · simpa only [ownsAt, put_slots_of_ne _ _ hj] using h

theorem ownsAt_assignFlow (i : SlotIndex) (flow : FlowIndex) {item : PollItem}
    (h : loop.ownsAt item = true) : (assignFlow i loop flow).ownsAt item = true := by
  unfold assignFlow
  simp only
  split
  · exact h
  split
  · exact h
  obtain ⟨j, key⟩ := item
  by_cases hj : j = i
  · subst hj
    simp only [ownsAt, Bool.and_eq_true] at h ⊢
    rw [put_slots_self]
    cases key with
    | none => exact h
    | some k =>
        obtain ⟨hactive, hgrouped, howns⟩ := And.imp_right Bool.and_eq_true_iff.mp h
        refine ⟨hactive, Bool.and_eq_true_iff.mpr ⟨hgrouped, ?_⟩⟩
        by_cases hk : k = flow
        · subst hk
          simp [AtSlot.setDelivery]
        · simp only [AtSlot.setDelivery, AtSlot.setSlot_slot, Function.update_of_ne hk]
          exact howns
  · simpa only [ownsAt, put_slots_of_ne _ _ hj] using h

theorem assignAvailableActions_same (loop : Loop) :
    SameButOwned loop loop.assignAvailableActions := by
  have hslots : SameButOwned loop ((turn loop.schedulerCursor).foldl assignSlot loop) :=
    List.foldlRecOn (motive := fun l => SameButOwned loop l) _ _ (SameButOwned.refl loop)
      fun l hl i _ => by
        have hassign : l.assignSlot i = l ∨ Assigns l (l.assignSlot i) ⟨i, none⟩ :=
          assignSlot_assigns i
        rcases hassign with hsame | hassigns
        · rwa [hsame]
        · exact hl.trans hassigns.same
  refine List.foldlRecOn (motive := fun l => SameButOwned loop l) _ _ hslots fun l hl i _ =>
    List.foldlRecOn (motive := fun l => SameButOwned loop l) _ _ hl fun l hl flow _ => ?_
  have hassign : l.assignFlow i flow = l ∨ Assigns l (l.assignFlow i flow) ⟨i, some flow⟩ :=
    assignFlow_assigns i flow
  rcases hassign with hsame | hassigns
  · rwa [hsame]
  · exact hl.trans hassigns.same

theorem ownsAt_assign {item : PollItem} (h : loop.ownsAt item = true) :
    loop.assignAvailableActions.ownsAt item = true := by
  have hslots : ((turn loop.schedulerCursor).foldl assignSlot loop).ownsAt item = true :=
    List.foldlRecOn (motive := fun l : Loop => l.ownsAt item = true) _ _ h
      fun l hl i _ => ownsAt_assignSlot i hl
  exact List.foldlRecOn (motive := fun l : Loop => l.ownsAt item = true) _ _ hslots fun l hl i _ =>
    List.foldlRecOn (motive := fun l : Loop => l.ownsAt item = true) _ _ hl
      fun l hl flow _ => ownsAt_assignFlow i flow hl

/-- An item that is polled owns its action, and is a slot or a flow of a grouped slot. -/
theorem mem_collectItems {item : PollItem} (h : item ∈ loop.collectItems) :
    loop.ownsAt item = true ∧ (loop.slots item.slot).active = true ∧
      (item.flow = none ↔ (loop.slots item.slot).group = none) := by
  unfold collectItems at h
  obtain ⟨i, -, hitem⟩ := List.mem_flatMap.mp h
  unfold slotItems at hitem
  simp only at hitem
  split at hitem
  · cases hitem
  rename_i hactive
  rw [not_not] at hactive
  cases hgroup : (loop.slots i).group with
  | none =>
      rw [hgroup] at hitem
      simp only at hitem
      split at hitem
      · rename_i howns
        rw [List.mem_singleton.mp hitem]
        exact ⟨by simp [ownsAt, hactive, hgroup, howns.1], hactive, by simp [hgroup]⟩
      · cases hitem
  | some group =>
      rw [hgroup] at hitem
      obtain ⟨k, hk, rfl⟩ := List.mem_map.mp hitem
      have howns := (List.mem_filter.mp hk).2
      simp only [Bool.and_eq_true] at howns
      exact ⟨by simp [ownsAt, hactive, hgroup, howns.1.1.1], hactive, by simp [hgroup]⟩

theorem slotItems_slot {item : PollItem} (h : item ∈ loop.slotItems i) : item.slot = i := by
  unfold slotItems at h
  simp only at h
  split at h
  · cases h
  split at h
  · obtain ⟨k, -, rfl⟩ := List.mem_map.mp h
    rfl
  · split at h
    · rw [List.mem_singleton.mp h]
    · cases h

theorem slotItems_nodup (loop : Loop) (i : SlotIndex) : (loop.slotItems i).Nodup := by
  unfold slotItems
  simp only
  split
  · exact List.nodup_nil
  split
  · refine ((List.nodup_finRange _).filter _).map fun a b hab => ?_
    exact Option.some.inj (PollItem.mk.inj hab).2
  · split
    · exact List.nodup_singleton _
    · exact List.nodup_nil

theorem collectItems_nodup (loop : Loop) : loop.collectItems.Nodup := by
  unfold collectItems
  rw [List.nodup_flatMap]
  refine ⟨fun i _ => slotItems_nodup loop i, ?_⟩
  refine (List.nodup_finRange _).imp fun {i j} hij => ?_
  intro item hi hj
  exact hij ((slotItems_slot hi).symm.trans (slotItems_slot hj))

/-! ## Calls between polls -/

theorem admitSlot_quiet {slot : Slot} {used : Fin maxGroupExecutions → Bool} {r : LoopResult}
    (h : loop.admitSlot i slot used = some (r, loop')) : Quiet loop loop' := by
  unfold admitSlot at h
  split at h
  · cases h
  · rename_i w hw
    obtain ⟨journal, -, rfl⟩ := AtSlot.journalRecord_ok hw
    cases h
    refine ⟨[_], rfl, fun e he => ?_⟩
    rw [List.mem_singleton.mp he]
    simp [Effect.answer]
  · cases h
    exact quiet_of_same rfl

theorem admitExecution_quiet {executionId : UInt64} {inputType : UInt16} {input : Bytes}
    {r : LoopResult}
    (h : loop.admitExecution image bound executionId inputType input = some (r, loop')) :
    Quiet loop loop' := by
  unfold admitExecution at h
  split at h
  · cases h; exact quiet_of_same rfl
  split at h
  · cases h; exact quiet_of_same rfl
  split at h
  · cases h; exact quiet_of_same rfl
  split at h
  · cases h; exact quiet_of_same rfl
  simp only at h
  split at h
  · split at h
    · cases h; exact quiet_of_same rfl
    · split at h
      · cases h
      · cases h; exact quiet_of_same rfl
      · exact admitSlot_quiet h
  · split at h
    · cases h; exact quiet_of_same rfl
    · exact admitSlot_quiet h

theorem release_quiet {executionId : UInt64} {r : LoopResult}
    (h : loop.release executionId = some (r, loop')) : Quiet loop loop' := by
  unfold release at h
  split at h
  · cases h; exact quiet_of_same rfl
  split at h
  · cases h; exact quiet_of_same rfl
  simp only at h
  split at h <;> cases h <;> exact quiet_of_same rfl

theorem resumeSaga_quiet {execution : Saga.Execution} {r : LoopResult}
    (h : loop.resumeSaga image execution = some (r, loop')) : Quiet loop loop' := by
  unfold resumeSaga at h
  split at h
  · cases h; exact quiet_of_same rfl
  split at h
  · cases h; exact quiet_of_same rfl
  simp only at h
  split at h
  · split at h
    · split at h <;> cases h <;> exact quiet_of_same rfl
    · cases h; exact quiet_of_same rfl
  · cases h; exact quiet_of_same rfl

theorem Quiet.tells {e : Effect} (h : Quiet loop loop') (he : loop.Tells loop'.toShared e) :
    e.answer = none := by
  obtain ⟨effects, hhistory, hquiet⟩ := h
  obtain ⟨effects', hhistory', hmem⟩ := he
  have hsame : effects' = effects := List.append_cancel_left (hhistory'.symm.trans hhistory)
  exact hquiet e (hsame ▸ hmem)

/-- An item elsewhere is in the state it was in. -/
theorem inState_put_of_ne {w : AtSlot} {item : PollItem} {states : Slot → Bool}
    {flowStates : ExecutionState → Bool} (h : item.slot ≠ i) :
    (loop.put i w).inState item states flowStates = loop.inState item states flowStates := by
  simp only [inState, flowAt, put_slots_of_ne _ _ h]

theorem inState_of_flowAt {item : PollItem} {states : Slot → Bool}
    {flowStates : ExecutionState → Bool} (hflow : item.flow.isSome = true)
    (hactive : (loop.slots item.slot).active = true) (hsame : loop'.flowAt item = loop.flowAt item)
    (h : loop'.inState item states flowStates = true) :
    loop.inState item states flowStates = true := by
  obtain ⟨k, hk⟩ := Option.isSome_iff_exists.mp hflow
  unfold inState at h ⊢
  rw [hk] at h ⊢
  simp only [Bool.and_eq_true] at h ⊢
  rw [hsame] at h
  exact ⟨hactive, h.2⟩

end Loop

/-! ## Runs -/

namespace Host

open Loop

variable {image : Image} {host host' : Host} {item : PollItem} {rest : List PollItem}
variable {event : Event} {w : AtSlot}

/-- An app takes no action over while an item of a list is sent that lost the connection of its
action. -/
def ItemsSettled (host : Host) : Move → Prop
  | .publish index _ => ∀ action, host.registry[index]? = some action →
      action.connection = none → ∀ i k, host.outstanding ⟨i, some k⟩ = true →
        host.sentAt ⟨i, some k⟩ = true →
          host.actionAt ⟨i, some k⟩ ≠ (action.appId, action.actionId)
  | _ => True

/-- Who is served by which connection. -/
structure Wired (host : Host) : Prop where
  calm : ∀ i, (host.slots i).Calm
  out : ∀ item, host.outstanding item = true →
    host.preparedAt item = true ∨ host.sentAt item = true
  owns : ∀ item, host.outstanding item = true → host.sentAt item = true →
    host.ownsAt item = true
  /-- Only the items of a group lose their connection while they are sent. -/
  connection : ∀ item, host.outstanding item = true → host.sentAt item = true →
    host.connectionAt item = some (host.sentOn item) ∨
      (item.flow.isSome = true ∧ host.connectionAt item = none)
  distinct : host.pending.Nodup
  polled : ∀ item ∈ host.pending, (host.slots item.slot).active = true ∧
    (item.flow = none ↔ (host.slots item.slot).group = none)
  served : ∀ item ∈ host.pending, host.outstanding item = true → host.preparedAt item = true →
    host.ownsAt item = true
  /-- Nobody elsewhere has the action of an item that is polled. -/
  alone : ∀ item ∈ host.pending, ∀ other, host.Owns other (host.actionAt item) →
    other.slot = item.slot

theorem stillOutstanding_iff {loop : Loop} {served : Option PollItem} :
    host.stillOutstanding loop served item = true ↔ host.outstanding item = true ∧
      (loop.preparedAt item = true ∨ loop.sentAt item = true) ∧
        (loop.flowAt item = host.flowAt item ∨ (served = some item ∧ loop.flowAt item =
          (host.flowAt item).map fun flow => { flow with state := .sent })) := by
  simp only [stillOutstanding, Bool.and_eq_true, Bool.or_eq_true, beq_iff_eq, and_assoc]

/-- What serving an item does at its slot. -/
structure Serving (host : Host) (item : PollItem) (event : Event) (w : AtSlot) : Prop where
  serves : AtSlot.Serves event.received item.flow (host.view item.slot) w
  frees : Slot.Frees (host.slots item.slot) w.slot
  standing : item.flow = none → w.slot.sentFor none → w.registry = host.registry

theorem Wired.serving (h : host.Wired) {bound : Nat} {loop : Loop}
    (hp : host.pending = item :: rest)
    (hserve : host.toLoop.serve image bound item event = some (.ok, loop)) :
    ∃ w, loop = host.toLoop.put item.slot w ∧ Serving host item event w := by
  obtain ⟨w, rfl, hw⟩ := serve_some hserve
  obtain ⟨hactive, hgrouped⟩ := h.polled item (by rw [hp]; exact List.mem_cons_self)
  refine ⟨w, rfl, ?_⟩
  rcases hw with ⟨k, hk, hw⟩ | ⟨hnone, hw⟩
  · refine ⟨?_, serveFlow_frees hw, fun hnone => ?_⟩
    · rw [hk]
      exact serveFlow_serves (h.calm item.slot) hactive hw
    · rw [hk] at hnone
      cases hnone
  · have hserves : AtSlot.ServesSlot event.received (host.view item.slot) w :=
      serveSlot_serves (h.calm item.slot) (hgrouped.mp hnone) hactive hw
    refine ⟨?_, serveSlot_frees hw, fun _ hsent => (hserves.standing hsent).2⟩
    rw [hnone]
    exact hserves.toServes

/-- A delivery that stays outstanding stood as it stands, or it is the one that was served. -/
theorem Wired.carried (h : host.Wired) (hp : host.pending = item :: rest)
    (hs : Serving host item event w) {key : PollItem}
    (hstill : host.stillOutstanding (host.toLoop.put item.slot w) (some item) key = true) :
    host.outstanding key = true ∧
      ((host.toLoop.put item.slot w).sentAt key = true → host.sentAt key = true ∨
        (key = item ∧ host.preparedAt item = true)) ∧
      (key ≠ item → (host.toLoop.put item.slot w).preparedAt key = true →
        host.preparedAt key = true) := by
  obtain ⟨hout, hstate, hflow⟩ := stillOutstanding_iff.mp hstill
  refine ⟨hout, ?_⟩
  by_cases hkey : key = item
  · subst hkey
    refine ⟨fun _ => ?_, fun hne => absurd rfl hne⟩
    exact (h.out key hout).symm.imp id fun hprepared => ⟨rfl, hprepared⟩
  by_cases hslot : key.slot = item.slot
  · obtain ⟨hactive, hgrouped⟩ := h.polled item (by rw [hp]; exact List.mem_cons_self)
    have hsame : (host.toLoop.put item.slot w).flowAt key = host.flowAt key := by
      rcases hflow with hsame | ⟨hserved, -⟩
      · exact hsame
      · exact absurd (Option.some.inj hserved).symm hkey
    have hactive' : (host.slots key.slot).active = true := by rw [hslot]; exact hactive
    -- another delivery of the slot is that of a flow
    have hsome : key.flow.isSome = true := by
      cases hk : key.flow with
      | some k => rfl
      | none =>
          have hitem : item.flow ≠ none := by
            intro hitem
            apply hkey
            obtain ⟨i, flow⟩ := key
            obtain ⟨j, flow'⟩ := item
            simp only at hslot hk hitem
            rw [hslot, hk, hitem]
          have hgrouped' : w.slot.group.isSome = true := by
            rw [hs.frees.grouped]
            exact Option.isSome_iff_ne_none.mpr fun hnone => hitem (hgrouped.mpr hnone)
          obtain ⟨group, hgroup⟩ := Option.isSome_iff_exists.mp hgrouped'
          rw [preparedAt_iff, sentAt_iff, hslot, put_slots_self, hk] at hstate
          rcases hstate with hstate | hstate
          · obtain ⟨k, hnone, -⟩ := Slot.preparedFor_flow hgroup hstate
            cases hnone
          · obtain ⟨k, hnone, -⟩ := Slot.sentFor_flow hgroup hstate
            cases hnone
    exact ⟨fun hsent => .inl (inState_of_flowAt hsome hactive' hsame hsent),
      fun _ => inState_of_flowAt hsome hactive' hsame⟩
  · exact ⟨fun hsent => .inl ((inState_put_of_ne hslot).symm.trans hsent),
      fun _ hprepared => (inState_put_of_ne hslot).symm.trans hprepared⟩

theorem actionAt_put (hs : Serving host item event w) (key : PollItem) :
    (host.toLoop.put item.slot w).actionAt key = host.actionAt key := by
  rw [actionAt_eq, actionAt_eq]
  by_cases hslot : key.slot = item.slot
  · rw [hslot, put_slots_self]
    exact hs.serves.action key.flow
  · rw [put_slots_of_ne _ _ hslot]

/-- Serving an item leaves every connection in place, or drops that of the item's action. -/
theorem connectionAt_put (hs : Serving host item event w) (key : PollItem) :
    (host.toLoop.put item.slot w).connectionAt key = host.connectionAt key ∨
      (w.registry ≠ host.registry ∧ host.actionAt key = host.actionAt item ∧
        (host.toLoop.put item.slot w).connectionAt key = none) := by
  unfold connectionAt
  rw [actionAt_put hs]
  have hregistry := hs.serves.registry
  have haction : (host.view item.slot).slot.actionFor item.flow = host.actionAt item :=
    (actionAt_eq _ _).symm
  rw [haction] at hregistry
  change w.registry = host.registry ∨ w.registry = _ at hregistry
  change (w.registry.findAction _ _).map Prod.fst = _ ∨ _ ∧ _ ∧
    (w.registry.findAction _ _).map Prod.fst = none
  by_cases hkept : w.registry = host.registry
  · rw [hkept]
    exact .inl rfl
  rcases hregistry with hsame | hdropped
  · exact absurd hsame hkept
  have hdropped : w.registry = host.registry.dropAction (host.actionAt item).1
    (host.actionAt item).2 := hdropped
  rw [hdropped, Registry.findAction_dropAction]
  by_cases hsame : (host.actionAt key).1 = (host.actionAt item).1 ∧
      (host.actionAt key).2 = (host.actionAt item).2
  · rw [if_pos hsame, ← hdropped]
    exact .inr ⟨hkept, Prod.ext hsame.1 hsame.2, rfl⟩
  · rw [if_neg hsame]
    exact .inl rfl

/-- A delivery that was sent before keeps its connection, unless it is an item of a group. -/
theorem Wired.connection_put (h : host.Wired) (hp : host.pending = item :: rest)
    (hs : Serving host item event w) {key : PollItem} (hout : host.outstanding key = true)
    (hbefore : host.sentAt key = true)
    (hsent : (host.toLoop.put item.slot w).sentAt key = true) :
    (host.toLoop.put item.slot w).connectionAt key =
        some (host.noteSent item (host.toLoop.put item.slot w) key) ∨
      (key.flow.isSome = true ∧ (host.toLoop.put item.slot w).connectionAt key = none) := by
  have hmem : item ∈ host.pending := by rw [hp]; exact List.mem_cons_self
  have hnoted : host.noteSent item (host.toLoop.put item.slot w) key = host.sentOn key := by
    unfold noteSent
    split
    · rename_i hmarked
      refine Function.update_of_ne ?_ _ _
      rintro rfl
      exact hmarked.2 hbefore
    · rfl
  rw [hnoted]
  rcases connectionAt_put hs key with hsame | ⟨hdropped, haction, hnone⟩
  · rw [hsame]
    exact h.connection key hout hbefore
  refine .inr ⟨?_, hnone⟩
  -- a sequential delivery would be the item itself, which keeps its connection while it is sent
  cases hflow : key.flow with
  | some k => rfl
  | none =>
      have hslot : key.slot = item.slot :=
        h.alone item hmem key ⟨h.owns key hout hbefore, haction⟩
      rw [sentAt_iff, hflow] at hbefore hsent
      have hgroup : (host.slots item.slot).group = none := by
        have hs := hbefore.2
        rw [hslot] at hs
        unfold Slot.sent at hs
        simp only [Bool.and_eq_true, Option.isNone_iff_eq_none] at hs
        exact hs.1
      rw [hslot, put_slots_self] at hsent
      exact absurd (hs.standing ((h.polled item hmem).2.mpr hgroup) hsent) hdropped

theorem Wired.serve (h : host.Wired) (hp : host.pending = item :: rest)
    (hs : Serving host item event w) : Wired { host with
      toLoop := host.toLoop.put item.slot w
      pending := rest
      outstanding := host.stillOutstanding (host.toLoop.put item.slot w) (some item)
      sentOn := host.noteSent item (host.toLoop.put item.slot w) } := by
  have hmem : item ∈ host.pending := by rw [hp]; exact List.mem_cons_self
  have hrest : ∀ {key}, key ∈ rest → key ∈ host.pending ∧ key ≠ item := by
    intro key hkey
    have hnodup := h.distinct
    rw [hp, List.nodup_cons] at hnodup
    refine ⟨by rw [hp]; exact List.mem_cons_of_mem _ hkey, ?_⟩
    rintro rfl
    exact hnodup.1 hkey
  have howns : ∀ {key}, host.ownsAt key = true →
      ((host.toLoop.put item.slot w).sentAt key = true ∨
        (key ≠ item ∧ (host.toLoop.put item.slot w).preparedAt key = true)) →
      (host.toLoop.put item.slot w).ownsAt key = true := by
    intro key howns hstate
    rw [ownsAt_iff] at howns ⊢
    rw [sentAt_iff, preparedAt_iff] at hstate
    by_cases hslot : key.slot = item.slot
    · rw [hslot, put_slots_self] at hstate ⊢
      rw [hslot] at howns
      refine hs.serves.keeps key.flow howns (hstate.imp id fun hother => ⟨fun hflow => ?_, hother.2⟩)
      apply hother.1
      obtain ⟨i, flow⟩ := key
      obtain ⟨j, flow'⟩ := item
      simp only at hslot hflow
      rw [hslot, hflow]
    · rwa [put_slots_of_ne _ _ hslot]
  refine ⟨fun i => ?_, fun key hstill => ?_, fun key hstill hsent => ?_,
    fun key hstill hsent => ?_, ?_, fun key hkey => ?_, fun key hkey hstill hprepared => ?_,
    fun key hkey other hother => ?_⟩
  · by_cases hi : i = item.slot
    · subst hi
      simp only [put_slots_self]
      exact hs.serves.calm
    · simp only [put_slots_of_ne _ _ hi]
      exact h.calm i
  · exact (stillOutstanding_iff.mp hstill).2.1
  · obtain ⟨hout, hcarried, -⟩ := h.carried hp hs hstill
    refine howns ?_ (.inl hsent)
    rcases hcarried hsent with hbefore | ⟨rfl, hprepared⟩
    · exact h.owns key hout hbefore
    · exact h.served _ hmem hout hprepared
  · obtain ⟨hout, hcarried, -⟩ := h.carried hp hs hstill
    rcases hcarried hsent with hbefore | ⟨rfl, hprepared⟩
    · exact h.connection_put hp hs hout hbefore hsent
    · -- the packet has just gone out
      have hunsent : host.sentAt key ≠ true := fun hsent' =>
        Slot.not_prepared_of_sent (sentAt_iff.mp hsent') (preparedAt_iff.mp hprepared)
      have hsent' : w.slot.sentFor key.flow := by
        have hsent := sentAt_iff.mp hsent
        rwa [put_slots_self] at hsent
      obtain ⟨hregistry, hfound⟩ := hs.serves.marked (preparedAt_iff.mp hprepared) hsent'
      have hsome : (host.connectionAt key).isSome = true := by
        unfold connectionAt
        rw [Option.isSome_map, actionAt_eq]
        exact hfound
      obtain ⟨connection, hconnection⟩ := Option.isSome_iff_exists.mp hsome
      refine .inl ?_
      have hsame : (host.toLoop.put key.slot w).connectionAt key = host.connectionAt key := by
        rcases connectionAt_put hs key with hsame | ⟨hdropped, -⟩
        · exact hsame
        · exact absurd hregistry hdropped
      simp only [noteSent, if_pos (And.intro hsent hunsent), Function.update_self]
      rw [hsame, hconnection]
      rfl
  · have hnodup := h.distinct
    rw [hp, List.nodup_cons] at hnodup
    exact hnodup.2
  · obtain ⟨hactive, hgroup⟩ := h.polled key (hrest hkey).1
    by_cases hslot : key.slot = item.slot
    · rw [hslot] at hactive hgroup
      simp only [hslot, put_slots_self]
      refine ⟨hs.frees.active.trans hactive, hgroup.trans ?_⟩
      have hgrouped := hs.frees.grouped
      rw [← Option.not_isSome_iff_eq_none, ← Option.not_isSome_iff_eq_none, hgrouped]
    · simp only [put_slots_of_ne _ _ hslot]
      exact ⟨hactive, hgroup⟩
  · obtain ⟨hout, -, hcarried⟩ := h.carried hp hs hstill
    obtain ⟨hpending, hne⟩ := hrest hkey
    exact howns (h.served key hpending hout (hcarried hne hprepared)) (.inr ⟨hne, hprepared⟩)
  · have hbefore := put_loses hs.frees _ _ hother
    exact h.alone key (hrest hkey).1 other (by rw [← actionAt_put hs key]; exact hbefore)

theorem not_ready_of_sent {slot : Slot} {key : Option FlowIndex} (h : slot.sentFor key) :
    (∀ k, key = some k → ∃ group, slot.group = some group ∧ (group.flows k).state ≠ .ready) ∧
      (key = none → slot.ready = false) := by
  refine ⟨fun k hk => ?_, fun hk => ?_⟩
  · subst hk
    obtain ⟨-, group, hgroup, hsent⟩ := h
    exact ⟨group, hgroup, by rw [hsent.2]; decide⟩
  · subst hk
    have hsent := h.2
    unfold Slot.sent at hsent
    unfold Slot.ready
    cases hc : slot.compensating <;> simp_all

theorem readyAt_of_sent (h : host.sentAt item = true) : host.readyAt item = false := by
  obtain ⟨hflow, hslot⟩ := not_ready_of_sent (sentAt_iff.mp h)
  unfold readyAt inState
  cases hk : item.flow with
  | none => simp [hslot hk]
  | some k =>
      obtain ⟨group, hgroup, hstate⟩ := hflow k hk
      simp [flowAt, hk, hgroup, hstate]

theorem Wired.beginPoll (h : host.Wired) {bound : Nat} {loop : Loop}
    (hbegin : host.toLoop.beginPoll image bound = some (.ok, loop)) (hx : loop.Exclusive) :
    Wired { host with
      toLoop := loop
      pending := loop.collectItems
      outstanding := fun item => (loop.preparedAt item || loop.sentAt item) &&
        (host.outstanding item || host.readyAt item)
      polled := host.registry } := by
  obtain ⟨loop₁, hpasses, hassign, -⟩ := beginPoll_passes hbegin
  have hsame : SameButOwned loop₁ loop := by
    rw [hassign]
    exact assignAvailableActions_same loop₁
  have howned : ∀ {item}, loop₁.ownsAt item = true → loop.ownsAt item = true := by
    intro item howns
    rw [hassign]
    exact ownsAt_assign howns
  -- what is sent behind the beginning was sent before, and owns and serves what it did
  have hbefore : ∀ {item}, ((loop.preparedAt item || loop.sentAt item) &&
        (host.outstanding item || host.readyAt item)) = true → loop.sentAt item = true →
      host.outstanding item = true ∧ host.sentAt item = true ∧
        Slot.Holds item.flow (host.slots item.slot) (loop₁.slots item.slot) := by
    intro item hout hsent
    rw [hsame.sentAt, sentAt_iff] at hsent
    obtain ⟨hsent, hholds⟩ := (hpasses.stays item.slot).sent (h.calm item.slot) _ hsent
    have hsent := sentAt_iff.mpr hsent
    simp only [Bool.and_eq_true, Bool.or_eq_true, readyAt_of_sent hsent] at hout
    exact ⟨hout.2.resolve_right (by simp), hsent, hholds⟩
  refine ⟨fun i => ?_, fun item hout => ?_, fun item hout hsent => ?_, fun item hout hsent => ?_,
    collectItems_nodup _, fun item hitem => (mem_collectItems hitem).2,
    fun item hitem _ _ => (mem_collectItems hitem).1, fun item hitem other hother => ?_⟩
  · obtain ⟨owns, hslot⟩ := hsame.slots i
    have hcalm := (hpasses.stays i).calm (h.calm i)
    simp only [Slot.Calm] at hcalm ⊢
    rw [hslot]
    exact hcalm
  · simp only [Bool.and_eq_true, Bool.or_eq_true] at hout
    exact hout.1
  · obtain ⟨hwas, hsent', hholds⟩ := hbefore hout hsent
    exact howned (ownsAt_iff.mpr (hholds.owns (ownsAt_iff.mp (h.owns item hwas hsent'))))
  · obtain ⟨hwas, hsent', hholds⟩ := hbefore hout hsent
    have hconnection : loop.connectionAt item = host.connectionAt item := by
      unfold connectionAt
      rw [hsame.actionAt, actionAt_eq, hholds.action, ← actionAt_eq]
      have hshared := congrArg Shared.registry hsame.shared
      rw [hshared, hpasses.registry]
    rw [hconnection]
    exact h.connection item hwas hsent'
  · exact hx.single hother ⟨(mem_collectItems hitem).1, rfl⟩

/-- A call between two polls leaves everything that is out as it was. -/
theorem Wired.between (h : host.Wired) {loop : Loop} (hp : host.pending = [])
    (hr : Refilled host.toLoop loop) : Wired { host with
      toLoop := loop, outstanding := host.stillOutstanding loop none } := by
  obtain ⟨hregistry, hslots⟩ := hr
  -- the slot of a delivery that is sent is not the one that was filled
  have hkept : ∀ {item : PollItem}, loop.sentAt item = true →
      loop.slots item.slot = host.slots item.slot := by
    intro item hsent
    rcases hslots with hsame | ⟨i, slot, hslot, hslots⟩
    · rw [hsame]
    by_cases hi : item.slot = i
    · exfalso
      rw [sentAt_iff, hslots, hi, Function.update_self] at hsent
      cases hflow : item.flow with
      | none =>
          rw [hflow] at hsent
          have hsent := hsent.2
          rw [hslot.unsent] at hsent
          cases hsent
      | some k =>
          rw [hflow] at hsent
          obtain ⟨-, group, hgroup, hk⟩ := hsent
          exact hslot.flows group hgroup k ⟨hk.1, .inr hk.2⟩
    · rw [hslots, Function.update_of_ne hi]
  have hempty : ∀ item, item ∉ host.pending := by
    intro item hitem
    rw [hp] at hitem
    cases hitem
  refine ⟨fun i => ?_, fun item hstill => (stillOutstanding_iff.mp hstill).2.1,
    fun item hstill hsent => ?_, fun item hstill hsent => ?_, h.distinct,
    fun item hitem => absurd hitem (hempty item), fun item hitem => absurd hitem (hempty item),
    fun item hitem => absurd hitem (hempty item)⟩
  · rcases hslots with hsame | ⟨j, slot, hslot, hslots⟩
    · simp only [hsame]
      exact h.calm i
    by_cases hi : i = j
    · subst hi
      simp only [hslots, Function.update_self]
      intro hcompensating
      rw [hslot.calm hcompensating]
      decide
    · simp only [hslots, Function.update_of_ne hi]
      exact h.calm i
  · have hslot := hkept hsent
    rw [ownsAt_iff, hslot, ← ownsAt_iff]
    exact h.owns item (stillOutstanding_iff.mp hstill).1
      (sentAt_iff.mpr (hslot ▸ sentAt_iff.mp hsent))
  · have hslot := hkept hsent
    have hconnection : loop.connectionAt item = host.connectionAt item := by
      unfold connectionAt
      rw [hregistry, actionAt_eq, hslot, ← actionAt_eq]
    rw [hconnection]
    exact h.connection item (stillOutstanding_iff.mp hstill).1
      (sentAt_iff.mpr (hslot ▸ sentAt_iff.mp hsent))

/-- An app that registers takes no delivery over that is out as sent. -/
theorem Wired.publish (h : host.Wired) (hp : host.pending = []) {index : Nat}
    {registered : UInt16} (hc : host.ItemsSettled (.publish index registered)) :
    Wired { host with
      registry := host.registry.publish index host.connections registered
      connections := host.connections + 1 } := by
  have hempty : ∀ item, item ∉ host.pending := by
    intro item hitem
    rw [hp] at hitem
    cases hitem
  refine ⟨h.calm, h.out, h.owns, fun item hout hsent => ?_, h.distinct, h.polled, h.served,
    fun item hitem => absurd hitem (hempty item)⟩
  have hconnection := h.connection item hout hsent
  rcases @Registry.findAction_publish (host.actionAt item).1 (host.actionAt item).2 host.registry
    index host.connections registered with
    hsame | ⟨action, hentry, hnone, happ, haction, hmissing⟩
  · have hkept : (Registry.findAction (host.registry.publish index host.connections registered)
        (host.actionAt item).1 (host.actionAt item).2).map Prod.fst = host.connectionAt item :=
      congrArg _ hsame
    rw [← hkept] at hconnection
    exact hconnection
  · have hgone : host.connectionAt item = none := by
      unfold connectionAt
      rw [hmissing]
      rfl
    rw [hgone] at hconnection
    obtain ⟨i, flow⟩ := item
    rcases hconnection with hsome | ⟨hflow, -⟩
    · cases hsome
    · obtain ⟨k, rfl⟩ := Option.isSome_iff_exists.mp hflow
      exact absurd (Prod.ext happ.symm haction.symm) (hc action hentry hnone i k hout hsent)

theorem wired_init (h : Opened image host) : host.Wired := by
  have hout : ∀ item, host.outstanding item ≠ true := by
    intro item hout
    rw [h.outstanding] at hout
    cases hout
  have hempty : ∀ item, item ∉ host.pending := by
    intro item hitem
    rw [h.pending] at hitem
    cases hitem
  refine ⟨fun i => ?_, fun item hitem => absurd hitem (hout item),
    fun item hitem => absurd hitem (hout item), fun item hitem => absurd hitem (hout item), ?_,
    fun item hitem => absurd hitem (hempty item), fun item hitem => absurd hitem (hempty item),
    fun item hitem => absurd hitem (hempty item)⟩
  · rw [h.slots]
    exact Slot.calm_of_plain rfl
  · rw [h.pending]
    exact List.nodup_nil

theorem wired_step {move : Move} (h : host.Wired) (hx : host'.SingleFlight)
    (hc : host.ItemsSettled move) (hm : Performs image host move host') : host'.Wired := by
  obtain ⟨bound, hm⟩ := hm
  cases move with
  | admission executionId inputType input =>
      obtain ⟨hp, r, loop, hcall, rfl⟩ := between_some hm
      exact h.between hp (refilled_admitExecution hcall)
  | release executionId =>
      obtain ⟨hp, r, loop, hcall, rfl⟩ := between_some hm
      exact h.between hp (refilled_release hcall)
  | resumeSaga execution =>
      obtain ⟨hp, r, loop, hcall, rfl⟩ := between_some hm
      exact h.between hp (refilled_resumeSaga hcall)
  | publish index registeredActionId =>
      simp only [perform] at hm
      split at hm
      · rename_i hp
        cases hm
        exact h.publish hp hc
      · cases hm
  | beginPoll =>
      simp only [perform] at hm
      split at hm
      · split at hm
        · rename_i loop hbegin
          cases hm
          exact h.beginPoll hbegin hx.exclusive
        · cases hm
      · cases hm
  | serve event =>
      simp only [perform] at hm
      split at hm
      · cases hm
      rename_i item rest hp
      split at hm
      · rename_i loop hserve
        cases hm
        obtain ⟨w, rfl, hs⟩ := h.serving hp hserve
        exact h.serve hp hs
      · cases hm

theorem wired_reachable (h : (system image).ReachWhere ItemsSettled host) : host.Wired := by
  have hboth : host.SingleFlight ∧ host.Wired := by
    refine h.invariant (P := fun host => host.SingleFlight ∧ host.Wired)
      (fun _ hinit => ⟨singleFlight_init hinit, wired_init hinit⟩) fun _ move _ hs hc hstep => ?_
    have hsingle := singleFlight_step hs.1 hstep
    exact ⟨hsingle, wired_step hs.2 hsingle hc hstep⟩
  exact hboth.2

/-! ## Results and their connections -/

/-- The move takes a result for a delivery that is sent, and it comes in on the connection that the
delivery was sent on. -/
def TakesResult (host : Host) (move : Move) (host' : Host) (o : Outcome) : Prop :=
  ∃ event item rest key packet frame, move = .serve event ∧ host.pending = item :: rest ∧
    event.received = .packet packet ∧ Protocol.decode packet = .ok frame ∧ frame.outcome = o ∧
    host.sentAt key = true ∧ host'.sentAt key = false ∧
    frame.requestId = (host.slots key.slot).awaitedFor key.flow ∧
    (host.outstanding key = true → host.connectionAt item = some (host.sentOn key))

/-- Serving a delivery gives the items of its poll in order. -/
theorem serve_step (h : host.Wired) (hm : Performs image host (.serve event) host') :
    ∃ item rest w, host.pending = item :: rest ∧ Serving host item event w ∧
      host'.toLoop = host.toLoop.put item.slot w := by
  obtain ⟨bound, hm⟩ := hm
  simp only [perform] at hm
  split at hm
  · cases hm
  rename_i item rest hp
  split at hm
  · rename_i loop hserve
    cases hm
    obtain ⟨w, rfl, hs⟩ := h.serving hp hserve
    exact ⟨item, rest, w, hp, hs, rfl⟩
  · cases hm

/-- Every move but a service puts no result on record. -/
theorem quiet_step {move : Move} (hmove : ∀ event, move ≠ .serve event)
    (hm : Performs image host move host') : Quiet host.toLoop host'.toLoop := by
  obtain ⟨bound, hm⟩ := hm
  cases move with
  | admission executionId inputType input =>
      obtain ⟨-, r, loop, hcall, rfl⟩ := between_some hm
      exact admitExecution_quiet hcall
  | release executionId =>
      obtain ⟨-, r, loop, hcall, rfl⟩ := between_some hm
      exact release_quiet hcall
  | resumeSaga execution =>
      obtain ⟨-, r, loop, hcall, rfl⟩ := between_some hm
      exact resumeSaga_quiet hcall
  | publish index registeredActionId =>
      simp only [perform] at hm
      split at hm
      · cases hm
        exact quiet_of_same rfl
      · cases hm
  | beginPoll =>
      simp only [perform] at hm
      split at hm
      · split at hm
        · rename_i loop hbegin
          cases hm
          obtain ⟨loop₁, hpasses, hassign, -⟩ := beginPoll_passes hbegin
          have hshared : loop.toShared = loop₁.toShared := by
            rw [hassign]
            exact (assignAvailableActions_same loop₁).shared
          obtain ⟨effects, hhistory, hquiet⟩ := hpasses.silent
          exact ⟨effects, (congrArg Shared.history hshared).trans hhistory, hquiet⟩
        · cases hm
      · cases hm
  | serve event => exact absurd rfl (hmove event)

/-- A result on record came in on the connection that its delivery was sent on. -/
theorem Wired.takesResult (h : host.Wired) {move : Move} (hm : Performs image host move host')
    {e : Effect} {o : Outcome} (he : host.Tells host'.toShared e) (ho : e.answer = some o) :
    host.TakesResult move host' o := by
  by_cases hmove : ∃ event, move = .serve event
  · obtain ⟨event, rfl⟩ := hmove
    obtain ⟨item, rest, w, hp, hs, hloop⟩ := serve_step h hm
    have htold : (host.view item.slot).Tells w.toShared e := by
      have hshared : host'.toShared = w.toShared := congrArg Loop.toShared hloop
      rwa [hshared] at he
    obtain ⟨key, connection, registered, packet, frame, hsent, hgone, haction, hfound, hpacket,
      hdecode, houtcome, hrequest⟩ := hs.serves.answers e o htold ho
    have hsent' : host.sentAt ⟨item.slot, key⟩ = true := sentAt_iff.mpr hsent
    have hconnection : host.connectionAt item = some connection := by
      unfold connectionAt
      rw [actionAt_eq]
      exact congrArg (Option.map Prod.fst) hfound
    refine ⟨event, item, rest, ⟨item.slot, key⟩, packet, frame, rfl, hp, hpacket, hdecode,
      houtcome, hsent', ?_, hrequest, fun hout => ?_⟩
    · rw [← Bool.not_eq_true, sentAt_iff, hloop, put_slots_self]
      exact hgone
    · have hsame : host.connectionAt ⟨item.slot, key⟩ = host.connectionAt item := by
        unfold connectionAt
        rw [actionAt_eq, actionAt_eq]
        exact congrArg (fun action : UInt16 × UInt16 =>
          (host.registry.findAction action.1 action.2).map Prod.fst) haction
      rcases h.connection _ hout hsent' with hkept | ⟨-, hnone⟩
      · exact hsame.symm.trans hkept
      · rw [hsame, hconnection] at hnone
        cases hnone
  · have hquiet := quiet_step (fun event hevent => hmove ⟨event, hevent⟩) hm
    rw [hquiet.tells he] at ho
    cases ho

/-- A delivery that loses its connection is closed as unknown by the next poll. -/
theorem Wired.lost (h : host.Wired) (hm : Performs image host .beginPoll host')
    {i : SlotIndex} {k : FlowIndex} (hout : host.outstanding ⟨i, some k⟩ = true)
    (hsent : host.sentAt ⟨i, some k⟩ = true) (hnone : host.connectionAt ⟨i, some k⟩ = none) :
    host'.sentAt ⟨i, some k⟩ = false ∧ ∃ e, host.Tells host'.toShared e ∧
      e.Loses (host.slots i).executionId ((host.slots i).groupDeliveries k) := by
  obtain ⟨bound, hm⟩ := hm
  simp only [perform] at hm
  split at hm
  swap
  · cases hm
  split at hm
  swap
  · cases hm
  rename_i loop hbegin
  cases hm
  obtain ⟨loop₁, -, hassign, hcuts⟩ := beginPoll_passes hbegin
  have hsame : SameButOwned loop₁ loop := by
    rw [hassign]
    exact assignAvailableActions_same loop₁
  obtain ⟨hactive, group, hgroup, hflow⟩ := sentAt_iff.mp hsent
  have howns := ownsAt_iff.mp (h.owns _ hout hsent)
  have hcut : AtSlot.Cut (host.slots i).executionId k ((host.slots i).groupDeliveries k)
      (host.view i) := by
    refine ⟨hactive, ⟨group, hgroup, ?_, hflow⟩, rfl, howns.2.2, ?_⟩
    · simp only [Slot.executionId, hgroup]
    · exact Option.map_eq_none_iff.mp hnone
  obtain ⟨hgone, e, htold, hloses⟩ := hcuts i k _ _ hcut (h.calm i)
  refine ⟨?_, e, ?_, hloses⟩
  · rw [← Bool.not_eq_true, hsame.sentAt, sentAt_iff]
    exact hgone
  · simp only [hsame.shared]
    exact htold

/-- **Results come from the connection that was served.** In every run in which no app takes an
action over while an item is sent that lost the connection of the action: what is sent is served by
the connection it was sent on or by none, and then by none until the next poll closes it as
unknown; a result on record came in on the connection that its delivery was sent on; and a delivery
that is closed in any other way is put on record as unknown. -/
theorem results_from_connection (h : (system image).ReachWhere ItemsSettled host) :
    (∀ key, host.outstanding key = true → host.sentAt key = true →
      host.connectionAt key = some (host.sentOn key) ∨
        (key.flow.isSome = true ∧ host.connectionAt key = none)) ∧
    (∀ move host' e o, Performs image host move host' → host.Tells host'.toShared e →
      e.answer = some o → host.TakesResult move host' o) ∧
    (∀ event host' key, Performs image host (.serve event) host' →
      host.sentAt key = true → host'.sentAt key = false →
        ∃ e, host.Tells host'.toShared e ∧ (e.answer.isSome = true ∨ e.GivesUp)) ∧
    (∀ host' i k, Performs image host .beginPoll host' →
      host.outstanding ⟨i, some k⟩ = true → host.sentAt ⟨i, some k⟩ = true →
        host.connectionAt ⟨i, some k⟩ = none → host'.sentAt ⟨i, some k⟩ = false ∧
          ∃ e, host.Tells host'.toShared e ∧
            e.Loses (host.slots i).executionId ((host.slots i).groupDeliveries k)) := by
  have hwired := wired_reachable h
  refine ⟨hwired.connection, fun move host' e o hm he ho => hwired.takesResult hm he ho,
    fun event host' key hm hsent hgone => ?_,
    fun host' i k hm hout hsent hnone => hwired.lost hm hout hsent hnone⟩
  obtain ⟨item, rest, w, -, hs, hloop⟩ := serve_step hwired hm
  rw [← Bool.not_eq_true, sentAt_iff, hloop] at hgone
  rw [sentAt_iff] at hsent
  have hshared : host'.toShared = w.toShared := congrArg Loop.toShared hloop
  rw [hshared]
  by_cases hslot : key.slot = item.slot
  · rw [hslot] at hsent
    rw [hslot, put_slots_self] at hgone
    exact hs.serves.closed key.flow hsent hgone
  · rw [put_slots_of_ne _ _ hslot] at hgone
    exact absurd hsent hgone

theorem itemsSettled_of_ne {move : Move} (h : ∀ index registered, move ≠ .publish index registered) :
    host.ItemsSettled move := by
  cases move with
  | publish index registered => exact absurd rfl (h index registered)
  | _ => trivial

set_option maxRecDepth 20000 in
/-- Two items that are sent are served by the connection they were sent on. -/
theorem results_from_connection_twoItems : ∃ host key,
    (system GroupExecution.eachImage).ReachWhere ItemsSettled host ∧
    host.outstanding key = true ∧ host.sentAt key = true ∧
    (host.connectionAt key = some (host.sentOn key) ∨
      (key.flow.isSome = true ∧ host.connectionAt key = none)) := by
  let key : PollItem := ⟨⟨0, by decide⟩, some 1⟩
  have hsome : ((fresh GroupExecution.eachImage).performAll GroupExecution.eachImage 10
      twoItems).isSome = true := by decide +kernel
  have hall : ((fresh GroupExecution.eachImage).performAll GroupExecution.eachImage 10
      twoItems).all (fun host => host.outstanding key && host.sentAt key) = true := by
    decide +kernel
  obtain ⟨host, hhost⟩ := Option.isSome_iff_exists.mp hsome
  rw [hhost] at hall
  simp only [Option.all_some, Bool.and_eq_true] at hall
  have hhost' := hhost
  simp only [twoItems, performAll, List.foldlM_cons, Option.bind_eq_bind] at hhost'
  obtain ⟨published, hpublish, hrest⟩ := Option.bind_eq_some_iff.mp hhost'
  have hinit : (system GroupExecution.eachImage).ReachWhere ItemsSettled
      (fresh GroupExecution.eachImage) := .init (opened_fresh (by decide +kernel))
  have hfirst : (fresh GroupExecution.eachImage).ItemsSettled (.publish 0 1) :=
    fun action _ _ i k hout => absurd hout Bool.false_ne_true
  have hreach : (system GroupExecution.eachImage).ReachWhere ItemsSettled host :=
    reachWhere_performAll (twoItems.drop 1) (.step hinit hfirst ⟨10, hpublish⟩)
      (fun move hmove host => itemsSettled_of_ne (by
        intro index registered hpub
        subst hpub
        simp [twoItems] at hmove)) hrest
  exact ⟨host, key, hreach, hall.1, hall.2, (results_from_connection hreach).1 key hall.1 hall.2⟩

/-- The items of one list go out; the second one drops the connection, and another app takes its
place before the next poll. -/
def overtaken : List Move :=
  [.publish 0 1, .admission 1 2 [2, 0, 0, 0, 0, 0, 0, 0, 0, 1], .beginPoll,
    .serve { pollOut := true }, .serve { pollOut := true, send := .failed }, .publish 0 1, .beginPoll]

/-- What the other app answers to the first item, whose delivery it never saw. -/
def overtakingAnswer : Event where
  pollIn := true
  received := .packet ((Protocol.encode
    { kind := .result, executionId := 1, requestId := 1, appId := 1, actionId := 1
      sourceType := 1, destinationType := 1, outcome := .success, payload := [1] }
    Protocol.maxPacketSize).toOption.getD [])

set_option maxRecDepth 20000 in
/-- The first item is sent on one connection and answered on another. -/
theorem result_from_another_connection : ∃ host host' item rest e,
    (system GroupExecution.eachImage).Reach host ∧ host.pending = item :: rest ∧
    host.outstanding item = true ∧ host.sentAt item = true ∧
    host.connectionAt item ≠ some (host.sentOn item) ∧
    Performs GroupExecution.eachImage host (.serve overtakingAnswer) host' ∧
    host'.sentAt item = false ∧ host.Tells host'.toShared e ∧ e.answer = some .success := by
  let item : PollItem := ⟨⟨0, by decide⟩, some 0⟩
  have hsome : (((fresh GroupExecution.eachImage).performAll GroupExecution.eachImage 10
      overtaken).bind fun host => (host.perform GroupExecution.eachImage 10
        (.serve overtakingAnswer)).map fun host' => (host, host')).isSome = true := by
    decide +kernel
  have hall : (((fresh GroupExecution.eachImage).performAll GroupExecution.eachImage 10
      overtaken).bind fun host => (host.perform GroupExecution.eachImage 10
        (.serve overtakingAnswer)).map fun host' => (host, host')).all (fun p =>
          p.1.pending == [item] && p.1.outstanding item && p.1.sentAt item &&
          p.1.connectionAt item != some (p.1.sentOn item) && !p.2.sentAt item &&
          p.2.history == p.1.history ++ p.2.history.drop p.1.history.length &&
          (p.2.history.drop p.1.history.length).any fun e => e.answer == some .success) =
        true := by
    decide +kernel
  obtain ⟨⟨host, host'⟩, hhosts⟩ := Option.isSome_iff_exists.mp hsome
  rw [hhosts] at hall
  obtain ⟨first, hfirst, hlast⟩ := Option.bind_eq_some_iff.mp hhosts
  obtain ⟨second, hserve, hpair⟩ := Option.map_eq_some_iff.mp hlast
  cases hpair
  simp only [Option.all_some, Bool.and_eq_true, beq_iff_eq, bne_iff_ne, Bool.not_eq_true',
    List.any_eq_true] at hall
  obtain ⟨⟨⟨⟨⟨⟨hpending, hout⟩, hsent⟩, hconnection⟩, hgone⟩, hhistory⟩, e, he, ho⟩ := hall
  exact ⟨host, host', item, [], e,
    reach_performAll overtaken (.init (opened_fresh (by decide +kernel))) hfirst, hpending, hout,
    hsent, hconnection, ⟨10, hserve⟩, hgone, ⟨_, hhistory, he⟩, ho⟩

end Host

end Hermas.Daemon
