import Hermas.Daemon.Wired
import Hermas.Runtime.Refusal

/-!
# The daemon drives its interpreters

The interpreters know nothing of the daemon, and what is proved of them is proved of
runs of their own calls. The daemon calls them from many places, between records and
sockets, and one of these places writes to an execution behind the interpreter's back:
a compensation that fails marks the forward result as unknown or not sent.

`Drives` says what the daemon may do to the interpreter of a slot, call by call. An
execution that never compensated is therefore always one that the interpreter alone can
reach, in a grouped slot as in a sequential one, and whatever holds of the interpreter's
runs holds of it in the daemon.
-/

namespace Hermas

/-- What `fail_compensation` makes of an execution. -/
def Execution.failed (execution : Execution) (outcome : Outcome) : Execution :=
  { execution with
    terminalOutcome := if outcome = .notSent then .notSent else .unknown
    value := []
    valueSourceType := 0
    valueDestinationType := 0 }

namespace Execution

variable {image : Image} {execution execution' : Execution}

/-- Routing goes on with the execution, wherever the value gets stuck. -/
theorem arrived_executionId (execution : Execution) (outcome : Outcome) (l : Landing) :
    (execution.arrived outcome l).2.executionId = execution.executionId := by
  cases l with
  | stuck edge value result => rfl
  | «at» edge value =>
      simp only [arrived]
      split <;> rfl

theorem finishDeliveryOutcome_executionId (required : ExecutionState) (kind : UInt8)
    (outcome : Outcome) :
    (finishDeliveryOutcome image execution required kind outcome).2.executionId =
      execution.executionId := by
  unfold finishDeliveryOutcome
  split
  · rfl
  split
  · rfl
  · rw [enterEdge_landing, arrived_executionId]

theorem acceptResult_executionId (result : Frame) :
    (acceptResult image execution result).2.executionId = execution.executionId := by
  rcases @acceptResult_cases image execution result with
    ⟨-, hsame, -⟩ | ⟨edge, -, haccept⟩
  · rw [hsame]
  · rw [haccept, arrived_executionId]
    rfl

/-- No call of the interpreter changes whose execution it is. -/
theorem operate_executionId {op : DeliveryOp} {answer : Answer}
    (h : operate image execution op = some (answer, execution')) :
    execution'.executionId = execution.executionId := by
  cases op with
  | prepare =>
      simp only [operate] at h
      split at h
      · cases h; rfl
      · rename_i hprepare
        cases h
        unfold prepare at hprepare
        split at hprepare
        · cases hprepare
        simp only at hprepare
        split at hprepare
        · cases hprepare
        · cases hprepare; rfl
  | markSent =>
      simp only [operate] at h
      split at h
      · cases h; rfl
      · rename_i hmark
        cases h
        unfold markSent at hmark
        split at hmark
        · cases hmark
        · cases hmark; rfl
  | markNotSent => cases h; exact finishDeliveryOutcome_executionId _ _ _
  | markUnknown => cases h; exact finishDeliveryOutcome_executionId _ _ _
  | acceptResult result => cases h; exact acceptResult_executionId result

end Execution

namespace GroupExecution

variable {image : Image}

/-- A cascade does not change whose execution it is. -/
theorem stable_executionId (executionId : UInt64) :
    Stable (fun _ => True) fun s => s.executionId = executionId where
  free := fun _ _ _ _ => trivial
  waiting := fun _ _ _ _ _ => trivial
  coordinator := fun _ _ => trivial
  setFlow := fun _ _ _ h _ => h
  recordTerminal := fun s i o h _ _ => (recordTerminal_executionId s i o).trans h
  maybeComplete := fun s h => (maybeComplete_executionId s).trans h
  sameButEach := fun _ _ h hst _ => hst.executionId.trans h

/-- A start sets up the execution that was asked for. -/
theorem starts_executionId {bound : Nat} {executionId : UInt64} {capacity stride : Nat}
    {inputType : UInt16} {input : Bytes} {s : GroupExecution}
    (h : start image bound executionId capacity stride inputType input = some (.ok s)) :
    s.executionId = executionId := by
  unfold start at h
  split at h
  · cases h
  split at h
  · cases h
  split at h
  · cases h
  rename_i root hroot
  simp only at h
  split at h
  · cases h
  · rename_i entered henter
    obtain rfl := Except.ok.inj (Option.some.inj h)
    refine enterEdge_keeps (stable_executionId executionId) (Image.mem_of_groupFindEdge hroot).1 ?_
      trivial (.inl rfl) _ _ henter
    obtain ⟨deadlineMs, deadlines, hfresh⟩ := @fresh_eq image executionId stride
    show (fresh image executionId stride).executionId = executionId
    rw [hfresh]
  · cases h

theorem performs_executionId {s s' : GroupExecution} {op : GroupOp}
    (h : Performs image s op s') : s'.executionId = s.executionId :=
  performs_keeps (stable_executionId s.executionId) (fun _ _ hs => hs)
    (fun s i o hs _ => (recordTerminal_executionId s i o).trans hs) rfl h

end GroupExecution

namespace Daemon

open Loop (PollItem Event)

namespace Slot

/-- The saga driver of the slot was begun. -/
def Begun (slot : Slot) : Prop := slot.saga.execution.state ≠ .empty

/-- One call of an interpreter, or the mark of a compensation that failed. -/
inductive Advances (image : Image) (s s' : Slot) : Prop
  | rests (group : s'.group = s.group) (execution : s'.execution = s.execution)
  | group {before after : GroupExecution} {op : GroupOp} (grouped : s.group = some before)
      (performs : GroupExecution.Performs image before op after) (moved : s'.group = some after)
      (execution : s'.execution = s.execution)
  | sequential {op : DeliveryOp} {answer : Answer} (group : s'.group = s.group)
      (operates : Execution.operate image s.execution op = some (answer, s'.execution))
  | fails {outcome : Outcome} (begun : s'.Begun) (group : s'.group = s.group)
      (execution : s'.execution = s.execution.failed outcome)

/-- What the daemon may do to a slot in one go; a driver that was begun stays begun. -/
structure Drive (image : Image) (s s' : Slot) : Prop where
  active : s'.active = s.active
  begun : s.Begun → s'.Begun
  advances : Advances image s s'

/-- What the daemon may do to a slot. -/
def Drives (image : Image) : Slot → Slot → Prop := Relation.ReflTransGen (Drive image)

variable {image : Image} {s s' t : Slot}

theorem Drives.refl (s : Slot) : Drives image s s := Relation.ReflTransGen.refl

theorem Drives.trans (h : Drives image s t) (h' : Drives image t s') : Drives image s s' :=
  Relation.ReflTransGen.trans h h'

theorem Drive.drives (h : Drive image s s') : Drives image s s' := Relation.ReflTransGen.single h

/-- A slot that differs in its delivery or its marks only. -/
theorem drives_rests (hactive : s'.active = s.active) (hsaga : s'.saga = s.saga)
    (hgroup : s'.group = s.group) (hexecution : s'.execution = s.execution) :
    Drives image s s' := by
  refine Drive.drives ⟨hactive, ?_, .rests hgroup hexecution⟩
  unfold Begun
  rw [hsaga]
  exact id

/-- What a slot is after a call of the group interpreter. -/
theorem drives_group {before after : GroupExecution} (op : GroupOp) (hgroup : s.group = some before)
    (hperforms : GroupExecution.Performs image before op after)
    (hslot : s' = { s with
      group := some after
      groupDeliveries := s'.groupDeliveries
      journalFinished := s'.journalFinished
      resultStored := s'.resultStored }) : Drives image s s' := by
  refine Drive.drives ⟨by rw [hslot], ?_, .group hgroup hperforms (by rw [hslot]) (by rw [hslot])⟩
  unfold Begun
  rw [hslot]
  exact id

/-- A slot whose saga driver moves on, next to an interpreter that rests. -/
theorem drives_begun (hactive : s'.active = s.active) (hbegun : s'.Begun)
    (hgroup : s'.group = s.group) (hexecution : s'.execution = s.execution) :
    Drives image s s' :=
  Drive.drives ⟨hactive, fun _ => hbegun, .rests hgroup hexecution⟩

/-- What a slot is after a call of the sequential interpreter. -/
theorem drives_operates (op : DeliveryOp) (answer : Answer) (hactive : s'.active = s.active)
    (hsaga : s'.saga = s.saga) (hgroup : s'.group = s.group)
    (hop : Execution.operate image s.execution op = some (answer, s'.execution)) :
    Drives image s s' := by
  refine Drive.drives ⟨hactive, ?_, .sequential hgroup hop⟩
  unfold Begun
  rw [hsaga]
  exact id

/-- What a slot is after a compensation that failed. -/
theorem drives_fails (outcome : Outcome) (hactive : s'.active = s.active) (hbegun : s'.Begun)
    (hgroup : s'.group = s.group) (hexecution : s'.execution = s.execution.failed outcome) :
    Drives image s s' :=
  Drive.drives ⟨hactive, fun _ => hbegun, .fails hbegun hgroup hexecution⟩

/-! ## What is kept -/

theorem Drives.active (h : Drives image s s') : s'.active = s.active := by
  induction h with
  | refl => rfl
  | tail _ hstep ih => exact hstep.active.trans ih

theorem Drives.begun (h : Drives image s s') (hs : s.Begun) : s'.Begun := by
  induction h with
  | refl => exact hs
  | tail _ hstep ih => exact hstep.begun ih

theorem Drives.grouped (h : Drives image s s') : s'.group.isSome = s.group.isSome := by
  induction h with
  | refl => rfl
  | tail _ hstep ih =>
      rw [← ih]
      cases hstep.advances with
      | rests group _ => rw [group]
      | group grouped _ moved _ => rw [grouped, moved]; rfl
      | sequential group _ => rw [group]
      | fails _ group _ => rw [group]

/-- A slot goes on with its execution. -/
theorem Drives.executionId (h : Drives image s s') : s'.executionId = s.executionId := by
  induction h with
  | refl => rfl
  | tail _ hstep ih =>
      rw [← ih]
      unfold Slot.executionId
      cases hstep.advances with
      | rests group execution => rw [group, execution]
      | group grouped performs moved _ =>
          rw [grouped, moved]
          exact GroupExecution.performs_executionId performs
      | sequential group operates =>
          rw [group, Execution.operate_executionId operates]
      | fails _ group execution =>
          rw [group, execution]
          rfl

end Slot

namespace AtSlot

open Slot (Drive Drives drives_rests drives_group drives_begun drives_operates drives_fails)

variable {image : Image} {bound : Nat} {w w' : AtSlot} {i : FlowIndex}

theorem Marked.drives (h : Marked w w') : Drives image w.slot w'.slot := by
  obtain ⟨finished, stored, hslot⟩ := h.slot
  rw [hslot]
  exact drives_rests rfl rfl rfl rfl

/-! ## Flows -/

/-- A delivery that is closed is one call of the interpreter. -/
theorem FlowEnds.drives {before after : GroupExecution} {record : Journal.Record} (op : GroupOp)
    (hgroup : w.slot.group = some before) (hperforms : GroupExecution.Performs image before op after)
    (h : FlowEnds w i after record w') : Drives image w.slot w'.slot := by
  obtain ⟨v, u, hcloses, hfinish, rfl⟩ := h
  have hmoved : Drives image w.slot v.slot :=
    drives_group op hgroup hperforms (by rw [hcloses.slot])
  exact hmoved.trans (finishGroupTransition_marked hfinish).drives

theorem prepareFlow_drives (h : w.prepareFlow image i = some (.ok, w')) :
    Drives image w.slot w'.slot := by
  rcases prepareFlow_ok h with rfl | ⟨group, invocation, group', journal, hgroup, hprepare, rfl⟩
  · exact Drives.refl _
  · refine drives_group (.prepare i) hgroup ?_ rfl
    simp only [GroupExecution.Performs, hprepare, Except.toOption, Option.map_some,
      Option.getD_some]

theorem performs_markUnknown {group group' : GroupExecution}
    (h : group.markUnknown image bound i = some (.ok, group')) :
    GroupExecution.Performs image group (.markUnknown i) group' := ⟨bound, .ok, h⟩

theorem disown_drives : Drives image w.slot (w.disown i).slot := drives_rests rfl rfl rfl rfl

theorem reconcileFlow_drives (h : w.reconcileFlow image bound i = some (.ok, w')) :
    Drives image w.slot w'.slot := by
  rcases reconcileFlow_ok h with
    ⟨rfl, -⟩ | ⟨-, -, -, group, hgroup, ⟨-, rfl⟩ | ⟨group', -, hmark, hends⟩⟩
  · exact Drives.refl _
  · exact disown_drives
  · exact hends.drives (.markUnknown _) hgroup (performs_markUnknown hmark)

theorem FlowSent.drives (h : FlowSent image bound w i w') : Drives image w.slot w'.slot := by
  cases h with
  | same => exact Drives.refl _
  | disowned missing => exact disown_drives
  | sent grouped found marked =>
      refine drives_group (.markSent i) grouped ?_ rfl
      simp only [GroupExecution.Performs, marked, Except.toOption, Option.getD_some]
  | failed grouped marked ends =>
      exact ends.drives (.markNotSent i) grouped ⟨bound, .ok, marked⟩

theorem FlowReceived.drives {received : Received} (h : FlowReceived image bound received w i w') :
    Drives image w.slot w'.slot := by
  cases h with
  | same => exact Drives.refl _
  | lost grouped missing marked ends => exact ends.drives (.markUnknown _) grouped (performs_markUnknown marked)
  | refused grouped marked ends => exact ends.drives (.markUnknown _) grouped (performs_markUnknown marked)
  | @unanswered group group₁ group' w' registered packet j result status grouped matched refused
      failed marked ends =>
      -- what the refused result left behind is what the delivery is given up from
      have hrefused : Drives image w.slot (w.setGroup group₁).slot :=
        drives_group (.acceptResult j result) grouped ⟨bound, status, refused⟩ rfl
      exact hrefused.trans (ends.drives (.markUnknown _) rfl (performs_markUnknown marked))
  | @accepted group group' w' connection registered packet j result grouped found read matched
      accepted ends =>
      exact ends.drives (.acceptResult j result) grouped ⟨bound, .ok, accepted⟩

/-! ## Sequential slots -/

theorem begun_of_state {slot : Slot} {state : Saga.State} (hstate : slot.saga.execution.state = state)
    (hbegun : state ≠ .empty) : slot.Begun := fun hempty => hbegun (hstate.symm.trans hempty)

theorem beginLiveCompensation_drives {outcome : Outcome}
    (h : w.beginLiveCompensation image outcome = some (.ok, w')) :
    Drives image w.slot w'.slot := by
  rcases beginLiveCompensation_ok h with ⟨-, rfl⟩ | ⟨-, -, plan, driver, log, hbegin, hstart, rfl⟩
  · exact Drives.refl _
  · have hready := Saga.beginLive_ready hbegin
    obtain ⟨rfl, -⟩ := Saga.Driver.start_ok hready hstart
    exact drives_begun rfl (begun_of_state hready (by decide)) rfl rfl

theorem settleExecution_drives {appError : Bool}
    (h : w.settleExecution image appError = some (.ok, w')) : Drives image w.slot w'.slot := by
  obtain ⟨u, v, x, hu, hv, hx, rfl⟩ := settleExecution_ok h
  have hfree : Drives image w.slot w.releaseAction.slot := drives_rests rfl rfl rfl rfl
  have hmarked : Drives image w.releaseAction.slot v.slot :=
    ((appendResult_marked hu).trans (appendFinished_marked hv)).drives
  have hlive : Drives image v.slot x.slot := by
    split at hx
    · exact beginLiveCompensation_drives hx
    · cases hx
      exact Drives.refl _
  exact (hfree.trans hmarked).trans hlive

/-- A call of the interpreter that ends a delivery without a result. -/
theorem markUnknown_drives {execution : Execution} {slot : Slot}
    (hmark : w.slot.execution.markUnknown image = (.ok, execution))
    (hactive : slot.active = w.slot.active) (hsaga : slot.saga = w.slot.saga)
    (hgroup : slot.group = w.slot.group) (hexecution : slot.execution = execution) :
    Drives image w.slot slot := by
  refine drives_operates .markUnknown (.of .ok) hactive hsaga hgroup ?_
  simp only [Execution.operate, hmark, hexecution]

theorem loseExecution_drives (h : w.loseExecution image = some (.ok, w')) :
    Drives image w.slot w'.slot := by
  obtain ⟨journal, execution, u, -, hmark, hu, rfl⟩ := loseExecution_ok h
  have hended : Drives image w.slot ((w.recorded journal
      (w.actionRecord .actionUnknown .unknown)).setExecution execution).releaseAction.slot :=
    markUnknown_drives hmark rfl rfl rfl rfl
  have hmarked : Drives image _ u.slot := (appendFinished_marked hu).drives
  exact hended.trans hmarked

theorem refuseExecution_drives (h : w.refuseExecution image = some (.ok, w')) :
    Drives image w.slot w'.slot := by
  obtain ⟨journal, execution, -, hmark, hsettle⟩ := refuseExecution_ok h
  have hended : Drives image w.slot (((w.recorded journal
      (w.actionRecord .actionUnknown .unknown)).setExecution execution).dropAction w.slot.appId
        w.slot.actionId).slot := markUnknown_drives hmark rfl rfl rfl rfl
  exact hended.trans (settleExecution_drives hsettle)

theorem failToSend_drives (h : w.failToSend image = some (.ok, w')) :
    Drives image w.slot w'.slot := by
  obtain ⟨journal, execution, u, v, -, hmark, hu, hv, rfl⟩ := failToSend_ok h
  have hended : Drives image w.slot (((w.recorded journal
      (w.actionRecord .actionFailed .notSent)).setExecution execution).releaseAction.dropAction
        w.slot.appId w.slot.actionId).slot := by
    refine drives_operates .markNotSent (.of .ok) rfl rfl rfl ?_
    simp only [Execution.operate, hmark]
    rfl
  have hmarked : Drives image _ u.slot := (appendFinished_marked hu).drives
  have hlive : Drives image u.slot v.slot := beginLiveCompensation_drives hv
  exact (hended.trans hmarked).trans hlive

theorem recordResult_drives {result : Frame} (h : w.recordResult image result = some (.ok, w')) :
    Drives image w.slot w'.slot := by
  obtain ⟨t, journal, ht, -, hsettle⟩ := recordResult_ok h
  have htoken : Drives image w.slot t.slot := by
    split at ht
    · rcases appendCompensationToken_ok ht with ⟨-, rfl⟩ | ⟨route, writer, -, -, -, -, -, rfl⟩
      · exact Drives.refl _
      · exact drives_rests rfl rfl rfl rfl
    · cases ht
      exact Drives.refl _
  have hsettled : Drives image t.slot w'.slot :=
    settleExecution_drives (w := t.recorded journal (t.answerRecord result)) hsettle
  exact htoken.trans hsettled

theorem SlotSent.drives (h : SlotSent image w w') : Drives image w.slot w'.slot := by
  have hpacket : ∀ registered, Drives image w.slot (w.setSlot fun slot =>
      { slot with packet := patchActionId slot.packet registered }).slot := fun _ =>
    drives_rests rfl rfl rfl rfl
  cases h with
  | released missing => exact drives_rests rfl rfl rfl rfl
  | waits registered => exact hpacket registered
  | @sent connection registered journal execution plain found marked =>
      refine drives_operates .markSent (.of .ok) rfl rfl rfl ?_
      simp only [Execution.operate, marked]
      rfl
  | compensationSent compensating found marked =>
      obtain ⟨-, hsent, -⟩ := Saga.Driver.markSent_ok marked
      exact drives_begun rfl (begun_of_state hsent (by decide)) rfl rfl
  | failed plain failed => exact (hpacket _).trans (failToSend_drives failed)
  | compensationFailed compensating failed =>
      obtain ⟨driver, log, hmark, rfl⟩ := failToSendCompensation_ok failed
      obtain ⟨-, hblocked, -⟩ := Saga.Driver.markNotSent_ok hmark
      exact drives_fails .notSent rfl (begun_of_state hblocked (by decide)) rfl rfl

theorem loseCompensation_drives (h : w.loseCompensation = some (.ok, w')) :
    Drives image w.slot w'.slot := by
  obtain ⟨driver, log, hmark, rfl⟩ := loseCompensation_ok h
  obtain ⟨-, hblocked, -⟩ := Saga.Driver.markUnknown_ok hmark
  exact drives_fails .unknown rfl (begun_of_state hblocked (by decide)) rfl rfl

theorem RefusedCompensation.drives (h : RefusedCompensation w w') :
    Drives image w.slot w'.slot := by
  obtain ⟨driver, log, hmark, rfl⟩ := h
  obtain ⟨-, hblocked, -⟩ := Saga.Driver.markUnknown_ok hmark
  exact drives_fails .unknown rfl (begun_of_state hblocked (by decide)) rfl rfl

theorem CompensationReceived.drives {result : Option Frame}
    (h : CompensationReceived image w result w') : Drives image w.slot w'.slot := by
  cases h with
  | refused refused => exact refused.drives
  | @unanswered result status driver log w' failed refused =>
      obtain ⟨driver', log', hmark, rfl⟩ := refused
      obtain ⟨-, hblocked, -⟩ := Saga.Driver.markUnknown_ok hmark
      exact drives_fails .unknown rfl (begun_of_state hblocked (by decide)) rfl rfl
  | @accepted result driver log u accepted settled =>
      obtain ⟨execution, hplan, rfl, -⟩ := Saga.Driver.acceptResult_ok accepted
      have hbegun := Saga.Driver.accepts_begun hplan
      rcases settled with ⟨-, rfl⟩ | ⟨-, rfl⟩ | ⟨-, -, rfl⟩
      · exact drives_begun rfl hbegun rfl rfl
      · exact drives_fails execution.compensationOutcome rfl hbegun rfl rfl
      · exact drives_begun rfl hbegun rfl rfl

theorem SlotReceived.drives {received : Received} (h : SlotReceived image received w w') :
    Drives image w.slot w'.slot := by
  cases h with
  | same => exact Drives.refl _
  | lost plain missing lost => exact loseExecution_drives lost
  | compensationLost compensating missing lost => exact loseCompensation_drives lost
  | refused plain refused => exact refuseExecution_drives refused
  | @unanswered result status execution w' plain rejected failed refused =>
      have hrefused : Drives image w.slot (w.setExecution execution).slot := by
        refine drives_operates (.acceptResult result) (.of status) rfl rfl rfl ?_
        simp only [Execution.operate, rejected]
        rfl
      exact hrefused.trans (refuseExecution_drives refused)
  | @accepted connection registered packet result execution w' plain found read decoded accepted
      recorded =>
      have haccepted : Drives image w.slot (w.setExecution execution).slot := by
        refine drives_operates (.acceptResult result) (.of .ok) rfl rfl rfl ?_
        simp only [Execution.operate, accepted]
        rfl
      exact haccepted.trans (recordResult_drives recorded)
  | compensation compensating found read settled => exact settled.drives

/-! ## The parts of a poll -/

theorem prepareSlot_drives (h : w.prepareSlot image = some (.ok, w')) :
    Drives image w.slot w'.slot := by
  unfold prepareSlot at h
  split at h
  · cases h; exact Drives.refl _
  split at h
  · exact Call.each_rel (R := fun u v => Drives image u.slot v.slot) (fun _ => Drives.refl _)
      Drives.trans (fun _ _ _ => prepareFlow_drives) _ h
  split at h
  · cases h; exact Drives.refl _
  split at h
  · obtain ⟨invocation, packet, driver, log, hprepare, rfl⟩ := prepareCompensation_ok h
    obtain ⟨execution, -, hstate, rfl, -⟩ := Saga.Driver.prepare_ok hprepare
    exact drives_begun rfl (begun_of_state hstate (by decide)) rfl rfl
  · obtain ⟨invocation, packet, execution, journal, hprepare, rfl⟩ := prepareExecution_ok h
    refine drives_operates .prepare ⟨true, some invocation⟩ rfl rfl rfl ?_
    simp only [Execution.operate, hprepare]
    rfl

theorem reconcileSlot_drives (h : w.reconcileSlot image bound = some (.ok, w')) :
    Drives image w.slot w'.slot := by
  have hfree : Drives image w.slot w.releaseAction.slot := drives_rests rfl rfl rfl rfl
  unfold reconcileSlot at h
  split at h
  · cases h; exact Drives.refl _
  split at h
  · exact Call.each_rel (R := fun u v => Drives image u.slot v.slot) (fun _ => Drives.refl _)
      Drives.trans (fun _ _ _ => reconcileFlow_drives) _ h
  split at h
  · cases h; exact Drives.refl _
  split at h
  · cases h; exact hfree
  split at h
  · exact hfree.trans (loseCompensation_drives h)
  · exact hfree.trans (loseExecution_drives h)

end AtSlot

namespace Loop

open Slot (Drives drives_rests)

variable {image : Image} {bound : Nat} {loop loop' : Loop} {r : LoopResult}

/-- What is done to the slots of a loop. -/
def DrivesAll (image : Image) (loop loop' : Loop) : Prop :=
  ∀ i, Drives image (loop.slots i) (loop'.slots i)

theorem DrivesAll.refl (loop : Loop) : DrivesAll image loop loop := fun _ => Drives.refl _

theorem DrivesAll.trans {loop'' : Loop} (h : DrivesAll image loop loop')
    (h' : DrivesAll image loop' loop'') : DrivesAll image loop loop'' :=
  fun i => (h i).trans (h' i)

theorem put_drives {i : SlotIndex} {w : AtSlot} (h : Drives image (loop.slots i) w.slot) :
    DrivesAll image loop (loop.put i w) := by
  intro j
  by_cases hj : j = i
  · subst hj
    rw [put_slots_self]
    exact h
  · rw [put_slots_of_ne _ _ hj]
    exact Drives.refl _

theorem onSlot_drives {i : SlotIndex} {call : AtSlot → Call LoopResult AtSlot}
    (hcall : ∀ {w w' : AtSlot}, call w = some (.ok, w') → Drives image w.slot w'.slot)
    (h : loop.onSlot i call = some (.ok, loop')) : DrivesAll image loop loop' := by
  obtain ⟨w, hw, rfl⟩ := onSlot_some h
  exact put_drives (hcall hw)

theorem serveFlow_drives {event : Event} {i : FlowIndex} {w w' : AtSlot}
    (h : serveFlow image bound event i w = some (.ok, w')) : Drives image w.slot w'.slot := by
  unfold serveFlow at h
  cases hgroup : w.slot.group with
  | none => rw [hgroup] at h; cases h; exact Drives.refl _
  | some group =>
      rw [hgroup] at h
      simp only at h
      split at h
      · exact (AtSlot.sendGroupInvocation_ok h).drives
      split at h
      · exact (AtSlot.receiveGroupResult_ok h).drives
      split at h
      · split at h
        · exact (AtSlot.sendGroupInvocation_ok h).drives
        · exact (AtSlot.receiveGroupResult_ok h).drives
      · cases h; exact Drives.refl _

theorem serveSlot_drives {event : Event} {w w' : AtSlot}
    (h : serveSlot image event w = some (.ok, w')) : Drives image w.slot w'.slot := by
  unfold serveSlot at h
  split at h
  · exact (AtSlot.sendInvocation_ok h).drives
  split at h
  · exact (AtSlot.receiveResult_ok h).drives
  split at h
  · split at h
    · exact (AtSlot.sendInvocation_ok h).drives
    · exact (AtSlot.receiveResult_ok h).drives
  · cases h; exact Drives.refl _

theorem serve_drives {item : PollItem} {event : Event}
    (h : loop.serve image bound item event = some (.ok, loop')) : DrivesAll image loop loop' := by
  obtain ⟨w, rfl, ⟨flow, -, hw⟩ | ⟨-, hw⟩⟩ := serve_some h
  · exact put_drives (serveFlow_drives hw)
  · exact put_drives (serveSlot_drives hw)

theorem SameButOwned.drives (h : SameButOwned loop loop') : DrivesAll image loop loop' := by
  intro i
  obtain ⟨owns, hslot⟩ := h.slots i
  rw [hslot]
  exact drives_rests rfl rfl rfl rfl

theorem beginPoll_drives (h : loop.beginPoll image bound = some (.ok, loop')) :
    DrivesAll image loop loop' := by
  obtain ⟨prepared, reconciled, hprepare, hreconcile, hassign⟩ := beginPoll_stages h
  have hfirst : DrivesAll image ({ loop with progress := 0 } : Loop) prepared :=
    Call.each_rel (R := DrivesAll image) DrivesAll.refl DrivesAll.trans
      (fun _ _ _ hslot => onSlot_drives AtSlot.prepareSlot_drives hslot) _ hprepare
  have hround : ∀ {i : SlotIndex} {l l' : Loop},
      onSlot i (AtSlot.reconcileSlot image bound) l = some (.ok, l') → DrivesAll image l l' :=
    fun hslot => onSlot_drives AtSlot.reconcileSlot_drives hslot
  have hsecond : DrivesAll image ({ prepared with
      schedulerCursor := (prepared.schedulerCursor + 1) % maxExecutions } : Loop) reconciled :=
    Call.each_rel (R := DrivesAll image) DrivesAll.refl DrivesAll.trans
      (fun _ _ _ hslot => hround hslot) _ hreconcile
  rw [hassign]
  intro i
  have hboth : Drives image (loop.slots i) (reconciled.slots i) := (hfirst i).trans (hsecond i)
  exact hboth.trans ((assignAvailableActions_same reconciled).drives i)

/-- A poll that succeeds drives every slot. -/
theorem poll_drives {events : PollItem → Event}
    (h : loop.poll image bound events = some (.ok, loop')) : DrivesAll image loop loop' := by
  rw [poll_eq] at h
  obtain ⟨begun, hbegin, hserve⟩ := Call.andThen_ok h
  have hitems : DrivesAll image begun loop' :=
    Call.each_rel (R := DrivesAll image) DrivesAll.refl DrivesAll.trans
      (fun _ _ _ hitem => serve_drives hitem) _ hserve
  exact (beginPoll_drives hbegin).trans hitems

/-! ## Calls between polls -/

/-- No slot that is in use has changed. -/
def Idles (loop loop' : Loop) : Prop :=
  ∀ i, loop'.slots i = loop.slots i ∨ ((loop.slots i).active = false ∧ loop'.slots i = {})

theorem Idles.refl (loop : Loop) : Idles loop loop := fun _ => .inl rfl

theorem idles_cleared {i : SlotIndex} (hslots : loop'.slots = Function.update loop.slots i {})
    (hfree : (loop.slots i).active = false) : Idles loop loop' := by
  intro j
  rw [hslots]
  by_cases hj : j = i
  · subst hj
    exact .inr ⟨hfree, Function.update_self _ _ _⟩
  · exact .inl (Function.update_of_ne hj _ _)

/-- A free slot takes up an execution; nobody had its id. -/
structure Takes (image : Image) (loop loop' : Loop) (executionId : UInt64) (i : SlotIndex) :
    Prop where
  unknown : loop.findExecution executionId = none
  free : (loop.slots i).active = false
  others : ∀ j, j ≠ i → loop'.slots j = loop.slots j
  active : (loop'.slots i).active = true
  runs : (loop'.slots i).executionId = executionId

/-- What an admission that succeeds has checked, and what it leaves. -/
structure Admits (image : Image) (loop loop' : Loop) (executionId : UInt64) (i : SlotIndex) : Prop
    extends Takes image loop loop' executionId i where
  nonzero : executionId ≠ 0
  last : executionId ≠ uint64Max
  floor : loop.minimumExecutionId ≠ 0 → loop.minimumExecutionId ≤ executionId
  raised : loop'.minimumExecutionId =
    if loop.minimumExecutionId ≠ 0 then executionId + 1 else 0
  fresh : ¬ (loop'.slots i).Begun
  group : ∀ group, (loop'.slots i).group = some group → GroupExecution.Starts image group
  execution : (loop'.slots i).group = none →
    (Execution.system image).Init (loop'.slots i).execution

theorem firstIndex_free {i : SlotIndex}
    (h : (firstIndex fun i => !(loop.slots i).active) = some i) : (loop.slots i).active = false := by
  have hfree := firstIndex_some h
  simpa using hfree

/-- A slot that is filled with a new execution and recorded, or cleared if it cannot be recorded. -/
theorem admitSlot_cases {i : SlotIndex} {slot : Slot} {used : Fin maxGroupExecutions → Bool}
    (h : loop.admitSlot i slot used = some (r, loop')) :
    (r = .ok ∧ loop'.slots = Function.update loop.slots i { slot with active := true } ∧
      loop'.minimumExecutionId =
        if loop.minimumExecutionId ≠ 0 then slot.executionId + 1 else 0) ∨
      (r ≠ .ok ∧ loop'.slots = Function.update loop.slots i {} ∧
        loop'.minimumExecutionId = loop.minimumExecutionId) := by
  unfold admitSlot at h
  split at h
  · cases h
  · rename_i w hw
    obtain ⟨journal, -, rfl⟩ := AtSlot.journalRecord_ok hw
    cases h
    exact .inl ⟨rfl, rfl, rfl⟩
  · rename_i failed w hfailed hcall
    cases h
    exact .inr ⟨hfailed, rfl, rfl⟩

/-- An admission takes up an execution in a free slot, or leaves every slot in use alone. -/
theorem admitExecution_cases {executionId : UInt64} {inputType : UInt16} {input : Bytes}
    (h : loop.admitExecution image bound executionId inputType input = some (r, loop')) :
    (r = .ok ∧ ∃ i, Admits image loop loop' executionId i) ∨
      (r ≠ .ok ∧ Idles loop loop' ∧ loop'.minimumExecutionId = loop.minimumExecutionId) := by
  have hsame : ∀ {r₁ : LoopResult}, r₁ ≠ .ok → Call.report r₁ loop = some (r, loop') →
      r ≠ .ok ∧ Idles loop loop' ∧ loop'.minimumExecutionId = loop.minimumExecutionId := by
    intro r₁ hr h
    cases h
    exact ⟨hr, Idles.refl _, rfl⟩
  unfold admitExecution at h
  split at h
  · exact .inr (hsame (by decide) h)
  rename_i hvalid
  split at h
  · exact .inr (hsame (by decide) h)
  rename_i hfloor
  split at h
  · exact .inr (hsame (by decide) h)
  rename_i hunknown
  split at h
  · exact .inr (hsame (by decide) h)
  rename_i i hindex
  have hfree := firstIndex_free hindex
  have hclear : ∀ {r₁ : LoopResult}, r₁ ≠ .ok →
      Call.report r₁ { loop with slots := Function.update loop.slots i {} } = some (r, loop') →
      r ≠ .ok ∧ Idles loop loop' ∧ loop'.minimumExecutionId = loop.minimumExecutionId := by
    intro r₁ hr h
    cases h
    exact ⟨hr, idles_cleared rfl hfree, rfl⟩
  -- what is left is to record the execution that was started
  have hadmit : ∀ {slot : Slot} {used : Fin maxGroupExecutions → Bool},
      slot.executionId = executionId → ¬ slot.Begun →
      (∀ group, slot.group = some group → GroupExecution.Starts image group) →
      (slot.group = none → (Execution.system image).Init slot.execution) →
      loop.admitSlot i slot used = some (r, loop') →
      (r = .ok ∧ ∃ i, Admits image loop loop' executionId i) ∨
        (r ≠ .ok ∧ Idles loop loop' ∧ loop'.minimumExecutionId = loop.minimumExecutionId) := by
    intro slot used hid hfresh hgroup hexecution h
    rcases admitSlot_cases h with ⟨hok, hslots, hraised⟩ | ⟨hfailed, hslots, hsame⟩
    · refine .inl ⟨hok, i, ?_⟩
      have hslot : loop'.slots i = { slot with active := true } := by
        rw [hslots, Function.update_self]
      rw [not_or] at hvalid
      exact {
        unknown := by simpa using hunknown
        free := hfree
        others := fun j hj => by rw [hslots, Function.update_of_ne hj]
        active := by rw [hslot]
        runs := by rw [hslot]; exact hid
        nonzero := hvalid.1
        last := hvalid.2
        floor := fun hset => by
          rw [not_and, UInt64.not_lt] at hfloor
          exact hfloor hset
        raised := by rw [hraised, hid]
        fresh := by rw [hslot]; exact hfresh
        group := by rw [hslot]; exact hgroup
        execution := by rw [hslot]; exact hexecution }
    · exact .inr ⟨hfailed, idles_cleared hslots hfree, hsame⟩
  simp only at h
  split at h
  · split at h
    · exact .inr (hclear (by decide) h)
    · split at h
      · cases h
      · exact .inr (hclear (by decide) h)
      · rename_i g _ group hstart
        have hstarts : GroupExecution.Starts image group := ⟨bound, executionId, _, _, _, _, hstart⟩
        refine hadmit ?_ (fun hbegun => hbegun rfl) ?_ ?_ h
        · exact GroupExecution.starts_executionId hstart
        · intro group' hgroup'
          cases hgroup'
          exact hstarts
        · intro hnone
          cases hnone
  · split at h
    · exact .inr (hclear (by decide) h)
    · rename_i execution hstart
      refine hadmit ?_ (fun hbegun => hbegun rfl) ?_ ?_ h
      · exact (Execution.start_ready hstart).2.1
      · intro group' hgroup'
        cases hgroup'
      · exact fun _ => ⟨executionId, _, _, _, hstart⟩

/-- The slot of an execution that is known. -/
theorem findExecution_some {executionId : UInt64} {i : SlotIndex}
    (h : loop.findExecution executionId = some i) :
    (loop.slots i).active = true ∧ (loop.slots i).executionId = executionId := by
  have hfound := firstIndex_some h
  simpa using hfound

theorem findExecution_none {executionId : UInt64} (h : loop.findExecution executionId = none)
    {i : SlotIndex} (hactive : (loop.slots i).active = true) :
    (loop.slots i).executionId ≠ executionId := by
  have hmissing := firstIndex_none.mp h i
  intro hid
  simp [hactive, hid] at hmissing

/-- A slot that is given free: its execution is complete, and nothing is left of it. -/
structure Frees (loop loop' : Loop) (executionId : UInt64) (i : SlotIndex) : Prop where
  found : loop.findExecution executionId = some i
  complete : (loop.slots i).complete = true
  settled : (loop.slots i).compensating = false
  empty : loop'.slots i = {}
  others : ∀ j, j ≠ i → loop'.slots j = loop.slots j

theorem release_cases {executionId : UInt64} (h : loop.release executionId = some (r, loop')) :
    loop'.minimumExecutionId = loop.minimumExecutionId ∧
      ((r = .ok ∧ ∃ i, Frees loop loop' executionId i) ∨ (r ≠ .ok ∧ loop' = loop)) := by
  unfold release at h
  split at h
  · cases h; exact ⟨rfl, .inr ⟨by decide, rfl⟩⟩
  split at h
  · cases h; exact ⟨rfl, .inr ⟨by decide, rfl⟩⟩
  rename_i i hfound
  simp only at h
  split at h
  · cases h; exact ⟨rfl, .inr ⟨by decide, rfl⟩⟩
  · rename_i hopen
    rw [not_or, not_not, Bool.not_eq_true] at hopen
    cases h
    refine ⟨rfl, .inl ⟨rfl, i, hfound, hopen.1, hopen.2, Function.update_self _ _ _, ?_⟩⟩
    exact fun j hj => Function.update_of_ne hj _ _

/-- A compensation is taken up again in a free slot, or every slot in use is left alone. -/
theorem resumeSaga_cases {execution : Saga.Execution}
    (h : loop.resumeSaga image execution = some (r, loop')) :
    loop'.minimumExecutionId = loop.minimumExecutionId ∧
      ((r = .ok ∧ execution.executionId ≠ 0 ∧ ∃ i driver result,
          Takes image loop loop' execution.executionId i ∧ driver.execution = execution ∧
          execution.state = .ready ∧ loop'.slots i = resumedSlot driver result ∧
          (result = none ∨ ∃ found, result = some found ∧
            recoveredResult image execution loop = some found)) ∨
        (r ≠ .ok ∧ Idles loop loop')) := by
  unfold resumeSaga at h
  split at h
  · cases h; exact ⟨rfl, .inr ⟨by decide, Idles.refl _⟩⟩
  rename_i hopen
  simp only [not_or, not_not] at hopen
  obtain ⟨hready, -, hzero, -, -, hunknown⟩ := hopen
  split at h
  · cases h; exact ⟨rfl, .inr ⟨by decide, Idles.refl _⟩⟩
  rename_i i hindex
  have hfree := firstIndex_free hindex
  simp only at h
  split at h
  · rename_i driver log hstart
    have hdriver : driver.execution = execution := by
      rw [Saga.Driver.resume_ok hready hstart]
    have hresumed : ∀ result, Takes image loop
        { loop with slots := Function.update loop.slots i (resumedSlot driver result) }
          execution.executionId i := fun result => {
      unknown := by simpa using hunknown
      free := hfree
      others := fun j hj => Function.update_of_ne hj _ _
      active := by simp only [Function.update_self]; rfl
      runs := by
        simp only [Function.update_self]
        show driver.execution.executionId = _
        rw [hdriver] }
    have hslot : ∀ result, ({ loop with
        slots := Function.update loop.slots i (resumedSlot driver result) } : Loop).slots i =
          resumedSlot driver result := fun result => Function.update_self _ _ _
    split at h
    · split at h
      · cases h; exact ⟨rfl, .inr ⟨by decide, idles_cleared rfl hfree⟩⟩
      · rename_i found hfound
        cases h
        exact ⟨rfl, .inl ⟨rfl, hzero, i, driver, some found, hresumed _, hdriver, hready, hslot _,
          .inr ⟨found, rfl, hfound⟩⟩⟩
    · cases h
      exact ⟨rfl, .inl ⟨rfl, hzero, i, driver, none, hresumed _, hdriver, hready, hslot _,
        .inl rfl⟩⟩
  · cases h; exact ⟨rfl, .inr ⟨by decide, idles_cleared rfl hfree⟩⟩

end Loop

end Daemon

end Hermas
