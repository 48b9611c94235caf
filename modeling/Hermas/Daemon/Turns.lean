import Hermas.Daemon.Clients
import Hermas.Daemon.Results
import Hermas.Result.StoreLog

/-!
# What one go does to a result

One go of a sequential slot leaves its result alone, or puts an outcome without a value in its
place because the compensation failed, or lets the execution run on. Only a go that finds the
execution running can end it, and that go puts the end on record: the store takes no record
without its types or with a value that is too long, and so a result that is on record can be shown.
-/

namespace Hermas

namespace Execution

variable {image : Image} {execution execution' : Execution}

/-- The result of an execution that is complete is one that a packet can hold. -/
def Presentable (execution : Execution) : Prop :=
  execution.state = .complete →
    execution.terminalOutcome = .notSent ∨ execution.terminalOutcome = .unknown ∨
      (typedOutcome execution.terminalOutcome = true ∧ execution.valueSourceType ≠ 0 ∧
        execution.valueDestinationType ≠ 0 ∧
        execution.value.length ≤ Protocol.maxPayloadSize)

theorem presentable_running (h : execution.state ≠ .complete) : execution.Presentable :=
  fun hcomplete => absurd hcomplete h

/-- The value came to rest without a result. -/
theorem Rests.presentable {outcome : Outcome} (h : Rests execution outcome execution')
    (huntyped : outcome = .notSent ∨ outcome = .unknown) : execution'.Presentable := by
  intro hcomplete
  rcases h.state with ⟨hready, -⟩ | ⟨-, houtcome⟩
  · rw [hready] at hcomplete
    cases hcomplete
  · rw [houtcome]
    rcases huntyped with rfl | rfl
    · exact .inl rfl
    · exact .inr (.inl rfl)

/-- A result that is presentable is encoded. -/
theorem Presentable.encodes (h : execution.Presentable) (hid : execution.executionId ≠ 0)
    {frame : Frame} (hresult : execution.getResult = .ok frame) :
    ∃ packet, Protocol.encode frame Protocol.maxPacketSize = .ok packet := by
  unfold getResult at hresult
  split at hresult
  · cases hresult
  rename_i hcomplete
  cases hresult
  have hsize : ∀ {n : Nat}, n ≤ Protocol.maxPayloadSize →
      Protocol.headerSize + n ≤ Protocol.maxPacketSize := by
    intro n hn
    unfold Protocol.maxPayloadSize at hn
    unfold Protocol.headerSize Protocol.maxPacketSize at *
    omega
  rcases h (not_not.mp hcomplete) with hnot | hunknown | ⟨htyped, hsource, hdestination, hvalue⟩
  · refine ⟨_, Protocol.encode_ok.mpr ⟨?_, ?_, hsize ?_, rfl⟩⟩ <;>
      simp [hnot, typedOutcome, Protocol.validateSemantics, hid]
  · refine ⟨_, Protocol.encode_ok.mpr ⟨?_, ?_, hsize ?_, rfl⟩⟩ <;>
      simp [hunknown, typedOutcome, Protocol.validateSemantics, hid]
  · have houtcome : execution.terminalOutcome = .success ∨ execution.terminalOutcome = .appError := by
      simpa [typedOutcome] using htyped
    refine ⟨_, Protocol.encode_ok.mpr ⟨?_, ?_, hsize ?_, rfl⟩⟩
    · simpa [htyped, hsource] using hvalue
    · simp [htyped, hsource, hdestination, hid, houtcome, Protocol.validateSemantics]
    · simpa [htyped, hsource] using hvalue

end Execution

namespace Daemon

open Loop (Event)

/-- The result of a slot and its marks are left alone. -/
structure Slot.Spares (slot slot' : Slot) : Prop where
  group : slot'.group = slot.group
  execution : slot'.execution = slot.execution
  finished : slot'.journalFinished = slot.journalFinished
  stored : slot'.resultStored = slot.resultStored

theorem Slot.Spares.trans {s t u : Slot} (h : s.Spares t) (h' : t.Spares u) : s.Spares u where
  group := h'.group.trans h.group
  execution := h'.execution.trans h.execution
  finished := h'.finished.trans h.finished
  stored := h'.stored.trans h.stored

/-- Nothing is on record for the execution of the slot. -/
def Slot.Unmarked (slot : Slot) : Prop := slot.journalFinished = false ∧ slot.resultStored = false

namespace AtSlot

open Slot (Spares Unmarked)

variable {image : Image} {bound : Nat} {w w' u : AtSlot}

/-- An end is reached: what comes of it can be shown, and is on record. -/
structure Settles (w w' : AtSlot) : Prop where
  group : w'.slot.group = none
  presentable : w.slot.Unmarked → w'.slot.execution.Presentable
  told : w.slot.Unmarked → w'.Told

/-- What one go does to the result of a sequential slot. -/
inductive Turn (w w' : AtSlot) : Prop
  | spares (spared : Spares w.slot w'.slot)
  | fails (outcome : Outcome) (failed : Spares (w.failCompensation outcome).slot w'.slot)
  | runs (group : w'.slot.group = w.slot.group) (finished : w'.slot.journalFinished =
      w.slot.journalFinished) (stored : w'.slot.resultStored = w.slot.resultStored)
      (before : w.slot.execution.state ≠ .complete) (behind : w'.slot.execution.state ≠ .complete)
  | settles (running : w.slot.execution.state ≠ .complete) (settled : Settles w w')

theorem turn_refl (w : AtSlot) : Turn w w := .spares ⟨rfl, rfl, rfl, rfl⟩

theorem Settles.spared (h : Settles w u) (hgrown : Grown u.toShared w')
    (hs : Spares u.slot w'.slot) : Settles w w' where
  group := hs.group.trans h.group
  presentable := fun hmarks => hs.execution ▸ h.presentable hmarks
  told := by
    intro hmarks
    refine (h.told hmarks).keep hgrown ?_ ?_ hs.finished hs.stored
    · unfold Slot.complete
      rw [hs.group, hs.execution]
    · unfold finalResult
      rw [hs.group, hs.execution]

theorem Settles.advance (h : Settles w u) : Settles w u.advance :=
  h.spared (Shared.Grows.refl u.toShared) ⟨rfl, rfl, rfl, rfl⟩

/-! ## Records of an end -/

theorem beginLiveCompensation_spares {outcome : Outcome}
    (hcall : w.beginLiveCompensation image outcome = some (.ok, w')) : Spares w.slot w'.slot := by
  rcases beginLiveCompensation_ok hcall with ⟨-, rfl⟩ | ⟨-, -, plan, driver, log, -, -, rfl⟩
  · exact ⟨rfl, rfl, rfl, rfl⟩
  · exact ⟨rfl, rfl, rfl, rfl⟩

theorem appendFinished_same (hcall : w.appendFinishedIfComplete = some (.ok, w')) :
    w'.slot.group = w.slot.group ∧ w'.slot.execution = w.slot.execution := by
  rcases appendFinishedIfComplete_ok hcall with ⟨-, rfl⟩ | ⟨-, -, final, journal, -, -, rfl⟩
  · exact ⟨rfl, rfl⟩
  · exact ⟨rfl, rfl⟩

theorem appendResult_same (hcall : w.appendResultIfComplete = some (.ok, w')) :
    w'.slot.group = w.slot.group ∧ w'.slot.execution = w.slot.execution := by
  rcases appendResultIfComplete_ok hcall with ⟨-, rfl⟩ | ⟨-, -, final, results, -, -, -, rfl⟩
  · exact ⟨rfl, rfl⟩
  · exact ⟨rfl, rfl⟩

/-- The store takes only what a packet can hold. -/
theorem appendResult_presentable (hgroup : w.slot.group = none)
    (hstored : w.slot.resultStored = false)
    (huntyped : w.slot.execution.state = .complete →
      Execution.typedOutcome w.slot.execution.terminalOutcome = false →
        w.slot.execution.Presentable)
    (hcall : w.appendResultIfComplete = some (.ok, w')) : w.slot.execution.Presentable := by
  intro hcomplete
  rcases appendResultIfComplete_ok hcall with
    ⟨hopen, -⟩ | ⟨-, -, final, results, hfinal, htyped, happend, -⟩
  · rcases hopen with hrunning | hbefore | ⟨final, hfinal, huntyped'⟩
    · rw [Slot.complete, hgroup] at hrunning
      simp [hcomplete] at hrunning
    · rw [hstored] at hbefore
      cases hbefore
    · unfold finalResult at hfinal
      rw [hgroup] at hfinal
      simp only [Execution.getResult, hcomplete, ne_eq, not_true, if_false] at hfinal
      cases hfinal
      exact huntyped hcomplete huntyped' hcomplete
  · unfold finalResult at hfinal
    rw [hgroup] at hfinal
    simp only [Execution.getResult] at hfinal
    split at hfinal
    · cases hfinal
    cases hfinal
    obtain ⟨encoded, -, hencode⟩ := appended_stored happend
    obtain ⟨⟨-, -, -, -, -, hsource, hdestination, hvalue⟩, -, -⟩ := ResultStore.encode_ok.mp hencode
    simp only [resultRecord] at hsource hdestination hvalue
    have htyped : Execution.typedOutcome w.slot.execution.terminalOutcome = true := htyped
    rw [if_pos htyped] at hsource hdestination
    rw [if_pos htyped, if_neg hsource] at hvalue
    exact .inr (.inr ⟨htyped, hsource, hdestination, hvalue⟩)

/-! ## Deliveries that end -/

/-- A delivery that ended without a result needs nothing but the record of the end. -/
theorem finished_settles {execution : Execution} {outcome : Outcome}
    (hgroup : w.slot.group = none) (hrests : Execution.Rests execution outcome w.slot.execution)
    (huntyped : outcome = .notSent ∨ outcome = .unknown)
    (hcall : w.appendFinishedIfComplete = some (.ok, w')) : Settles w w' := by
  obtain ⟨hgroup', hexecution⟩ := appendFinished_same hcall
  refine ⟨hgroup'.trans hgroup, fun _ => ?_, fun hmarks => ?_⟩
  · rw [hexecution]
    exact hrests.presentable huntyped
  · refine finished_told hcall hgroup hrests ?_ hmarks
    rcases huntyped with rfl | rfl
    · rfl
    · rfl

theorem settleExecution_settles {appError : Bool} (hgroup : w.slot.group = none)
    (huntyped : w.slot.execution.state = .complete →
      Execution.typedOutcome w.slot.execution.terminalOutcome = false →
        w.slot.execution.Presentable)
    (hcall : w.settleExecution image appError = some (.ok, w')) : Settles w w' := by
  obtain ⟨u, v, x, hresult, hfinished, hbegin, rfl⟩ := settleExecution_ok hcall
  obtain ⟨hgroup', hexecution'⟩ := appendResult_same hresult
  obtain ⟨hgroup'', hexecution''⟩ := appendFinished_same hfinished
  have hrecorded : Settles w v := by
    refine ⟨(hgroup''.trans hgroup').trans hgroup, fun hmarks => ?_, fun hmarks =>
      records_told hresult hfinished hmarks⟩
    rw [hexecution'', hexecution']
    exact appendResult_presentable (w := w.releaseAction) hgroup hmarks.2 huntyped hresult
  split at hbegin
  · have hgrown : Grown v.toShared x :=
      Grown.beginLiveCompensation (Shared.Grows.refl v.toShared) _ _ hbegin
    exact (hrecorded.spared hgrown (beginLiveCompensation_spares hbegin)).advance
  · cases hbegin
    exact hrecorded.advance

theorem loseExecution_settles (hgroup : w.slot.group = none)
    (hcall : w.loseExecution image = some (.ok, w')) :
    w.slot.execution.state = .sent ∧ Settles w w' := by
  obtain ⟨journal, execution, u, -, hmark, hfinished, rfl⟩ := loseExecution_ok hcall
  obtain ⟨hstate, hrests⟩ := Execution.finishDeliveryOutcome_rests hmark
  have hsettles := (finished_settles (w := ((w.recorded journal
    (w.actionRecord .actionUnknown .unknown)).setExecution execution).releaseAction) hgroup hrests
      (.inr rfl) hfinished).advance
  exact ⟨hstate, hsettles.group, hsettles.presentable, hsettles.told⟩

theorem failToSend_settles (hgroup : w.slot.group = none)
    (hcall : w.failToSend image = some (.ok, w')) :
    w.slot.execution.state = .prepared ∧ Settles w w' := by
  obtain ⟨journal, execution, u, v, -, hmark, hfinished, hbegin, rfl⟩ := failToSend_ok hcall
  obtain ⟨hstate, hrests⟩ := Execution.finishDeliveryOutcome_rests hmark
  have hsettles := finished_settles (w := (((w.recorded journal
    (w.actionRecord .actionFailed .notSent)).setExecution execution).releaseAction.dropAction
      w.slot.appId w.slot.actionId)) hgroup hrests (.inl rfl) hfinished
  have hgrown : Grown u.toShared v :=
    Grown.beginLiveCompensation (Shared.Grows.refl u.toShared) _ _ hbegin
  have hbegun := (hsettles.spared hgrown (beginLiveCompensation_spares hbegin)).advance
  exact ⟨hstate, hbegun.group, hbegun.presentable, hbegun.told⟩

theorem refuseExecution_settles (hgroup : w.slot.group = none)
    (hcall : w.refuseExecution image = some (.ok, w')) :
    w.slot.execution.state = .sent ∧ Settles w w' := by
  obtain ⟨journal, execution, -, hmark, hsettle⟩ := refuseExecution_ok hcall
  obtain ⟨hstate, hrests⟩ := Execution.finishDeliveryOutcome_rests hmark
  have hsettles := settleExecution_settles (w := ((w.recorded journal
    (w.actionRecord .actionUnknown .unknown)).setExecution execution).dropAction w.slot.appId
      w.slot.actionId) hgroup (fun _ _ => hrests.presentable (.inr rfl)) hsettle
  exact ⟨hstate, hsettles.group, hsettles.presentable, hsettles.told⟩

/-- A result that is accepted ends the execution with an outcome that is typed. -/
theorem recordResult_settles {result : Frame} {execution : Execution} (hgroup : w.slot.group = none)
    (haccept : w.slot.execution.acceptResult image result = (.ok, execution))
    (hcall : (w.setExecution execution).recordResult image result = some (.ok, w')) :
    w.slot.execution.state = .sent ∧ Settles w w' := by
  obtain ⟨hstate, hanswers, next, -, hrests⟩ := Execution.acceptResult_rests haccept
  have htyped : Execution.typedOutcome result.outcome = true := by
    simp only [Execution.answers, Bool.and_eq_true] at hanswers
    exact hanswers.2
  obtain ⟨t, journal, htoken, -, hsettle⟩ := recordResult_ok hcall
  have hsame : Spares (w.setExecution execution).slot t.slot := by
    split at htoken
    · rcases appendCompensationToken_ok htoken with ⟨-, rfl⟩ | ⟨route, compensation, -, -, -, -, -, rfl⟩
      · exact ⟨rfl, rfl, rfl, rfl⟩
      · exact ⟨rfl, rfl, rfl, rfl⟩
    · cases htoken
      exact ⟨rfl, rfl, rfl, rfl⟩
  have hexecution : t.slot.execution = execution := hsame.execution
  have hsettles := settleExecution_settles (w := t.recorded journal (t.answerRecord result))
    (hsame.group.trans hgroup) (fun hcomplete huntyped => by
      have hcomplete : t.slot.execution.state = .complete := hcomplete
      have huntyped : Execution.typedOutcome t.slot.execution.terminalOutcome = false := huntyped
      rw [hexecution] at hcomplete huntyped
      rcases hrests.state with ⟨hready, -⟩ | ⟨-, houtcome⟩
      · rw [hready] at hcomplete
        cases hcomplete
      · rw [houtcome, htyped] at huntyped
        cases huntyped) hsettle
  have hmarks : w.slot.Unmarked → (t.recorded journal (t.answerRecord result)).slot.Unmarked :=
    fun hmarks => ⟨hsame.finished.trans hmarks.1, hsame.stored.trans hmarks.2⟩
  exact ⟨hstate, hsettles.group, fun h => hsettles.presentable (hmarks h),
    fun h => hsettles.told (hmarks h)⟩

theorem turn_of_sent (h : w.slot.execution.state = .sent ∧ Settles w w') : Turn w w' :=
  .settles (by rw [h.1]; exact ExecutionState.noConfusion) h.2

/-! ## Goes -/

theorem RefusedCompensation.turn (h : RefusedCompensation w w') : Turn w w' := by
  obtain ⟨driver, log, -, rfl⟩ := h
  exact .fails .unknown ⟨rfl, rfl, rfl, rfl⟩

theorem SlotSent.turn (hgroup : w.slot.group = none) (h : SlotSent image w w') : Turn w w' := by
  cases h with
  | released missing => exact .spares ⟨rfl, rfl, rfl, rfl⟩
  | waits registered => exact .spares ⟨rfl, rfl, rfl, rfl⟩
  | @sent connection registered journal execution plain found marked =>
      unfold Execution.markSent at marked
      split at marked
      · cases marked
      rename_i hstate
      cases marked
      have hprepared : w.slot.execution.state = .prepared := not_not.mp hstate
      exact .runs rfl rfl rfl (by rw [hprepared]; exact ExecutionState.noConfusion)
        ExecutionState.noConfusion
  | compensationSent compensating found marked => exact .spares ⟨rfl, rfl, rfl, rfl⟩
  | @failed registered _ plain failed =>
      obtain ⟨hstate, hsettles⟩ := failToSend_settles (w := w.setSlot fun slot =>
        { slot with packet := patchActionId slot.packet registered }) hgroup failed
      have hprepared : w.slot.execution.state = .prepared := hstate
      exact .settles (by rw [hprepared]; exact ExecutionState.noConfusion)
        ⟨hsettles.group, hsettles.presentable, hsettles.told⟩
  | compensationFailed compensating failed =>
      obtain ⟨driver, log, -, rfl⟩ := failToSendCompensation_ok failed
      exact .fails .notSent ⟨rfl, rfl, rfl, rfl⟩

theorem CompensationReceived.turn {result : Option Frame} (h : CompensationReceived image w result w') :
    Turn w w' := by
  cases h with
  | refused refused => exact refused.turn
  | unanswered failed refused =>
      obtain ⟨driver, log, -, rfl⟩ := refused
      exact .fails .unknown ⟨rfl, rfl, rfl, rfl⟩
  | @accepted result driver log u accepted settled =>
      rcases settled with ⟨-, rfl⟩ | ⟨-, rfl⟩ | ⟨-, -, rfl⟩
      · exact .spares ⟨rfl, rfl, rfl, rfl⟩
      · exact .fails driver.execution.compensationOutcome ⟨rfl, rfl, rfl, rfl⟩
      · exact .spares ⟨rfl, rfl, rfl, rfl⟩

theorem SlotReceived.turn {received : Received} (hgroup : w.slot.group = none)
    (h : SlotReceived image received w w') : Turn w w' := by
  cases h with
  | same => exact turn_refl w
  | lost plain missing lost => exact turn_of_sent (loseExecution_settles hgroup lost)
  | compensationLost compensating missing lost =>
      obtain ⟨driver, log, -, rfl⟩ := loseCompensation_ok lost
      exact .fails .unknown ⟨rfl, rfl, rfl, rfl⟩
  | refused plain refused => exact turn_of_sent (refuseExecution_settles hgroup refused)
  | @unanswered result status execution w' plain rejected failed refused =>
      -- the value may have got stuck on its way; the delivery is still the one that is out
      obtain ⟨hsent, hsettles⟩ := refuseExecution_settles (w := w.setExecution execution) hgroup refused
      have hsent : execution.state = .sent := hsent
      have hstate : w.slot.execution.state = .sent := by
        by_contra hunsent
        unfold Execution.acceptResult at rejected
        rw [if_pos hunsent] at rejected
        obtain ⟨-, rfl⟩ := Prod.mk.inj rejected
        exact hunsent hsent
      exact turn_of_sent ⟨hstate, hsettles.group, hsettles.presentable, hsettles.told⟩
  | accepted plain found read decoded accepted recorded =>
      exact turn_of_sent (recordResult_settles hgroup accepted recorded)
  | compensation compensating found read settled => exact settled.turn

theorem prepareSlot_turn (hgroup : w.slot.group = none)
    (hcall : w.prepareSlot image = some (.ok, w')) : Turn w w' := by
  unfold prepareSlot at hcall
  split at hcall
  · cases hcall
    exact turn_refl w
  split at hcall
  · rename_i hsome
    rw [hgroup] at hsome
    cases hsome
  split at hcall
  · cases hcall
    exact turn_refl w
  split at hcall
  · obtain ⟨invocation, packet, driver, log, -, rfl⟩ := prepareCompensation_ok hcall
    exact .spares ⟨rfl, rfl, rfl, rfl⟩
  · obtain ⟨invocation, packet, execution, journal, hprepare, rfl⟩ := prepareExecution_ok hcall
    unfold Execution.prepare at hprepare
    split at hprepare
    · cases hprepare
    rename_i hstate
    simp only at hprepare
    split at hprepare
    · cases hprepare
    cases hprepare
    have hready : w.slot.execution.state = .ready := not_not.mp hstate
    exact .runs rfl rfl rfl (by rw [hready]; exact ExecutionState.noConfusion)
      ExecutionState.noConfusion

theorem reconcileSlot_turn (hgroup : w.slot.group = none)
    (hcall : w.reconcileSlot image bound = some (.ok, w')) : Turn w w' := by
  unfold reconcileSlot at hcall
  split at hcall
  · cases hcall
    exact turn_refl w
  split at hcall
  · rename_i hsome
    rw [hgroup] at hsome
    cases hsome
  split at hcall
  · cases hcall
    exact turn_refl w
  split at hcall
  · cases hcall
    exact .spares ⟨rfl, rfl, rfl, rfl⟩
  split at hcall
  · obtain ⟨driver, log, -, rfl⟩ := loseCompensation_ok hcall
    exact .fails .unknown ⟨rfl, rfl, rfl, rfl⟩
  · obtain ⟨hstate, hsettles⟩ := loseExecution_settles (w := w.releaseAction) hgroup hcall
    exact turn_of_sent ⟨hstate, hsettles.group, hsettles.presentable, hsettles.told⟩

theorem serveSlot_turn {event : Event} (hgroup : w.slot.group = none)
    (hcall : Loop.serveSlot image event w = some (.ok, w')) : Turn w w' := by
  unfold Loop.serveSlot at hcall
  split at hcall
  · exact (sendInvocation_ok hcall).turn hgroup
  split at hcall
  · exact (receiveResult_ok hcall).turn hgroup
  split at hcall
  · split at hcall
    · exact (sendInvocation_ok hcall).turn hgroup
    · exact (receiveResult_ok hcall).turn hgroup
  · cases hcall
    exact turn_refl w

theorem serveFlow_turn {event : Event} {i : FlowIndex} (hgroup : w.slot.group = none)
    (hcall : Loop.serveFlow image bound event i w = some (.ok, w')) : Turn w w' := by
  unfold Loop.serveFlow at hcall
  rw [hgroup] at hcall
  cases hcall
  exact turn_refl w

end AtSlot

end Daemon

end Hermas
