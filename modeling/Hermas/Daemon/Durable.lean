import Hermas.Daemon.Flight
import Hermas.Daemon.Logs

/-!
# The end of an execution on record

A client asks for the result of its execution at any time, and is given it as soon
as the execution is complete. By then the journal has to say how it ended and, for
a typed result, the store what it came to. A call that closes a delivery while the
execution runs makes these records before it returns, in either interpreter. A
delivery that is closed behind the end of its execution is another matter: the
result may change, and the records are not made again.
-/

namespace Hermas.Daemon

open Loop (Event)

/-- The saga driver of the slot was never begun: its execution never compensated. -/
def Slot.Uncompensated (slot : Slot) : Prop := slot.saga.execution.state = .empty

namespace AtSlot

/-- The end of the slot's execution is on record, and before the end nothing is. -/
structure Told (w : AtSlot) : Prop where
  running : w.slot.complete = false →
    w.slot.journalFinished = false ∧ w.slot.resultStored = false
  finished : ∀ final, w.finalResult = .ok final → w.Finished final
  stored : ∀ final, w.finalResult = .ok final →
    Execution.typedOutcome final.outcome = true → w.Stored final

/-- What holds of every slot: who never compensated has its end on record. -/
structure Durable (w : AtSlot) : Prop where
  begun : w.slot.compensating = true → ¬ w.slot.Uncompensated
  told : w.slot.Uncompensated → w.Told

variable {image : Image} {bound : Nat} {w w' u : AtSlot} {i : FlowIndex} {final : Frame}

theorem finalResult_ok (h : w.finalResult = .ok final) :
    w.slot.complete = true ∧ final.executionId = w.slot.executionId := by
  unfold finalResult at h
  unfold Slot.complete Slot.executionId
  cases hgroup : w.slot.group with
  | none =>
      rw [hgroup] at h
      simp only [Execution.getResult] at h
      split at h
      · cases h
      rename_i hstate
      cases h
      exact ⟨beq_iff_eq.mpr (not_not.mp hstate), rfl⟩
  | some group =>
      rw [hgroup] at h
      simp only [GroupExecution.getResult] at h
      split at h
      · cases h
      rename_i hcomplete
      cases h
      exact ⟨not_not.mp hcomplete, rfl⟩

/-- An execution that goes on has nothing to tell. -/
theorem told_of_running (hcomplete : w.slot.complete = false)
    (hmarks : w.slot.journalFinished = false ∧ w.slot.resultStored = false) : w.Told where
  running := fun _ => hmarks
  finished := fun final hfinal => by
    rw [(finalResult_ok hfinal).1] at hcomplete
    cases hcomplete
  stored := fun final hfinal => by
    rw [(finalResult_ok hfinal).1] at hcomplete
    cases hcomplete

/-- What is on record stays on record. -/
theorem Told.keep (h : w.Told) (hgrown : Grown w.toShared w')
    (hcomplete : w'.slot.complete = w.slot.complete) (hfinal : w'.finalResult = w.finalResult)
    (hfinished : w'.slot.journalFinished = w.slot.journalFinished)
    (hstored : w'.slot.resultStored = w.slot.resultStored) : w'.Told where
  running := by
    rw [hcomplete, hfinished, hstored]
    exact h.running
  finished := fun final hok => (h.finished final (hfinal ▸ hok)).grow hgrown
  stored := fun final hok htyped => (h.stored final (hfinal ▸ hok) htyped).grow hgrown

/-- The records of the end are made in one place; only an untyped result may do without the
store. -/
theorem appendFinished_told (h : w.appendFinishedIfComplete = some (.ok, w'))
    (hfinished : w.slot.journalFinished = false)
    (hrunning : w.slot.complete = false → w.slot.resultStored = false)
    (hstored : ∀ final, w.finalResult = .ok final →
      Execution.typedOutcome final.outcome = true → w.Stored final) : w'.Told := by
  rcases appendFinishedIfComplete_ok h with
    ⟨hopen, rfl⟩ | ⟨hcomplete, -, last, journal, hlast, happend, rfl⟩
  · have hcomplete : w'.slot.complete = false :=
      hopen.resolve_right fun htrue => by rw [hfinished] at htrue; cases htrue
    exact told_of_running hcomplete ⟨hfinished, hrunning hcomplete⟩
  · obtain ⟨hgrows, bytes, hbytes, hdecode⟩ := appended_decodes happend
    have hid := (finalResult_ok hlast).2
    refine ⟨fun hopen => ?_, fun final hok => ?_, fun final hok htyped => ?_⟩
    · have hopen : w.slot.complete = false := hopen
      rw [hcomplete] at hopen
      cases hopen
    · have hok : w.finalResult = .ok final := hok
      rw [hlast] at hok
      cases hok
      exact ⟨bytes, hbytes, _, hdecode, rfl, hid.symm, rfl, rfl, rfl⟩
    · exact (hstored final hok htyped).grow ⟨rfl, rfl, hgrows, List.prefix_refl _⟩

/-- Both records of an end. -/
theorem records_told (hresult : w.appendResultIfComplete = some (.ok, u))
    (hfinish : u.appendFinishedIfComplete = some (.ok, w'))
    (hmarks : w.slot.journalFinished = false ∧ w.slot.resultStored = false) : w'.Told := by
  obtain ⟨hfinished, hstored⟩ := hmarks
  rcases appendResultIfComplete_ok hresult with
    ⟨hopen, rfl⟩ | ⟨hcomplete, -, last, results, hlast, -, happend, rfl⟩
  · refine appendFinished_told hfinish hfinished (fun _ => hstored) fun final hok htyped => ?_
    rcases hopen with hopen | hopen | ⟨last, hlast, huntyped⟩
    · rw [(finalResult_ok hok).1] at hopen
      cases hopen
    · rw [hstored] at hopen
      cases hopen
    · rw [hlast] at hok
      cases hok
      rw [huntyped] at htyped
      cases htyped
  · obtain ⟨encoded, hfile, hencode⟩ := appended_stored happend
    refine appendFinished_told hfinish hfinished (fun hopen => ?_) fun final hok _ => ?_
    · have hopen : w.slot.complete = false := hopen
      rw [hcomplete] at hopen
      cases hopen
    · have hok : w.finalResult = .ok final := hok
      rw [hlast] at hok
      cases hok
      have hid := (finalResult_ok hlast).2
      have hkey : (w.resultRecord last).key =
          ⟨last.executionId, w.workflowId, w.imageFingerprint⟩ := by
        rw [hid]
        rfl
      exact ⟨w.results.file, encoded, hfile ▸ List.prefix_refl _, _, hencode, hkey, rfl, rfl, rfl,
        rfl⟩

/-- A call that leaves the saga driver alone. -/
theorem Durable.of_told (h : w.Durable) (hsaga : w'.slot.saga = w.slot.saga)
    (hcompensating : w'.slot.compensating = w.slot.compensating) (ht : w.Told → w'.Told) :
    w'.Durable := by
  have hsame : w'.slot.Uncompensated ↔ w.slot.Uncompensated := by
    unfold Slot.Uncompensated
    rw [hsaga]
  exact ⟨fun hc hu => h.begun (hcompensating ▸ hc) (hsame.mp hu), fun hu => ht (h.told (hsame.mp hu))⟩

/-- A slot whose compensation has begun has nothing to tell. -/
theorem durable_of_begun (h : ¬ w.slot.Uncompensated) : w.Durable :=
  ⟨fun _ => h, fun hu => absurd hu h⟩

/-- The logs grow and what the slot is does not change. -/
theorem Durable.grow (h : w.Durable) (hgrown : Grown w.toShared w')
    (hgroup : w'.slot.group = w.slot.group) (hexecution : w'.slot.execution = w.slot.execution)
    (hfinished : w'.slot.journalFinished = w.slot.journalFinished)
    (hstored : w'.slot.resultStored = w.slot.resultStored)
    (hsaga : w'.slot.saga = w.slot.saga)
    (hcompensating : w'.slot.compensating = w.slot.compensating) : w'.Durable := by
  refine h.of_told hsaga hcompensating fun ht => ht.keep hgrown ?_ ?_ hfinished hstored
  · unfold Slot.complete
    rw [hgroup, hexecution]
  · unfold finalResult
    rw [hgroup, hexecution]

end AtSlot

/-! ## Flows -/

namespace AtSlot

variable {image : Image} {bound : Nat} {w w' u : AtSlot} {i : FlowIndex}

/-- Nothing of an end is on record yet. -/
structure Unrecorded (w : AtSlot) : Prop where
  begun : w.slot.compensating = true → ¬ w.slot.Uncompensated
  marks : w.slot.Uncompensated → w.slot.journalFinished = false ∧ w.slot.resultStored = false

theorem Durable.unrecorded (hd : w.Durable) (hrunning : w.slot.complete = false) :
    w.Unrecorded :=
  ⟨hd.begun, fun hu => (hd.told hu).running hrunning⟩

/-- The interpreter moved on, and nothing was recorded for it. -/
theorem Unrecorded.moved (ho : w.Unrecorded)
    (hfinished : w'.slot.journalFinished = w.slot.journalFinished)
    (hstored : w'.slot.resultStored = w.slot.resultStored) (hsaga : w'.slot.saga = w.slot.saga)
    (hcompensating : w'.slot.compensating = w.slot.compensating) : w'.Unrecorded := by
  have hsame : w'.slot.Uncompensated ↔ w.slot.Uncompensated := by
    unfold Slot.Uncompensated
    rw [hsaga]
  refine ⟨fun hc hu => ho.begun (hcompensating ▸ hc) (hsame.mp hu), fun hu => ?_⟩
  rw [hfinished, hstored]
  exact ho.marks (hsame.mp hu)

/-- The records of an end, when it is one. -/
theorem Unrecorded.durable (ho : w.Unrecorded) (hmarked : Marked w w')
    (ht : w.slot.journalFinished = false ∧ w.slot.resultStored = false → w'.Told) :
    w'.Durable := by
  obtain ⟨finished, stored, hslot⟩ := hmarked.slot
  have hsame : w'.slot.Uncompensated ↔ w.slot.Uncompensated := by
    unfold Slot.Uncompensated
    rw [hslot]
  refine ⟨fun hc hu => ?_, fun hu => ht (ho.marks (hsame.mp hu))⟩
  rw [hslot] at hc
  exact ho.begun hc (hsame.mp hu)

theorem Durable.advance (hd : w.Durable) : w.advance.Durable :=
  hd.grow (Shared.Grows.refl w.toShared) rfl rfl rfl rfl rfl rfl

/-- A flow that ends while its execution runs leaves the end on record, if it is the end. -/
theorem FlowEnds.durable {group' : GroupExecution} {record : Journal.Record}
    (ho : w.Unrecorded) (h : FlowEnds w i group' record w') : w'.Durable := by
  obtain ⟨v, u, hcloses, hfinish, rfl⟩ := h
  have hopen : v.Unrecorded := ho.moved (by rw [hcloses.slot]) (by rw [hcloses.slot])
    (by rw [hcloses.slot]) (by rw [hcloses.slot])
  have hmarked := finishGroupTransition_marked hfinish
  obtain ⟨t, hresult, hfinished⟩ := Call.andThen_ok hfinish
  exact (hopen.durable hmarked fun hmarks => records_told hresult hfinished hmarks).advance

/-- The interpreter moved on, and the execution still runs. -/
theorem Durable.of_running (hd : w.Durable) (hrunning : w.slot.complete = false)
    (hrunning' : w'.slot.complete = false)
    (hfinished : w'.slot.journalFinished = w.slot.journalFinished)
    (hstored : w'.slot.resultStored = w.slot.resultStored)
    (hsaga : w'.slot.saga = w.slot.saga)
    (hcompensating : w'.slot.compensating = w.slot.compensating) : w'.Durable :=
  hd.of_told hsaga hcompensating fun ht => told_of_running hrunning' (by
    rw [hfinished, hstored]
    exact ht.running hrunning)

theorem complete_of_group {group : GroupExecution} (h : w.slot.group = some group) :
    w.slot.complete = group.complete := by
  unfold Slot.complete
  rw [h]

theorem prepareFlow_durable (hd : w.Durable) (h : w.prepareFlow image i = some (.ok, w')) :
    w'.Durable := by
  rcases prepareFlow_ok h with rfl | ⟨group, invocation, group', journal, hgroup, hprepare, rfl⟩
  · exact hd
  · obtain ⟨hopen, -, -, -, rfl⟩ := GroupExecution.prepare_ok hprepare
    exact hd.of_running ((complete_of_group hgroup).trans hopen) hopen rfl rfl rfl rfl

/-- Every delivery of a complete execution that is sent has a connection for its action. -/
def Served (w : AtSlot) : Prop :=
  ∀ group k, w.slot.group = some group → group.complete = true →
    (w.slot.groupDeliveries k).ownsAction = true → group.Sent k →
    w.registry.findAction (w.slot.groupDeliveries k).appId
      (w.slot.groupDeliveries k).actionId ≠ none

theorem Served.of_group {group : GroupExecution} (h : w.slot.group = some group)
    (hnone : group.complete = true → ∀ k, ¬ group.Sent k) : w.Served := by
  intro found k hfound hcomplete _ hsent
  rw [h] at hfound
  cases hfound
  exact absurd hsent (hnone hcomplete k)

theorem served_of_none (h : w.slot.group = none) : w.Served := by
  intro group k hgroup
  rw [h] at hgroup
  cases hgroup

theorem prepareFlow_served (hs : w.Served) (h : w.prepareFlow image i = some (.ok, w')) :
    w'.Served := by
  rcases prepareFlow_ok h with rfl | ⟨group, invocation, group', journal, hgroup, hprepare, rfl⟩
  · exact hs
  · obtain ⟨hopen, -, -, -, rfl⟩ := GroupExecution.prepare_ok hprepare
    refine Served.of_group rfl fun hcomplete => ?_
    have hcomplete : group.complete = true := hcomplete
    rw [hopen] at hcomplete
    cases hcomplete

theorem reconcileFlow_durable (hd : w.Durable) (hs : w.Served)
    (h : w.reconcileFlow image bound i = some (.ok, w')) : w'.Durable ∧ w'.Served := by
  rcases reconcileFlow_ok h with
    ⟨rfl, -⟩ | ⟨howns, hregistry, hmissing, group, hgroup, ⟨-, rfl⟩ | ⟨group', hsent, hmark, hends⟩⟩
  · exact ⟨hd, hs⟩
  · refine ⟨hd.grow (Shared.Grows.refl w.toShared) rfl rfl rfl rfl rfl rfl,
      fun found k hfound hcomplete howns' => ?_⟩
    by_cases hk : k = i
    · subst hk
      simp [disown, setDelivery] at howns'
    · have hsame : (w.disown i).slot.groupDeliveries k = w.slot.groupDeliveries k := by
        simp [disown, setDelivery, hk]
      rw [hsame] at howns' ⊢
      exact hs found k hfound hcomplete howns'
  · have hopen : group.complete = false := by
      cases hcomplete : group.complete with
      | false => rfl
      | true => exact absurd hmissing (hs group i hgroup hcomplete howns hsent)
    have hrunning := (complete_of_group hgroup).trans hopen
    refine ⟨hends.durable (hd.unrecorded hrunning), Served.of_group hends.group fun hcomplete => ?_⟩
    rcases GroupExecution.deliveryOutcome_retires (.inr rfl) hmark with
      ⟨hbad, -⟩ | ⟨-, -, -, f, -, rfl⟩
    · exact absurd rfl hbad
    · refine (GroupExecution.recordTerminal_complete hcomplete).resolve_left fun hbefore => ?_
      have hbefore : group.complete = true := hbefore
      rw [hopen] at hbefore
      cases hbefore

theorem markSent_durable {group group' : GroupExecution} {connection : Nat} {packet : Bytes}
    {journal : Journal.Writer} {record : Journal.Record} (hd : w.Durable)
    (hgroup : w.slot.group = some group) (hmark : group.markSent i = .ok group')
    (happend : w.journal.append record = .ok journal) :
    ((((w.invoked connection packet).recorded journal record).setGroup group').advance).Durable := by
  obtain ⟨-, -, rfl⟩ := GroupExecution.markSent_ok hmark
  refine hd.of_told rfl rfl fun ht => ht.keep
    ⟨rfl, rfl, (appended_decodes happend).1, List.prefix_refl _⟩ ?_ ?_ rfl rfl
  · exact (complete_of_group hgroup).symm
  · -- the result is what the flow holds, not how its delivery stands
    have hresult : (group.setFlow i fun flow => { flow with state := .sent }).getResult =
        group.getResult := by
      have hflow : ∀ outcome, GroupExecution.resultFrame group.executionId outcome
          ((group.setFlow i fun flow => { flow with state := .sent }).flows group.pendingFlow) =
          GroupExecution.resultFrame group.executionId outcome (group.flows group.pendingFlow) := by
        intro outcome
        by_cases hi : group.pendingFlow = i
        · rw [hi, GroupExecution.setFlow_flows_self]
          rfl
        · rw [GroupExecution.setFlow_flows_of_ne _ _ hi]
      unfold GroupExecution.getResult
      rw [← hflow]
      rfl
    have hbefore : w.finalResult = group.getResult := by
      unfold finalResult
      rw [hgroup]
    rw [hbefore, ← hresult]
    rfl

theorem sendGroupInvocation_durable {outcome : SendOutcome} (hd : w.Durable)
    (hopen : w.slot.complete = true → outcome = .failed →
      w.registry.findAction (w.slot.groupDeliveries i).appId
        (w.slot.groupDeliveries i).actionId = none)
    (h : w.sendGroupInvocation image bound outcome i = some (.ok, w')) : w'.Durable := by
  unfold sendGroupInvocation at h
  cases hgroup : w.slot.group with
  | none => rw [hgroup] at h; cases h; exact hd
  | some group =>
      rw [hgroup] at h
      simp only at h
      split at h
      · cases h
        exact hd.grow (Shared.Grows.refl w.toShared) rfl rfl rfl rfl rfl rfl
      rename_i hfound
      split at h
      · cases h
      cases outcome with
      | wouldBlock => cases h; exact hd
      | sent =>
          obtain ⟨t, ht, h⟩ := Call.andThen_ok h
          obtain ⟨journal, happend, rfl⟩ := appendGroupRecord_ok ht
          split at h
          · cases h
          rename_i group' hmark
          cases h
          exact markSent_durable hd hgroup hmark happend
      | failed =>
          have hrunning : w.slot.complete = false := by
            cases hcomplete : w.slot.complete with
            | false => rfl
            | true =>
                rw [hopen hcomplete rfl] at hfound
                cases hfound
          obtain ⟨t, ht, h⟩ := Call.andThen_ok h
          obtain ⟨journal, happend, rfl⟩ := appendGroupRecord_ok ht
          obtain ⟨group', hmark, h⟩ := runGroup_must h
          obtain ⟨v, hv, rfl⟩ := Call.andThen_done_ok h
          have hends : FlowEnds w i group' (w.deliveryRecord i .actionFailed .notSent) v.advance :=
            ⟨(((w.recorded journal _).setGroup group').disown i).dropAction _ _, v,
              ⟨rfl, .inr rfl, happend, rfl, rfl, rfl, rfl⟩, hv, rfl⟩
          exact hends.durable (hd.unrecorded hrunning)

theorem receiveGroupResult_durable {received : Received} (hd : w.Durable)
    (hopen : w.slot.complete = true → received = .wouldBlock ∧
      w.registry.findAction (w.slot.groupDeliveries i).appId
        (w.slot.groupDeliveries i).actionId ≠ none)
    (h : w.receiveGroupResult image bound received i = some (.ok, w')) : w'.Durable := by
  cases hcomplete : w.slot.complete with
  | false =>
      have hrunning := hd.unrecorded hcomplete
      cases receiveGroupResult_ok h with
      | same => exact hd
      | lost grouped missing marked ends => exact ends.durable hrunning
      | refused grouped marked ends => exact ends.durable hrunning
      | unanswered grouped matched refused failed marked ends =>
          obtain ⟨v, u, hcloses, hfinish, rfl⟩ := ends
          have hsame : FlowEnds w _ _ _ u.advance :=
            ⟨v, u, ⟨hcloses.slot, hcloses.registry, hcloses.journal, hcloses.history,
              hcloses.results, hcloses.workflowId, hcloses.imageFingerprint⟩, hfinish, rfl⟩
          exact hsame.durable hrunning
      | accepted grouped found read matched accepted ends => exact ends.durable hrunning
  | true =>
      obtain ⟨rfl, hfound⟩ := hopen hcomplete
      unfold receiveGroupResult at h
      simp only at h
      split at h
      · cases h; exact hd
      split at h
      · rename_i hmissing
        exact absurd hmissing hfound
      · cases h
        exact hd

/-- What happens on the connection of a flow closes its delivery. -/
def Closes (event : Event) (i : FlowIndex) (w : AtSlot) : Prop :=
  ∃ group, w.slot.group = some group ∧
    let found := w.registry.findAction (w.slot.groupDeliveries i).appId
      (w.slot.groupDeliveries i).actionId
    if (group.flows i).state = .prepared then
      (event.pollOut = true ∨ event.fault = true) ∧ event.send = .failed ∧ found ≠ none
    else
      (event.pollIn = true ∧ (group.flows i).state = .sent ∨ event.fault = true) ∧
        (event.received ≠ .wouldBlock ∨ found = none)

theorem serveFlow_durable {event : Event} (hd : w.Durable)
    (hopen : w.slot.complete = true → ¬ w.Closes event i)
    (h : Loop.serveFlow image bound event i w = some (.ok, w')) : w'.Durable := by
  unfold Loop.serveFlow at h
  cases hgroup : w.slot.group with
  | none => rw [hgroup] at h; cases h; exact hd
  | some group =>
      rw [hgroup] at h
      simp only at h
      have hsend : (group.flows i).state = .prepared → event.pollOut = true ∨ event.fault = true →
          w.sendGroupInvocation image bound event.send i = some (.ok, w') → w'.Durable := by
        refine fun hstate hready h => sendGroupInvocation_durable hd (fun hcomplete hfailed => ?_) h
        by_contra hfound
        refine hopen hcomplete ⟨group, hgroup, ?_⟩
        rw [if_pos hstate]
        exact ⟨hready, hfailed, hfound⟩
      have hreceive : (group.flows i).state ≠ .prepared →
          event.pollIn = true ∧ (group.flows i).state = .sent ∨ event.fault = true →
          w.receiveGroupResult image bound event.received i = some (.ok, w') → w'.Durable := by
        refine fun hstate hready h => receiveGroupResult_durable hd (fun hcomplete => ?_) h
        by_contra hbad
        refine hopen hcomplete ⟨group, hgroup, ?_⟩
        rw [if_neg hstate]
        rw [not_and_or, not_not] at hbad
        exact ⟨hready, hbad⟩
      split at h
      · rename_i hout
        exact hsend hout.2 (.inl hout.1) h
      split at h
      · rename_i hin
        exact hreceive (by rw [hin.2]; decide) (.inl hin) h
      split at h
      · rename_i hfault
        split at h
        · rename_i hstate
          exact hsend hstate (.inr hfault) h
        · rename_i hstate
          exact hreceive hstate (.inr hfault) h
      · cases h; exact hd

end AtSlot

/-! ## Sequential slots -/

namespace AtSlot

variable {image : Image} {bound : Nat} {w w' u : AtSlot} {i : FlowIndex}

theorem running_of_state {state : ExecutionState} (hgroup : w.slot.group = none)
    (hstate : w.slot.execution.state = state) (hopen : state ≠ .complete) :
    w.slot.complete = false := by
  unfold Slot.complete
  rw [hgroup, hstate]
  simpa using hopen

/-- A delivery that ended without a result needs nothing but the record of the end. -/
theorem finished_told {execution : Execution} {outcome : Outcome}
    (h : w.appendFinishedIfComplete = some (.ok, w')) (hgroup : w.slot.group = none)
    (hrests : Execution.Rests execution outcome w.slot.execution)
    (huntyped : Execution.typedOutcome outcome = false)
    (hmarks : w.slot.journalFinished = false ∧ w.slot.resultStored = false) : w'.Told := by
  refine appendFinished_told h hmarks.1 (fun _ => hmarks.2) fun final hfinal htyped => ?_
  unfold finalResult at hfinal
  rw [hgroup] at hfinal
  simp only [Execution.getResult] at hfinal
  split at hfinal
  · cases hfinal
  rename_i hstate
  cases hfinal
  rcases hrests.state with ⟨hready, -⟩ | ⟨-, houtcome⟩
  · rw [hready] at hstate
    exact absurd hstate (by decide)
  · simp only [houtcome, huntyped] at htyped
    cases htyped

/-- A compensation that begins takes the slot out of what is promised. -/
theorem beginLiveCompensation_durable {outcome : Outcome} (hd : w.Durable)
    (h : w.beginLiveCompensation image outcome = some (.ok, w')) : w'.Durable := by
  rcases beginLiveCompensation_ok h with ⟨-, rfl⟩ | ⟨-, -, plan, driver, log, hbegin, hstart, rfl⟩
  · exact hd
  · have hready := Saga.beginLive_ready hbegin
    obtain ⟨rfl, -⟩ := Saga.Driver.start_ok hready hstart
    refine durable_of_begun fun hu => ?_
    have hempty : plan.state = .empty := hu
    rw [hready] at hempty
    cases hempty

theorem settleExecution_durable {appError : Bool}
    (h : w.settleExecution image appError = some (.ok, w')) (ho : w.Unrecorded) : w'.Durable := by
  obtain ⟨u, v, x, hu, hv, hx, rfl⟩ := settleExecution_ok h
  have hopen : w.releaseAction.Unrecorded := ho.moved rfl rfl rfl rfl
  have hmarked := (appendResult_marked hu).trans (appendFinished_marked hv)
  have hdurable : v.Durable := hopen.durable hmarked fun hmarks => records_told hu hv hmarks
  split at hx
  · have hlive : x.Durable := beginLiveCompensation_durable hdurable hx
    exact hlive.advance
  · cases hx
    exact hdurable.advance

theorem loseExecution_durable (hd : w.Durable) (hgroup : w.slot.group = none)
    (h : w.loseExecution image = some (.ok, w')) : w'.Durable := by
  obtain ⟨journal, execution, u, -, hmark, hu, rfl⟩ := loseExecution_ok h
  obtain ⟨hstate, hrests⟩ := Execution.finishDeliveryOutcome_rests hmark
  have hrunning := running_of_state hgroup hstate (by decide)
  have hopen : ((w.recorded journal (w.actionRecord .actionUnknown .unknown)).setExecution
      execution).releaseAction.Unrecorded := (hd.unrecorded hrunning).moved rfl rfl rfl rfl
  exact (hopen.durable (appendFinished_marked hu) fun hmarks =>
    finished_told hu hgroup hrests rfl hmarks).advance

theorem failToSend_durable (hd : w.Durable) (hgroup : w.slot.group = none)
    (h : w.failToSend image = some (.ok, w')) : w'.Durable := by
  obtain ⟨journal, execution, u, v, -, hmark, hu, hv, rfl⟩ := failToSend_ok h
  obtain ⟨hstate, hrests⟩ := Execution.finishDeliveryOutcome_rests hmark
  have hrunning := running_of_state hgroup hstate (by decide)
  have hopen : (((w.recorded journal (w.actionRecord .actionFailed .notSent)).setExecution
      execution).releaseAction.dropAction w.slot.appId w.slot.actionId).Unrecorded :=
    (hd.unrecorded hrunning).moved rfl rfl rfl rfl
  have hdurable : u.Durable := hopen.durable (appendFinished_marked hu) fun hmarks =>
    finished_told hu hgroup hrests rfl hmarks
  have hlive : v.Durable := beginLiveCompensation_durable hdurable hv
  exact hlive.advance

theorem refuseExecution_durable (h : w.refuseExecution image = some (.ok, w'))
    (ho : w.Unrecorded) : w'.Durable := by
  obtain ⟨journal, execution, -, -, hsettle⟩ := refuseExecution_ok h
  exact settleExecution_durable hsettle (ho.moved rfl rfl rfl rfl)

theorem recordResult_durable {result : Frame}
    (h : w.recordResult image result = some (.ok, w')) (ho : w.Unrecorded) : w'.Durable := by
  obtain ⟨t, journal, ht, -, hsettle⟩ := recordResult_ok h
  have htoken : t.Unrecorded := by
    split at ht
    · rcases appendCompensationToken_ok ht with ⟨-, rfl⟩ | ⟨route, writer, -, -, -, -, -, rfl⟩
      · exact ho
      · exact ho.moved rfl rfl rfl rfl
    · cases ht
      exact ho
  exact settleExecution_durable hsettle (htoken.moved rfl rfl rfl rfl)

/-- What a plan does next to a slot that compensates. -/
theorem durable_of_state {state : Saga.State} (hstate : w.slot.saga.execution.state = state)
    (hbegun : state ≠ .empty) : w.Durable :=
  durable_of_begun fun hu => hbegun (hstate.symm.trans hu)

theorem SlotSent.durable (hd : w.Durable) (hgroup : w.slot.group = none)
    (h : SlotSent image w w') : w'.Durable := by
  have hpacket : ∀ registered, (w.setSlot fun slot =>
      { slot with packet := patchActionId slot.packet registered }).Durable := fun _ =>
    hd.grow (Shared.Grows.refl w.toShared) rfl rfl rfl rfl rfl rfl
  cases h with
  | released missing => exact hd.grow (Shared.Grows.refl w.toShared) rfl rfl rfl rfl rfl rfl
  | waits registered => exact hpacket registered
  | sent plain found marked =>
      unfold Execution.markSent at marked
      split at marked
      · cases marked
      rename_i hstate
      cases marked
      have hrunning := running_of_state hgroup (not_not.mp hstate) (by decide)
      exact hd.of_running hrunning (@running_of_state _ .sent hgroup rfl (by decide)) rfl rfl rfl rfl
  | compensationSent compensating found marked =>
      obtain ⟨-, hsent, -⟩ := Saga.Driver.markSent_ok marked
      exact durable_of_state hsent (by decide)
  | failed plain failed => exact failToSend_durable (hpacket _) hgroup failed
  | compensationFailed compensating failed =>
      obtain ⟨driver, log, hmark, rfl⟩ := failToSendCompensation_ok failed
      obtain ⟨-, hblocked, -⟩ := Saga.Driver.markNotSent_ok hmark
      exact durable_of_state hblocked (by decide)

theorem loseCompensation_durable (h : w.loseCompensation = some (.ok, w')) : w'.Durable := by
  obtain ⟨driver, log, hmark, rfl⟩ := loseCompensation_ok h
  obtain ⟨-, hblocked, -⟩ := Saga.Driver.markUnknown_ok hmark
  exact durable_of_state hblocked (by decide)

theorem RefusedCompensation.durable (h : RefusedCompensation w w') : w'.Durable := by
  obtain ⟨driver, log, hmark, rfl⟩ := h
  obtain ⟨-, hblocked, -⟩ := Saga.Driver.markUnknown_ok hmark
  exact durable_of_state hblocked (by decide)

theorem CompensationReceived.durable {result : Option Frame}
    (h : CompensationReceived image w result w') : w'.Durable := by
  cases h with
  | refused refused => exact refused.durable
  | unanswered failed refused => exact refused.durable
  | accepted accepted settled =>
      obtain ⟨execution, hplan, rfl, -⟩ := Saga.Driver.acceptResult_ok accepted
      have hbegun := Saga.Driver.accepts_begun hplan
      rcases settled with ⟨-, rfl⟩ | ⟨-, rfl⟩ | ⟨-, -, rfl⟩ <;>
        exact durable_of_state rfl hbegun

theorem SlotReceived.durable {received : Received} (hd : w.Durable)
    (hgroup : w.slot.group = none) (h : SlotReceived image received w w') : w'.Durable := by
  have hopen : w.slot.execution.state = .sent → w.Unrecorded := fun hstate =>
    hd.unrecorded (running_of_state hgroup hstate (by decide))
  cases h with
  | same => exact hd
  | lost plain missing lost => exact loseExecution_durable hd hgroup lost
  | compensationLost compensating missing lost => exact loseCompensation_durable lost
  | refused plain refused =>
      obtain ⟨_, _, -, hmark, -⟩ := refuseExecution_ok refused
      have hstate := (Execution.finishDeliveryOutcome_rests hmark).1
      exact refuseExecution_durable refused (hopen hstate)
  | unanswered plain rejected failed refused =>
      -- a delivery that is not out cannot be given up either
      have hstate : w.slot.execution.state = .sent := by
        by_contra hunsent
        unfold Execution.acceptResult at rejected
        rw [if_pos hunsent] at rejected
        cases rejected
        obtain ⟨_, _, -, hmark, -⟩ := refuseExecution_ok refused
        exact hunsent (Execution.finishDeliveryOutcome_rests hmark).1
      exact refuseExecution_durable refused ((hopen hstate).moved rfl rfl rfl rfl)
  | accepted plain found read decoded accepted recorded =>
      have hstate := (Execution.acceptResult_rests accepted).1
      exact recordResult_durable recorded ((hopen hstate).moved rfl rfl rfl rfl)
  | compensation compensating found read settled => exact settled.durable

/-! ## The parts of a poll -/

/-- What holds of a slot before a poll prepares and reconciles it. -/
structure Poised (w : AtSlot) : Prop where
  durable : w.Durable
  served : w.Served

theorem prepareSlot_poised (h : w.Poised) (hcall : w.prepareSlot image = some (.ok, w')) :
    w'.Poised := by
  unfold prepareSlot at hcall
  split at hcall
  · cases hcall; exact h
  split at hcall
  · exact Call.each_rel (R := fun u v => u.Poised → v.Poised) (fun _ => id)
      (fun huv hvx hu => hvx (huv hu)) (fun _ _ _ hflow hu =>
        ⟨prepareFlow_durable hu.durable hflow, prepareFlow_served hu.served hflow⟩) _ hcall h
  rename_i hgroup
  have hgroup : w.slot.group = none := by simpa using hgroup
  split at hcall
  · cases hcall; exact h
  rename_i hready
  split at hcall
  · obtain ⟨invocation, packet, driver, log, hprepare, rfl⟩ := prepareCompensation_ok hcall
    obtain ⟨execution, -, hstate, rfl, -⟩ := Saga.Driver.prepare_ok hprepare
    exact ⟨durable_of_state hstate (by decide), served_of_none hgroup⟩
  · obtain ⟨invocation, packet, execution, journal, hprepare, rfl⟩ := prepareExecution_ok hcall
    unfold Execution.prepare at hprepare
    split at hprepare
    · cases hprepare
    rename_i hstate
    simp only at hprepare
    split at hprepare
    · cases hprepare
    cases hprepare
    have hrunning := running_of_state hgroup (not_not.mp hstate) (by decide)
    exact ⟨h.durable.of_running hrunning (@running_of_state _ .prepared hgroup rfl (by decide))
      rfl rfl rfl rfl, served_of_none hgroup⟩

theorem reconcileSlot_poised (h : w.Poised)
    (hcall : w.reconcileSlot image bound = some (.ok, w')) : w'.Poised := by
  unfold reconcileSlot at hcall
  split at hcall
  · cases hcall; exact h
  split at hcall
  · exact Call.each_rel (R := fun u v => u.Poised → v.Poised) (fun _ => id)
      (fun huv hvx hu => hvx (huv hu)) (fun _ _ _ hflow hu =>
        ⟨(reconcileFlow_durable hu.durable hu.served hflow).1,
          (reconcileFlow_durable hu.durable hu.served hflow).2⟩) _ hcall h
  rename_i hgroup
  have hgroup : w.slot.group = none := by simpa using hgroup
  have hfree : w.releaseAction.Durable :=
    h.durable.grow (Shared.Grows.refl w.toShared) rfl rfl rfl rfl rfl rfl
  split at hcall
  · cases hcall; exact h
  split at hcall
  · cases hcall; exact ⟨hfree, served_of_none hgroup⟩
  split at hcall
  · obtain ⟨driver, log, -, hlost⟩ := loseCompensation_ok hcall
    exact ⟨loseCompensation_durable hcall, served_of_none (by rw [hlost]; exact hgroup)⟩
  · have hreleased := loseExecution_released hcall
    exact ⟨loseExecution_durable hfree hgroup hcall,
      served_of_none (hreleased.group.trans hgroup)⟩

end AtSlot

end Hermas.Daemon
