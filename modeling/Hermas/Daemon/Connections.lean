import Hermas.Daemon.Flight

/-!
# Results come from the connection that was served

A delivery is sent on the connection that serves its action then. The daemon keeps no
connection with the delivery: a result is taken from whatever connection serves the
action now. For the deliveries of sequential slots and of compensations the two are the
same, because a connection is dropped only together with the delivery that holds its
action.

The items of an each region share their action. When one of them drops the connection,
the others stay sent until the next poll begins; an app that registers before that
serves them. The runs in which no app does are those that meet `ItemsSettled`.
-/

namespace Hermas.Daemon

open Loop (PollItem Event)

/-- The outcome of a result that is put on record. -/
def Effect.answer : Effect → Option Outcome
  | .journal r =>
      if r.kind = .actionSucceeded ∨ (r.kind = .actionFailed ∧ r.outcome = .appError) then
        some r.outcome
      else none
  | .saga r =>
      if r.kind = .stepSucceeded ∨ (r.kind = .stepFailed ∧ r.outcome = .appError) then
        some r.outcome
      else none
  | _ => none

theorem answer_journal {r : Journal.Record} {o : Outcome}
    (h : (Effect.journal r).answer = some o) : r.outcome = o := by
  simp only [Effect.answer] at h
  split at h
  · exact Option.some.inj h
  · cases h

theorem answer_saga {r : Saga.Log.Record} {o : Outcome} (h : (Effect.saga r).answer = some o) :
    r.outcome = o := by
  simp only [Effect.answer] at h
  split at h
  · exact Option.some.inj h
  · cases h

/-- A delivery is put on record as unknown. -/
def Effect.GivesUp : Effect → Prop
  | .journal r => r.kind = .actionUnknown ∧ r.outcome = .unknown
  | .saga r => r.kind = .stepUnknown ∧ r.outcome = .unknown
  | _ => False

/-- The effect is among those that left the daemon in between. -/
def Shared.Tells (s s' : Shared) (e : Effect) : Prop :=
  ∃ effects, s'.history = s.history ++ effects ∧ e ∈ effects

/-! ## The deliveries of a slot -/

namespace Slot

/-- The delivery of the slot, or of one of its flows, is sent. -/
def sentFor (slot : Slot) : Option FlowIndex → Prop
  | none => slot.active = true ∧ slot.sent = true
  | some k => slot.active = true ∧ ∃ group, slot.group = some group ∧ group.Sent k

def preparedFor (slot : Slot) : Option FlowIndex → Prop
  | none => slot.active = true ∧ slot.prepared = true
  | some k => slot.active = true ∧ ∃ group, slot.group = some group ∧
      (group.flows k).active = true ∧ (group.flows k).state = .prepared

def ownsFor (slot : Slot) : Option FlowIndex → Prop
  | none => slot.active = true ∧ slot.group = none ∧ slot.ownsAction = true
  | some k => slot.active = true ∧ slot.group.isSome = true ∧
      (slot.groupDeliveries k).ownsAction = true

def actionFor (slot : Slot) : Option FlowIndex → UInt16 × UInt16
  | none => (slot.appId, slot.actionId)
  | some k => ((slot.groupDeliveries k).appId, (slot.groupDeliveries k).actionId)

/-- The request that the interpreter waits for. -/
def awaitedFor (slot : Slot) : Option FlowIndex → UInt64
  | none => if slot.compensating then slot.saga.execution.currentRequestId
      else slot.execution.requestId
  | some k => (slot.group.map fun group => (group.flows k).requestId).getD 0

/-- The interpreter has nothing out while the slot compensates. -/
def Calm (slot : Slot) : Prop :=
  slot.compensating = true → slot.execution.state ≠ .prepared ∧ slot.execution.state ≠ .sent

/-- The delivery is for the action it was for, and owns it if it did. -/
structure Holds (key : Option FlowIndex) (s s' : Slot) : Prop where
  action : s'.actionFor key = s.actionFor key
  owns : s.ownsFor key → s'.ownsFor key

theorem Holds.refl (key : Option FlowIndex) (s : Slot) : Holds key s s := ⟨rfl, id⟩

theorem Holds.trans {key : Option FlowIndex} {s t u : Slot} (h : Holds key s t)
    (h' : Holds key t u) : Holds key s u :=
  ⟨h'.action.trans h.action, fun howns => h'.owns (h.owns howns)⟩

theorem sentFor_flow {slot : Slot} {key : Option FlowIndex} {group : GroupExecution}
    (hgroup : slot.group = some group) (h : slot.sentFor key) :
    ∃ k, key = some k ∧ slot.active = true ∧ group.Sent k := by
  cases key with
  | none =>
      obtain ⟨-, hsent⟩ := h
      simp [sent, hgroup] at hsent
  | some k =>
      obtain ⟨hactive, group', hgroup', hsent⟩ := h
      rw [hgroup] at hgroup'
      cases hgroup'
      exact ⟨k, rfl, hactive, hsent⟩

theorem preparedFor_flow {slot : Slot} {key : Option FlowIndex} {group : GroupExecution}
    (hgroup : slot.group = some group) (h : slot.preparedFor key) :
    ∃ k, key = some k ∧ slot.active = true ∧ (group.flows k).active = true ∧
      (group.flows k).state = .prepared := by
  cases key with
  | none =>
      obtain ⟨-, hprepared⟩ := h
      simp [prepared, hgroup] at hprepared
  | some k =>
      obtain ⟨hactive, group', hgroup', hprepared⟩ := h
      rw [hgroup] at hgroup'
      cases hgroup'
      exact ⟨k, rfl, hactive, hprepared⟩

theorem sentFor_slot {slot : Slot} {key : Option FlowIndex} (hgroup : slot.group = none)
    (h : slot.sentFor key) : key = none ∧ slot.active = true ∧ slot.sent = true := by
  cases key with
  | none => exact ⟨rfl, h⟩
  | some k =>
      obtain ⟨-, group, hsome, -⟩ := h
      rw [hgroup] at hsome
      cases hsome

theorem preparedFor_slot {slot : Slot} {key : Option FlowIndex} (hgroup : slot.group = none)
    (h : slot.preparedFor key) : key = none ∧ slot.active = true ∧ slot.prepared = true := by
  cases key with
  | none => exact ⟨rfl, h⟩
  | some k =>
      obtain ⟨-, group, hsome, -⟩ := h
      rw [hgroup] at hsome
      cases hsome

theorem not_prepared_of_sent {slot : Slot} {key : Option FlowIndex} (h : slot.sentFor key) :
    ¬ slot.preparedFor key := by
  intro h'
  cases key with
  | none =>
      have hsent := h.2
      have hprepared := h'.2
      unfold sent at hsent
      unfold prepared at hprepared
      cases hc : slot.compensating <;> simp_all
  | some k =>
      obtain ⟨-, group, hgroup, hsent⟩ := h
      obtain ⟨-, group', hgroup', -, hstate⟩ := h'
      rw [hgroup] at hgroup'
      cases hgroup'
      rw [hsent.2] at hstate
      cases hstate

/-- What is sent behind a call was sent before, and holds its action as before. -/
structure Stays (s s' : Slot) : Prop where
  calm : s.Calm → s'.Calm
  sent : s.Calm → ∀ key, s'.sentFor key → s.sentFor key ∧ Holds key s s'

theorem Stays.refl (s : Slot) : Stays s s := ⟨id, fun _ key h => ⟨h, Holds.refl key s⟩⟩

theorem Stays.trans {s t u : Slot} (h : Stays s t) (h' : Stays t u) : Stays s u := by
  refine ⟨fun hc => h'.calm (h.calm hc), fun hc key hsent => ?_⟩
  obtain ⟨hmid, hholds'⟩ := h'.sent (h.calm hc) key hsent
  obtain ⟨hbefore, hholds⟩ := h.sent hc key hmid
  exact ⟨hbefore, hholds.trans hholds'⟩

/-- A call on a grouped slot, given flow by flow. -/
theorem Stays.of_group {s s' : Slot} {group group' : GroupExecution} (hs : s.group = some group)
    (hs' : s'.group = some group') (hactive : s'.active = s.active)
    (hcalm : s'.compensating = s.compensating ∧ s'.execution = s.execution)
    (hflows : ∀ k, group'.Sent k → group.Sent k ∧ s'.groupDeliveries k = s.groupDeliveries k) :
    Stays s s' := by
  refine ⟨fun hc => ?_, fun _ key hsent => ?_⟩
  · unfold Calm at hc ⊢
    rw [hcalm.1, hcalm.2]
    exact hc
  · obtain ⟨k, rfl, hact, hk⟩ := sentFor_flow hs' hsent
    obtain ⟨hbefore, hdelivery⟩ := hflows k hk
    refine ⟨⟨hactive ▸ hact, group, hs, hbefore⟩, by simp only [actionFor, hdelivery], ?_⟩
    rintro ⟨ha, -, howns⟩
    exact ⟨hactive.symm ▸ ha, by rw [hs']; rfl, hdelivery.symm ▸ howns⟩

/-- A call that leaves nothing of a sequential slot sent. -/
structure Ends (s s' : Slot) : Prop where
  group : s'.group = none
  calm : s.Calm → s'.Calm
  unsent : s.Calm → s'.sent = false

theorem Ends.stays {s s' : Slot} (h : Ends s s') : Stays s s' := by
  refine ⟨h.calm, fun hc key hsent => ?_⟩
  obtain ⟨-, -, hs⟩ := sentFor_slot h.group hsent
  rw [h.unsent hc] at hs
  cases hs

/-- Nothing is out behind the call, whatever the slot was before. -/
theorem Ends.of_calm {s t s' : Slot} (h : Ends s s') (hs : s.Calm) : Ends t s' :=
  ⟨h.group, fun _ => h.calm hs, fun _ => h.unsent hs⟩

theorem calm_of_plain {slot : Slot} (h : slot.compensating = false) : slot.Calm := by
  intro hcompensating
  rw [h] at hcompensating
  cases hcompensating

end Slot

namespace AtSlot

open Slot (Stays Holds Calm Ends calm_of_plain)

variable {image : Image} {bound : Nat} {w w' : AtSlot} {i : FlowIndex}

/-! ## Effects -/

/-- A call adds effects, no result among them. -/
def Silent (w w' : AtSlot) : Prop :=
  ∃ effects, w'.history = w.history ++ effects ∧ ∀ e ∈ effects, e.answer = none

theorem Silent.refl (w : AtSlot) : Silent w w := ⟨[], by simp, by simp⟩

theorem Silent.trans {u : AtSlot} (h : Silent w u) (h' : Silent u w') : Silent w w' := by
  obtain ⟨xs, hxs, hx⟩ := h
  obtain ⟨ys, hys, hy⟩ := h'
  refine ⟨xs ++ ys, by rw [hys, hxs, List.append_assoc], fun e he => ?_⟩
  rcases List.mem_append.mp he with he | he
  · exact hx e he
  · exact hy e he

theorem Silent.one {e : Effect} (h : w'.history = w.history ++ [e]) (he : e.answer = none) :
    Silent w w' := by
  refine ⟨[e], h, fun f hf => ?_⟩
  rw [List.mem_singleton.mp hf]
  exact he

theorem appendFinished_silent (h : w.appendFinishedIfComplete = some (.ok, w')) :
    Silent w w' := by
  rcases appendFinishedIfComplete_ok h with ⟨-, rfl⟩ | ⟨-, -, final, journal, -, -, rfl⟩
  · exact Silent.refl w'
  · exact Silent.one rfl rfl

theorem appendResult_silent (h : w.appendResultIfComplete = some (.ok, w')) : Silent w w' := by
  rcases appendResultIfComplete_ok h with ⟨-, rfl⟩ | ⟨-, -, final, results, -, -, -, rfl⟩
  · exact Silent.refl w'
  · exact Silent.one rfl rfl

theorem finishGroupTransition_silent (h : w.finishGroupTransition = some (.ok, w')) :
    Silent w w' := by
  obtain ⟨u, h₁, h₂⟩ := Call.andThen_ok h
  exact (appendResult_silent h₁).trans (appendFinished_silent h₂)

theorem appendCompensationToken_silent {result : Frame}
    (h : w.appendCompensationToken image result = some (.ok, w')) : Silent w w' := by
  rcases appendCompensationToken_ok h with ⟨-, rfl⟩ | ⟨route, compensation, -, -, -, -, -, rfl⟩
  · exact Silent.refl w'
  · exact Silent.one rfl rfl

/-- What the driver put on record. -/
theorem setSaga_history {driver : Saga.Driver} {log : Saga.Log.Writer}
    {records : List Saga.Log.Record} (h : log.written = w.sagaLog.written ++ records) :
    (w.setSaga driver log).history = w.history ++ records.map Effect.saga := by
  simp [setSaga, setSlot, h]

theorem beginLiveCompensation_silent {outcome : Outcome}
    (h : w.beginLiveCompensation image outcome = some (.ok, w')) : Silent w w' := by
  rcases beginLiveCompensation_ok h with ⟨-, rfl⟩ | ⟨-, -, plan, driver, log, hbegin, hstart, rfl⟩
  · exact Silent.refl w'
  · obtain ⟨-, r, hkind, hwritten⟩ :=
      Saga.Driver.start_ok (Saga.beginLive_ready hbegin) hstart
    have hhistory : (w.setSaga driver log).history = w.history ++ [Effect.saga r] :=
      setSaga_history hwritten
    exact Silent.one hhistory (by simp [Effect.answer, hkind])

theorem settleExecution_silent {appError : Bool}
    (h : w.settleExecution image appError = some (.ok, w')) : Silent w w' := by
  obtain ⟨u, v, x, hu, hv, hx, rfl⟩ := settleExecution_ok h
  have hsettled : Silent w v := (appendResult_silent (w := w.releaseAction) hu).trans
    (appendFinished_silent hv)
  split at hx
  · have hlive : Silent v x := beginLiveCompensation_silent hx
    exact hsettled.trans hlive
  · cases hx
    exact hsettled

/-! ## Preparing and reconciling -/

/-- Behind a flow that ended, what is sent is another flow and as before. -/
theorem FlowEnds.flows {group group' : GroupExecution} {record : Journal.Record}
    (hgroup : w.slot.group = some group)
    (hout : ∀ k, (group'.flows k).Out → k ≠ i ∧ group'.flows k = group.flows k)
    (h : FlowEnds w i group' record w') : Stays w.slot w'.slot := by
  obtain ⟨v, u, hcloses, hfinish, rfl⟩ := h
  obtain ⟨finished, stored, hslot⟩ := (finishGroupTransition_marked hfinish).slot
  have hslot : u.advance.slot = { v.slot with
      journalFinished := finished, resultStored := stored } := hslot
  refine Stays.of_group hgroup (by rw [hslot, hcloses.slot]) (by rw [hslot, hcloses.slot])
    (by rw [hslot, hcloses.slot]; exact ⟨rfl, rfl⟩) fun k hk => ?_
  obtain ⟨hne, hsame⟩ := hout k ⟨hk.1, .inr hk.2⟩
  unfold GroupExecution.Sent at hk ⊢
  rw [← hsame]
  refine ⟨hk, ?_⟩
  rw [hslot, hcloses.slot]
  exact Function.update_of_ne hne _ _

theorem disown_stays {group : GroupExecution} (hgroup : w.slot.group = some group)
    (hunsent : ¬ group.Sent i) : Stays w.slot (w.disown i).slot := by
  refine Stays.of_group hgroup hgroup rfl ⟨rfl, rfl⟩ fun k hk => ⟨hk, ?_⟩
  have hne : k ≠ i := by
    rintro rfl
    exact hunsent hk
  exact Function.update_of_ne hne _ _

theorem prepareFlow_stays (h : w.prepareFlow image i = some (.ok, w')) :
    Stays w.slot w'.slot := by
  rcases prepareFlow_ok h with rfl | ⟨group, invocation, group', journal, hgroup, hprepare, rfl⟩
  · exact Stays.refl _
  · obtain ⟨-, -, -, -, rfl⟩ := GroupExecution.prepare_ok hprepare
    refine Stays.of_group hgroup rfl rfl ⟨rfl, rfl⟩ fun k hk => ?_
    unfold GroupExecution.Sent at hk ⊢
    have hne : k ≠ i := by
      rintro rfl
      rw [GroupExecution.setFlow_flows_self] at hk
      cases hk.2
    rw [GroupExecution.setFlow_flows_of_ne _ _ hne] at hk
    exact ⟨hk, Function.update_of_ne hne _ _⟩

theorem reconcileFlow_stays (h : w.reconcileFlow image bound i = some (.ok, w')) :
    Stays w.slot w'.slot := by
  rcases reconcileFlow_ok h with
    ⟨rfl, -⟩ | ⟨-, -, -, group, hgroup, ⟨hunsent, rfl⟩ | ⟨group', -, hmark, hends⟩⟩
  · exact Stays.refl _
  · exact disown_stays hgroup hunsent
  · exact hends.flows hgroup fun k => GroupExecution.deliveryOutcome_out (.inr rfl) hmark

/-! ## Sequential slots -/

/-- Behind a delivery that ended the interpreter has nothing out. -/
theorem rests_unsent {execution execution' : Execution} {outcome : Outcome}
    (h : Execution.Rests execution outcome execution') :
    execution'.state ≠ .prepared ∧ execution'.state ≠ .sent := by
  rcases h.state with ⟨hstate, -⟩ | ⟨hstate, -⟩ <;> rw [hstate] <;> decide

theorem loseExecution_ends (hgroup : w.slot.group = none)
    (hplain : w.slot.compensating = false) (h : w.loseExecution image = some (.ok, w')) :
    Ends w.slot w'.slot := by
  obtain ⟨journal, execution, u, -, hmark, hu, rfl⟩ := loseExecution_ok h
  obtain ⟨-, hrests⟩ := Execution.finishDeliveryOutcome_rests hmark
  obtain ⟨-, hunsent⟩ := rests_unsent hrests
  obtain ⟨finished, stored, hslot⟩ := (appendFinished_marked hu).slot
  rw [advance_slot, hslot]
  have hcalm : w.slot.compensating ≠ true := by simp [hplain]
  refine ⟨hgroup, fun _ hc => absurd hc hcalm, fun _ => ?_⟩
  simp [Slot.sent, releaseAction, setExecution, hplain, hunsent]

theorem loseCompensation_ends (hgroup : w.slot.group = none)
    (hcompensating : w.slot.compensating = true) (h : w.loseCompensation = some (.ok, w')) :
    Ends w.slot w'.slot := by
  obtain ⟨driver, log, -, rfl⟩ := loseCompensation_ok h
  refine ⟨hgroup, fun _ hover => absurd hover Bool.false_ne_true, fun hc => ?_⟩
  have hunsent := (hc hcompensating).2
  simp [Slot.sent, failCompensation, releaseAction, setSaga, hunsent]

theorem prepareSlot_stays (h : w.prepareSlot image = some (.ok, w')) :
    Stays w.slot w'.slot := by
  unfold prepareSlot at h
  split at h
  · cases h; exact Stays.refl _
  split at h
  · exact Call.each_rel (R := fun w w' => Stays w.slot w'.slot) (fun w => Stays.refl w.slot)
      Stays.trans (fun _ _ _ => prepareFlow_stays) _ h
  rename_i hgroup
  have hnone : w.slot.group = none := by simpa using hgroup
  split at h
  · cases h; exact Stays.refl _
  split at h
  · rename_i hcompensating
    obtain ⟨invocation, packet, driver, log, hprepare, rfl⟩ := prepareCompensation_ok h
    obtain ⟨execution, -, hstate, rfl, -⟩ := Saga.Driver.prepare_ok hprepare
    refine Ends.stays ⟨hnone, fun hc => hc, fun _ => ?_⟩
    simp [Slot.sent, setInvocation, setSaga, hcompensating, hstate]
  · rename_i hcompensating
    have hplain := Bool.eq_false_iff.mpr hcompensating
    obtain ⟨invocation, packet, execution, journal, hprepare, rfl⟩ := prepareExecution_ok h
    have hstate : execution.state = .prepared := by
      unfold Execution.prepare at hprepare
      split at hprepare
      · cases hprepare
      simp only at hprepare
      split at hprepare
      · cases hprepare
      · cases hprepare; rfl
    refine Ends.stays ⟨hnone, fun _ hc => absurd hc hcompensating, fun _ => ?_⟩
    simp [Slot.sent, setInvocation, setExecution, hplain, hstate]

theorem reconcileSlot_stays (h : w.reconcileSlot image bound = some (.ok, w')) :
    Stays w.slot w'.slot := by
  unfold reconcileSlot at h
  split at h
  · cases h; exact Stays.refl _
  split at h
  · exact Call.each_rel (R := fun w w' => Stays w.slot w'.slot) (fun w => Stays.refl w.slot)
      Stays.trans (fun _ _ _ => reconcileFlow_stays) _ h
  rename_i hgroup
  have hnone : w.slot.group = none := by simpa using hgroup
  split at h
  · cases h; exact Stays.refl _
  split at h
  · rename_i hunsent
    cases h
    exact Ends.stays ⟨hnone, fun hc => hc, fun _ => Bool.eq_false_iff.mpr hunsent⟩
  split at h
  · rename_i hcompensating
    have hends : Ends w.releaseAction.slot w'.slot :=
      loseCompensation_ends hnone hcompensating h
    exact Ends.stays ⟨hends.group, hends.calm, hends.unsent⟩
  · rename_i hcompensating
    have hends : Ends w.releaseAction.slot w'.slot :=
      loseExecution_ends hnone (Bool.eq_false_iff.mpr hcompensating) h
    exact Ends.stays ⟨hends.group, hends.calm, hends.unsent⟩

/-! ## Serving a delivery -/

/-- A result is taken for a delivery that was sent: the packet came in on the connection that
serves the action now, and it answers the delivery's request. -/
def Takes (received : Received) (flow : Option FlowIndex) (w w' : AtSlot) (o : Outcome) : Prop :=
  ∃ key connection registered packet frame, w.slot.sentFor key ∧ ¬ w'.slot.sentFor key ∧
    w.slot.actionFor key = w.slot.actionFor flow ∧
    w.registry.findAction (w.slot.actionFor flow).1 (w.slot.actionFor flow).2 =
      some (connection, registered) ∧
    received = .packet packet ∧ Protocol.decode packet = .ok frame ∧ frame.outcome = o ∧
    frame.requestId = w.slot.awaitedFor key

/-- What serving a delivery does to those of its slot that are out. -/
structure Serves (received : Received) (flow : Option FlowIndex) (w w' : AtSlot) : Prop where
  calm : w'.slot.Calm
  action : ∀ key, w'.slot.actionFor key = w.slot.actionFor key
  /-- What is out keeps its action, the delivery that is served excepted. -/
  keeps : ∀ key, w.slot.ownsFor key →
    w'.slot.sentFor key ∨ (key ≠ flow ∧ w'.slot.preparedFor key) → w'.slot.ownsFor key
  registry : w'.registry = w.registry ∨ w'.registry =
    w.registry.dropAction (w.slot.actionFor flow).1 (w.slot.actionFor flow).2
  /-- A packet goes out on the connection that serves the action. -/
  marked : w.slot.preparedFor flow → w'.slot.sentFor flow → w'.registry = w.registry ∧
    (w.registry.findAction (w.slot.actionFor flow).1 (w.slot.actionFor flow).2).isSome = true
  answers : ∀ e o, w.Tells w'.toShared e → e.answer = some o → Takes received flow w w' o
  /-- A delivery that is closed was answered, or is given up. -/
  closed : ∀ key, w.slot.sentFor key → ¬ w'.slot.sentFor key →
    ∃ e, w.Tells w'.toShared e ∧ (e.answer.isSome = true ∨ e.GivesUp)

theorem Silent.tells {e : Effect} (h : Silent w w') (he : w.Tells w'.toShared e) :
    e.answer = none := by
  obtain ⟨effects, hhistory, hsilent⟩ := h
  obtain ⟨effects', hhistory', hmem⟩ := he
  have hsame : effects' = effects := List.append_cancel_left (hhistory'.symm.trans hhistory)
  exact hsilent e (hsame ▸ hmem)

theorem Silent.answers {received : Received} {flow : Option FlowIndex} (h : Silent w w')
    (e : Effect) (o : Outcome) (he : w.Tells w'.toShared e) (ho : e.answer = some o) :
    Takes received flow w w' o := by
  rw [h.tells he] at ho
  cases ho

/-- One effect between silent ones. -/
theorem told_between {between : Effect} {t u : AtSlot} (hbefore : Silent w t)
    (hu : u.history = t.history ++ [between]) (hafter : Silent u w') :
    w.Tells w'.toShared between ∧
      ∀ e, w.Tells w'.toShared e → e = between ∨ e.answer = none := by
  obtain ⟨xs, hxs, hbefore⟩ := hbefore
  obtain ⟨ys, hys, hafter⟩ := hafter
  have hhistory : w'.history = w.history ++ (xs ++ between :: ys) := by
    rw [hys, hu, hxs]
    simp
  refine ⟨⟨_, hhistory, by simp⟩, fun e he => ?_⟩
  obtain ⟨effects, hhistory', hmem⟩ := he
  have hsame : effects = xs ++ between :: ys :=
    List.append_cancel_left (hhistory'.symm.trans hhistory)
  rw [hsame] at hmem
  rcases List.mem_append.mp hmem with hx | hy
  · exact .inr (hbefore e hx)
  · rcases List.mem_cons.mp hy with rfl | hy
    · exact .inl rfl
    · exact .inr (hafter e hy)

/-- One result at most is among the effects of a call. -/
theorem answers_between {received : Received} {flow : Option FlowIndex} {between : Effect}
    {t u : AtSlot} (hbefore : Silent w t) (hu : u.history = t.history ++ [between])
    (hafter : Silent u w')
    (htakes : ∀ o, between.answer = some o → Takes received flow w w' o) (e : Effect)
    (o : Outcome) (he : w.Tells w'.toShared e) (ho : e.answer = some o) :
    Takes received flow w w' o := by
  rcases (told_between hbefore hu hafter).2 e he with rfl | hsilent
  · exact htakes o ho
  · rw [hsilent] at ho
    cases ho

theorem Serves.refl {received : Received} (flow : Option FlowIndex) (hcalm : w.slot.Calm) :
    Serves received flow w w where
  calm := hcalm
  action := fun _ => rfl
  keeps := fun _ howns _ => howns
  registry := .inl rfl
  marked := fun hprepared hsent => absurd hprepared (Slot.not_prepared_of_sent hsent)
  answers := (Silent.refl w).answers
  closed := fun _ hsent hgone => absurd hsent hgone

/-! ### Flows -/

/-- The delivery that a packet answers: it is sent, and of the action that is served. -/
theorem matchingFlow_some {group : GroupExecution} {delivery : Delivery} {registered : UInt16}
    {packet : Bytes} {j : FlowIndex} {result : Frame} (hgroup : w.slot.group = some group)
    (h : w.matchingFlow group delivery registered packet = some (j, result)) :
    group.Sent j ∧ (w.slot.groupDeliveries j).ownsAction = true ∧
      w.slot.actionFor (some j) = (delivery.appId, delivery.actionId) ∧
      ∃ frame, Protocol.decode packet = .ok frame ∧ result.outcome = frame.outcome ∧
        frame.requestId = w.slot.awaitedFor (some j) := by
  unfold matchingFlow at h
  split at h
  · cases h
  rename_i frame hdecode
  split at h
  · cases h
  obtain ⟨candidate, hfirst, hpair⟩ := Option.map_eq_some_iff.mp h
  obtain ⟨rfl, rfl⟩ := Prod.mk.inj hpair
  have hcandidate := firstIndex_some hfirst
  simp only [Bool.and_eq_true, beq_iff_eq] at hcandidate
  obtain ⟨⟨⟨⟨⟨hactive, hstate⟩, howns⟩, happ⟩, haction⟩, hrequest⟩ := hcandidate
  refine ⟨⟨hactive, hstate⟩, howns, Prod.ext happ haction, frame, hdecode, rfl, ?_⟩
  simp only [Slot.awaitedFor, hgroup, Option.map_some, Option.getD_some]
  exact hrequest.symm

/-- An end is told from the slot, whatever the interpreter was in between. -/
theorem FlowEnds.of_setGroup {group₁ group' : GroupExecution} {record : Journal.Record}
    (h : FlowEnds (w.setGroup group₁) i group' record w') : FlowEnds w i group' record w' := by
  obtain ⟨v, u, hcloses, hrest⟩ := h
  exact ⟨v, u, ⟨hcloses.slot, hcloses.registry, hcloses.journal, hcloses.history,
    hcloses.results, hcloses.workflowId, hcloses.imageFingerprint⟩, hrest⟩

/-- What ends with a delivery of the action that is served. -/
theorem FlowEnds.serves {group group' : GroupExecution} {record : Journal.Record}
    {received : Received} {j : FlowIndex} (hcalm : w.slot.Calm)
    (hout : ∀ k, (group'.flows k).Out → k ≠ j)
    (haction : w.slot.actionFor (some j) = w.slot.actionFor (some i))
    (hmarked : i = j ∨ ¬ w.slot.preparedFor (some i)) (hgroup : w.slot.group = some group)
    (h : FlowEnds w j group' record w')
    (htakes : ∀ o, (Effect.journal { record with sequence := w.journal.nextSequence }).answer =
      some o → Takes received (some i) w w' o)
    (hclosed : (∀ k, w.slot.sentFor (some k) → group'.Sent k) ∨
      ((Effect.journal { record with sequence := w.journal.nextSequence }).answer.isSome = true ∨
        (Effect.journal { record with sequence := w.journal.nextSequence }).GivesUp)) :
    Serves received (some i) w w' := by
  obtain ⟨v, u, hcloses, hfinish, rfl⟩ := h
  have hmarks := finishGroupTransition_marked hfinish
  obtain ⟨finished, stored, hslot⟩ := hmarks.slot
  have hslot : u.advance.slot = { w.slot with
      group := some group'
      groupDeliveries := Function.update w.slot.groupDeliveries j
        { w.slot.groupDeliveries j with ownsAction := false }
      journalFinished := finished
      resultStored := stored } := by
    rw [advance_slot, hslot, hcloses.slot]
  have hgroup' : u.advance.slot.group = some group' := by rw [hslot]
  have hflow : ∀ key, u.advance.slot.sentFor key ∨ u.advance.slot.preparedFor key →
      ∃ k, key = some k ∧ k ≠ j := by
    rintro key (hsent | hprepared)
    · obtain ⟨k, rfl, -, hk⟩ := Slot.sentFor_flow hgroup' hsent
      exact ⟨k, rfl, hout k ⟨hk.1, .inr hk.2⟩⟩
    · obtain ⟨k, rfl, -, hactive, hstate⟩ := Slot.preparedFor_flow hgroup' hprepared
      exact ⟨k, rfl, hout k ⟨hactive, .inl hstate⟩⟩
  have hsilent : Silent v u := finishGroupTransition_silent hfinish
  refine ⟨?_, fun key => ?_, fun key howns hkey => ?_, ?_, fun hprepared hsent => ?_, ?_,
    fun key hsent hgone => ?_⟩
  · rw [hslot]
    exact hcalm
  · cases key with
    | none => rw [hslot]; rfl
    | some k =>
        rw [hslot]
        by_cases hk : k = j
        · subst hk; simp [Slot.actionFor]
        · simp [Slot.actionFor, hk]
  · obtain ⟨k, rfl, hk⟩ := hflow key (hkey.imp id And.right)
    obtain ⟨ha, -, hd⟩ := howns
    rw [hslot]
    exact ⟨ha, rfl, by simpa [hk] using hd⟩
  · have hregistry : u.advance.registry = v.registry := hmarks.registry
    rw [hregistry, ← haction]
    exact hcloses.registry
  · obtain ⟨k, hk, hne⟩ := hflow _ (.inl hsent)
    rcases hmarked with rfl | hnot
    · exact absurd (Option.some.inj hk).symm hne
    · exact absurd hprepared hnot
  · exact answers_between (Silent.refl w) hcloses.history hsilent htakes
  · rcases hclosed with hstays | htold
    · obtain ⟨k, rfl, hactive, -⟩ := Slot.sentFor_flow hgroup hsent
      refine absurd ⟨?_, group', hgroup', hstays k hsent⟩ hgone
      rw [hslot]
      exact hactive
    · exact ⟨_, (told_between (Silent.refl w) hcloses.history hsilent).1, htold⟩

/-- Behind a packet that was written, its delivery is sent. -/
theorem markSent_serves {group group' : GroupExecution} {received : Received}
    {connection : Nat} {registered : UInt16} {packet : Bytes} {journal : Journal.Writer}
    (hcalm : w.slot.Calm) (hgroup : w.slot.group = some group)
    (hmarked : group.markSent i = .ok group') (hfound : w.registry.findAction (w.slot.groupDeliveries i).appId
      (w.slot.groupDeliveries i).actionId = some (connection, registered)) :
    Serves received (some i) w ((((w.invoked connection packet).recorded journal
      (w.deliveryRecord i .deliverySent .none)).setGroup group').advance) where
  calm := hcalm
  action := fun _ => rfl
  keeps := by
    intro key howns hkey
    have hout := hkey.imp (Slot.sentFor_flow rfl) fun h => Slot.preparedFor_flow rfl h.2
    obtain ⟨k, rfl, -⟩ | ⟨k, rfl, -⟩ := hout
    all_goals exact ⟨howns.1, rfl, howns.2.2⟩
  registry := .inl rfl
  marked := fun _ _ => ⟨rfl, by simp only [Slot.actionFor, hfound, Option.isSome_some]⟩
  answers := by
    refine Silent.answers ⟨[_, _], by rw [advance, setGroup, setSlot, recorded, invoked]
                                      exact List.append_assoc .., fun e he => ?_⟩
    rcases List.mem_cons.mp he with rfl | he
    · rfl
    · rw [List.mem_singleton.mp he]
      rfl
  closed := by
    obtain ⟨-, hstate, rfl⟩ := GroupExecution.markSent_ok hmarked
    intro key hsent hgone
    obtain ⟨k, rfl, hactive, hk⟩ := Slot.sentFor_flow hgroup hsent
    refine absurd ⟨hactive, _, rfl, ?_⟩ hgone
    have hne : k ≠ i := by
      rintro rfl
      rw [hk.2] at hstate
      cases hstate
    unfold GroupExecution.Sent
    rwa [GroupExecution.setFlow_flows_of_ne _ _ hne]

theorem FlowSent.serves {group : GroupExecution} {received : Received} (hcalm : w.slot.Calm)
    (hgroup : w.slot.group = some group) (hstate : (group.flows i).state = .prepared)
    (h : FlowSent image bound w i w') : Serves received (some i) w w' := by
  cases h with
  | same => exact Serves.refl _ hcalm
  | disowned missing =>
      have hslot : ∀ {k}, k ≠ i → (w.disown i).slot.groupDeliveries k =
          w.slot.groupDeliveries k := fun hk => Function.update_of_ne hk _ _
      refine ⟨hcalm, fun key => ?_, fun key howns hkey => ?_, .inl rfl, fun hprepared hsent => ?_,
        (Silent.refl w).answers, fun key hsent hgone => ?_⟩
      · cases key with
        | none => rfl
        | some k =>
            by_cases hk : k = i
            · subst hk; simp [Slot.actionFor, disown, setDelivery]
            · simp only [Slot.actionFor, hslot hk]
      · -- the flow is prepared, so it is another one that is sent
        have hne : ∃ k, key = some k ∧ k ≠ i := by
          rcases hkey with hsent | ⟨hne, hprepared⟩
          · obtain ⟨k, rfl, -, hk⟩ := Slot.sentFor_flow hgroup hsent
            refine ⟨k, rfl, ?_⟩
            rintro rfl
            rw [hk.2] at hstate
            cases hstate
          · obtain ⟨k, rfl, -⟩ := Slot.preparedFor_flow hgroup hprepared
            exact ⟨k, rfl, fun hk => hne (congrArg some hk)⟩
        obtain ⟨k, rfl, hk⟩ := hne
        exact ⟨howns.1, howns.2.1, (hslot hk).symm ▸ howns.2.2⟩
      · exact absurd hprepared (Slot.not_prepared_of_sent hsent)
      · obtain ⟨k, rfl, hactive, hk⟩ := Slot.sentFor_flow hgroup hsent
        exact absurd ⟨hactive, group, hgroup, hk⟩ hgone
  | sent grouped found marked => exact markSent_serves hcalm grouped marked found
  | failed grouped marked ends =>
      refine ends.serves hcalm
        (fun k hk => (GroupExecution.deliveryOutcome_out (.inl rfl) marked hk).1) rfl (.inl rfl)
        hgroup ?_ (.inl fun k hsent => ?_)
      · intro o ho
        simp [Effect.answer, deliveryRecord] at ho
      · rw [hgroup] at grouped
        cases grouped
        obtain ⟨k', hk', -, hk⟩ := Slot.sentFor_flow hgroup hsent
        cases hk'
        refine GroupExecution.deliveryOutcome_sent (.inl rfl) marked ?_ hk
        rintro rfl
        rw [hk.2] at hstate
        cases hstate

theorem FlowReceived.serves {group : GroupExecution} {received : Received} (hcalm : w.slot.Calm)
    (hactive : w.slot.active = true) (hgroup : w.slot.group = some group)
    (hstate : (group.flows i).state ≠ .prepared)
    (h : FlowReceived image bound received w i w') : Serves received (some i) w w' := by
  have hunprepared : ¬ w.slot.preparedFor (some i) := by
    intro hprepared
    obtain ⟨k, hk, -, -, hprepared⟩ := Slot.preparedFor_flow hgroup hprepared
    cases hk
    exact hstate hprepared
  have hlost : ∀ {group' : GroupExecution}, group.markUnknown image bound i =
        some (.ok, group') →
      FlowEnds w i group' (w.deliveryRecord i .actionUnknown .unknown) w' →
      Serves received (some i) w w' := by
    intro group' hmark hends
    refine hends.serves hcalm
      (fun k hk => (GroupExecution.deliveryOutcome_out (.inr rfl) hmark hk).1) rfl (.inl rfl)
      hgroup ?_ (.inr (.inr ⟨rfl, rfl⟩))
    intro o ho
    simp [Effect.answer, deliveryRecord] at ho
  cases h with
  | same => exact Serves.refl _ hcalm
  | lost grouped missing marked ends =>
      rw [hgroup] at grouped
      cases grouped
      exact hlost marked ends
  | refused grouped marked ends =>
      rw [hgroup] at grouped
      cases grouped
      exact hlost marked ends
  | unanswered grouped matched refused failed marked ends =>
      obtain ⟨-, -, haction, -⟩ := matchingFlow_some grouped matched
      refine ends.of_setGroup.serves hcalm
        (fun k hk => (GroupExecution.deliveryOutcome_out (.inr rfl) marked hk).1) haction
        (.inr hunprepared) hgroup ?_ (.inr (.inr ⟨rfl, rfl⟩))
      intro o ho
      simp [Effect.answer, deliveryRecord] at ho
  | @accepted _ group' _ connection registered packet j result grouped found read matched accepted
      ends =>
      rw [hgroup] at grouped
      cases grouped
      obtain ⟨hsent, -, haction, frame, hdecode, houtcome, hrequest⟩ :=
        matchingFlow_some hgroup matched
      refine ends.serves hcalm
        (fun k hk => (GroupExecution.acceptResult_out accepted hk).1) haction (.inr hunprepared)
        hgroup ?_ (.inr (.inl ?_))
      swap
      · rcases GroupExecution.acceptResult_cases accepted with ⟨hbad, -⟩ | ⟨-, hout, -⟩
        · exact absurd rfl hbad
        · rcases hout with hsuccess | herror
          · simp [Effect.answer, deliveryRecord, hsuccess]
          · simp [Effect.answer, deliveryRecord, herror]
      intro o ho
      have hgone : ¬ w'.slot.sentFor (some j) := by
        intro hsent'
        obtain ⟨k, hk, -, hout⟩ := Slot.sentFor_flow ends.group hsent'
        cases hk
        exact (GroupExecution.acceptResult_out accepted ⟨hout.1, .inr hout.2⟩).1 rfl
      have ho : result.outcome = o := answer_journal ho
      rw [houtcome] at ho
      exact ⟨some j, connection, registered, packet, frame, ⟨hactive, group, hgroup, hsent⟩, hgone,
        haction, found, read, hdecode, ho, hrequest⟩

/-! ### Sequential slots -/

/-- A slot behind a sequential delivery that is over; an end may start the compensation. -/
def Settled (s s' : Slot) : Prop :=
  ∃ finished stored,
    s' = { s with
      ownsAction := false, journalFinished := finished, resultStored := stored } ∨
    ∃ driver : Saga.Driver, driver.execution.state = .ready ∧
      s' = { s with
        ownsAction := false, journalFinished := finished, resultStored := stored
        saga := driver, compensating := true }

theorem Settled.ends {s s' : Slot} (h : Settled s s') (hgroup : s.group = none)
    (hplain : s.compensating = false)
    (hstate : s.execution.state ≠ .prepared ∧ s.execution.state ≠ .sent) : Ends s s' := by
  obtain ⟨finished, stored, rfl | ⟨driver, hready, rfl⟩⟩ := h
  · refine ⟨hgroup, fun hc => hc, fun _ => ?_⟩
    simp [Slot.sent, hplain, hstate.2]
  · refine ⟨hgroup, fun _ _ => hstate, fun _ => ?_⟩
    simp [Slot.sent, hready]

theorem Settled.action {s s' : Slot} (h : Settled s s') :
    s'.appId = s.appId ∧ s'.actionId = s.actionId ∧ s'.groupDeliveries = s.groupDeliveries := by
  obtain ⟨finished, stored, rfl | ⟨driver, -, rfl⟩⟩ := h <;> exact ⟨rfl, rfl, rfl⟩

theorem beginLiveCompensation_settled {s : Slot} {finished stored : Bool} {outcome : Outcome}
    (hslot : w.slot = { s with
      ownsAction := false, journalFinished := finished, resultStored := stored })
    (h : w.beginLiveCompensation image outcome = some (.ok, w')) :
    Settled s w'.slot ∧ w'.registry = w.registry := by
  rcases beginLiveCompensation_ok h with ⟨-, rfl⟩ | ⟨-, -, plan, driver, log, hbegin, hstart, rfl⟩
  · exact ⟨⟨finished, stored, .inl hslot⟩, rfl⟩
  · have hready := Saga.beginLive_ready hbegin
    obtain ⟨rfl, -⟩ := Saga.Driver.start_ok hready hstart
    refine ⟨⟨finished, stored, .inr ⟨{ execution := plan, started := true }, hready, ?_⟩⟩, rfl⟩
    simp only [setSaga, setSlot, hslot]

theorem settleExecution_settled {appError : Bool}
    (h : w.settleExecution image appError = some (.ok, w')) :
    Settled w.slot w'.slot ∧ w'.registry = w.registry := by
  obtain ⟨u, v, x, hu, hv, hx, rfl⟩ := settleExecution_ok h
  have hmarked := (appendResult_marked hu).trans (appendFinished_marked hv)
  obtain ⟨finished, stored, hslot⟩ := hmarked.slot
  split at hx
  · have hlive : Settled w.slot x.slot ∧ x.registry = v.registry :=
      beginLiveCompensation_settled hslot hx
    exact ⟨hlive.1, hlive.2.trans hmarked.registry⟩
  · cases hx
    exact ⟨⟨finished, stored, .inl hslot⟩, hmarked.registry⟩

theorem failToSend_settled (h : w.failToSend image = some (.ok, w')) :
    ∃ execution, w.slot.execution.markNotSent image = (.ok, execution) ∧
      Settled { w.slot with execution } w'.slot ∧
      w'.registry = w.registry.dropAction w.slot.appId w.slot.actionId := by
  obtain ⟨journal, execution, u, v, -, hmark, hu, hv, rfl⟩ := failToSend_ok h
  have hmarked := appendFinished_marked hu
  obtain ⟨finished, stored, hslot⟩ := hmarked.slot
  have hlive : Settled { w.slot with execution } v.slot ∧ v.registry = u.registry :=
    beginLiveCompensation_settled hslot hv
  exact ⟨execution, hmark, hlive.1, hlive.2.trans hmarked.registry⟩

theorem refuseExecution_settled (h : w.refuseExecution image = some (.ok, w')) :
    ∃ execution, w.slot.execution.markUnknown image = (.ok, execution) ∧
      Settled { w.slot with execution } w'.slot ∧
      w'.registry = w.registry.dropAction w.slot.appId w.slot.actionId := by
  obtain ⟨journal, execution, -, hmark, hsettle⟩ := refuseExecution_ok h
  obtain ⟨hsettled, hregistry⟩ := settleExecution_settled hsettle
  exact ⟨execution, hmark, hsettled, hregistry⟩

theorem recordResult_settled {result : Frame}
    (h : w.recordResult image result = some (.ok, w')) :
    ∃ requests count, Settled { w.slot with
        sagaForwardRequests := requests, sagaSuccessCount := count } w'.slot ∧
      w'.registry = w.registry := by
  obtain ⟨t, journal, ht, -, hsettle⟩ := recordResult_ok h
  obtain ⟨hsettled, hregistry⟩ := settleExecution_settled hsettle
  have htoken : ∃ requests count, t.slot = { w.slot with
      sagaForwardRequests := requests, sagaSuccessCount := count } ∧
      t.registry = w.registry := by
    split at ht
    · rcases appendCompensationToken_ok ht with ⟨-, rfl⟩ | ⟨route, writer, -, -, -, -, -, rfl⟩
      · exact ⟨_, _, rfl, rfl⟩
      · exact ⟨_, _, rfl, rfl⟩
    · cases ht
      exact ⟨_, _, rfl, rfl⟩
  obtain ⟨requests, count, hslot, htoken⟩ := htoken
  rw [recorded_slot, hslot] at hsettled
  exact ⟨requests, count, hsettled, hregistry.trans htoken⟩

/-- What serving a sequential slot does to its delivery. -/
structure ServesSlot (received : Received) (w w' : AtSlot) : Prop
    extends Serves received none w w' where
  /-- Only what was out is sent, and its connection was not dropped. -/
  standing : w'.slot.sentFor none →
    (w.slot.sentFor none ∨ w.slot.preparedFor none) ∧ w'.registry = w.registry

theorem ServesSlot.of_ends {received : Received} (hcalm : w.slot.Calm)
    (hgroup : w.slot.group = none) (hends : Ends w.slot w'.slot)
    (haction : w'.slot.appId = w.slot.appId ∧ w'.slot.actionId = w.slot.actionId ∧
      w'.slot.groupDeliveries = w.slot.groupDeliveries)
    (hregistry : w'.registry = w.registry ∨
      w'.registry = w.registry.dropAction w.slot.appId w.slot.actionId)
    (hanswers : ∀ e o, w.Tells w'.toShared e → e.answer = some o →
      Takes received none w w' o)
    (hclosed : w.slot.sentFor none → ∃ e, w.Tells w'.toShared e ∧
      (e.answer.isSome = true ∨ e.GivesUp)) : ServesSlot received w w' := by
  have hunsent : ∀ key, ¬ w'.slot.sentFor key := by
    intro key hsent
    obtain ⟨-, -, hs⟩ := Slot.sentFor_slot hends.group hsent
    rw [hends.unsent hcalm] at hs
    cases hs
  refine ⟨⟨hends.calm hcalm, fun key => ?_, fun key _ hkey => ?_, hregistry,
    fun _ hsent => absurd hsent (hunsent _), hanswers, fun key hsent _ => ?_⟩,
    fun hsent => absurd hsent (hunsent _)⟩
  · cases key with
    | none => exact Prod.ext haction.1 haction.2.1
    | some k => simp only [Slot.actionFor, haction.2.2]
  · rcases hkey with hsent | ⟨hne, hprepared⟩
    · exact absurd hsent (hunsent key)
    · exact absurd (Slot.preparedFor_slot hends.group hprepared).1 hne
  · obtain ⟨rfl, -⟩ := Slot.sentFor_slot hgroup hsent
    exact hclosed hsent

theorem unsent_of_prepared {slot : Slot} (h : slot.prepared = true) : slot.sent = false := by
  unfold Slot.prepared at h
  unfold Slot.sent
  cases hc : slot.compensating <;> simp_all

/-- A packet that was written leaves the slot as it was, but that its delivery is sent. -/
theorem ServesSlot.of_sent {received : Received} {connection : Nat} {registered : UInt16}
    (hgroup : w.slot.group = none) (hprepared : w.slot.prepared = true)
    (hcalm : w'.slot.Calm)
    (hslot : w'.slot.group = w.slot.group ∧ w'.slot.active = w.slot.active ∧
      w'.slot.ownsAction = w.slot.ownsAction ∧ w'.slot.appId = w.slot.appId ∧
      w'.slot.actionId = w.slot.actionId ∧ w'.slot.groupDeliveries = w.slot.groupDeliveries)
    (hregistry : w'.registry = w.registry)
    (hfound : w.registry.findAction w.slot.appId w.slot.actionId = some (connection, registered))
    (hsilent : Silent w w') : ServesSlot received w w' := by
  obtain ⟨hgroup', hactive, howns, happ, haction, hdeliveries⟩ := hslot
  refine ⟨⟨hcalm, fun key => ?_, fun key hkey _ => ?_, .inl hregistry, fun _ _ => ⟨hregistry, ?_⟩,
    hsilent.answers, fun key hsent _ => ?_⟩,
    fun hsent => ⟨.inr ⟨hactive ▸ hsent.1, hprepared⟩, hregistry⟩⟩
  · cases key with
    | none => exact Prod.ext happ haction
    | some k => simp only [Slot.actionFor, hdeliveries]
  · cases key with
    | none => exact ⟨hactive ▸ hkey.1, hgroup'.trans hkey.2.1, howns.trans hkey.2.2⟩
    | some k =>
        obtain ⟨-, hsome, -⟩ := hkey
        rw [hgroup] at hsome
        cases hsome
  · simp only [Slot.actionFor, hfound, Option.isSome_some]
  · obtain ⟨-, -, hs⟩ := Slot.sentFor_slot hgroup hsent
    rw [unsent_of_prepared hprepared] at hs
    cases hs

theorem failToSend_silent (h : w.failToSend image = some (.ok, w')) : Silent w w' := by
  obtain ⟨journal, execution, u, v, -, -, hu, hv, rfl⟩ := failToSend_ok h
  have hfirst : Silent w (w.recorded journal (w.actionRecord .actionFailed .notSent)) :=
    Silent.one rfl (by simp [Effect.answer, actionRecord])
  have hfinished := appendFinished_silent hu
  have hlive : Silent u v := beginLiveCompensation_silent hv
  exact hfirst.trans (Silent.trans hfinished hlive)

/-- What the driver puts on record of a delivery that ends, and the end of the log. -/
theorem driver_silent {log : Saga.Log.Writer} {r f : Saga.Log.Record}
    (hwritten : log.written = w.sagaLog.written ++ [r, f]) (hr : (Effect.saga r).answer = none)
    (hf : f.kind = .finished)
    (hhistory : w'.history =
      w.history ++ (log.written.drop w.sagaLog.written.length).map Effect.saga) :
    Silent w w' := by
  refine ⟨[Effect.saga r, Effect.saga f], by simp [hhistory, hwritten], fun e he => ?_⟩
  rcases List.mem_cons.mp he with rfl | he
  · exact hr
  · rw [List.mem_singleton.mp he]
    simp [Effect.answer, hf]

theorem SlotSent.serves {received : Received} (hcalm : w.slot.Calm)
    (hgroup : w.slot.group = none) (hprepared : w.slot.prepared = true)
    (h : SlotSent image w w') : ServesSlot received w w' := by
  have hunsent : ¬ w.slot.sentFor none := by
    intro hsent
    have hs := hsent.2
    rw [unsent_of_prepared hprepared] at hs
    cases hs
  cases h with
  | released missing =>
      exact ServesSlot.of_ends hcalm hgroup ⟨hgroup, fun hc => hc, fun _ => unsent_of_prepared hprepared⟩
        ⟨rfl, rfl, rfl⟩ (.inl rfl) (Silent.refl w).answers fun hsent => absurd hsent hunsent
  | waits registered =>
      exact ServesSlot.of_ends hcalm hgroup ⟨hgroup, fun hc => hc, fun _ => unsent_of_prepared hprepared⟩
        ⟨rfl, rfl, rfl⟩ (.inl rfl) (Silent.refl w).answers fun hsent => absurd hsent hunsent
  | sent plain found marked =>
      refine ServesSlot.of_sent hgroup hprepared ?_ ⟨rfl, rfl, rfl, rfl, rfl, rfl⟩ rfl found ?_
      · exact calm_of_plain plain
      · refine ⟨[_, _], List.append_assoc .., fun e he => ?_⟩
        rcases List.mem_cons.mp he with rfl | he
        · rfl
        · rw [List.mem_singleton.mp he]
          rfl
  | @compensationSent connection registered driver log compensating found marked =>
      obtain ⟨-, -, r, hkind, hwritten⟩ := Saga.Driver.markSent_ok marked
      refine ServesSlot.of_sent hgroup hprepared hcalm ⟨rfl, rfl, rfl, rfl, rfl, rfl⟩ rfl found ?_
      let u : AtSlot := (w.setSlot fun slot =>
        { slot with packet := patchActionId slot.packet registered }).invoked connection
          (patchActionId w.slot.packet registered)
      have hhistory : (u.setSaga driver log).history = u.history ++ [Effect.saga r] :=
        setSaga_history (w := u) hwritten
      have hsent : Silent w u := Silent.one rfl rfl
      have hmarked : Silent u (u.setSaga driver log) :=
        Silent.one hhistory (by simp [Effect.answer, hkind])
      exact hsent.trans hmarked
  | failed plain failed =>
      obtain ⟨execution, hmark, hsettled, hregistry⟩ := failToSend_settled failed
      obtain ⟨-, hrests⟩ := Execution.finishDeliveryOutcome_rests hmark
      have hends : Ends w.slot w'.slot :=
        (hsettled.ends hgroup plain (rests_unsent hrests)).of_calm (calm_of_plain plain)
      have hsilent : Silent w w' := by
        obtain ⟨effects, hhistory, hall⟩ := failToSend_silent failed
        exact ⟨effects, hhistory, hall⟩
      exact ServesSlot.of_ends hcalm hgroup hends hsettled.action (.inr hregistry) hsilent.answers
        fun hsent => absurd hsent hunsent
  | compensationFailed compensating failed =>
      obtain ⟨driver, log, hmark, rfl⟩ := failToSendCompensation_ok failed
      obtain ⟨-, -, r, f, hkind, houtcome, hfinished, hwritten⟩ := Saga.Driver.markNotSent_ok hmark
      refine ServesSlot.of_ends hcalm hgroup ⟨hgroup, fun _ hover => ?_, fun hc => ?_⟩ ⟨rfl, rfl, rfl⟩
        (.inr rfl) (Silent.answers (driver_silent hwritten ?_ hfinished rfl))
        fun hsent => absurd hsent hunsent
      · exact absurd hover Bool.false_ne_true
      · have hstate := (hc compensating).2
        simp [Slot.sent, failCompensation, releaseAction, dropAction, setSaga, hstate]
      · simp [Effect.answer, hkind, houtcome]

theorem decodeResult_some {registered : UInt16} {packet : Bytes} {result : Frame}
    (h : w.decodeResult registered packet = some result) :
    ∃ frame, Protocol.decode packet = .ok frame ∧ result.outcome = frame.outcome ∧
      result.requestId = frame.requestId := by
  unfold decodeResult at h
  split at h
  · cases h
  rename_i frame hdecode
  split at h
  · cases h
  · cases h
    exact ⟨frame, hdecode, rfl, rfl⟩

theorem loseExecution_serves {received : Received} (hcalm : w.slot.Calm)
    (hgroup : w.slot.group = none) (hplain : w.slot.compensating = false)
    (h : w.loseExecution image = some (.ok, w')) : ServesSlot received w w' := by
  have hends := loseExecution_ends hgroup hplain h
  obtain ⟨journal, execution, u, -, -, hu, rfl⟩ := loseExecution_ok h
  obtain ⟨finished, stored, hslot⟩ := (appendFinished_marked hu).slot
  have hsilent : Silent ((w.recorded journal
      (w.actionRecord .actionUnknown .unknown)).setExecution execution).releaseAction u :=
    appendFinished_silent hu
  have htold : w.Tells u.toShared _ := (told_between (Silent.refl w) rfl hsilent).1
  refine ServesSlot.of_ends hcalm hgroup hends ?_ (.inl (appendFinished_marked hu).registry)
    (answers_between (Silent.refl w) rfl hsilent fun o ho => ?_) fun _ => ⟨_, htold, .inr ⟨rfl, rfl⟩⟩
  · rw [advance_slot, hslot]
    exact ⟨rfl, rfl, rfl⟩
  · simp [Effect.answer, actionRecord] at ho

/-- A delivery that is refused, from whatever the interpreter last was. -/
theorem refuseExecution_serves {received : Received} {execution : Execution}
    (hcalm : w.slot.Calm) (hgroup : w.slot.group = none) (hplain : w.slot.compensating = false)
    (h : (w.setExecution execution).refuseExecution image = some (.ok, w')) :
    ServesSlot received w w' := by
  obtain ⟨ended, hmark, hsettled, hregistry⟩ := refuseExecution_settled h
  obtain ⟨-, hrests⟩ := Execution.finishDeliveryOutcome_rests hmark
  have hends : Ends w.slot w'.slot :=
    (hsettled.ends hgroup hplain (rests_unsent hrests)).of_calm (calm_of_plain hplain)
  obtain ⟨journal, ended', -, -, hsettle⟩ := refuseExecution_ok h
  have hsilent := settleExecution_silent hsettle
  have htold : w.Tells w'.toShared _ := (told_between (Silent.refl w) rfl hsilent).1
  refine ServesSlot.of_ends hcalm hgroup hends hsettled.action (.inr hregistry)
    (answers_between (Silent.refl w) rfl hsilent fun o ho => ?_) fun _ =>
      ⟨_, htold, .inr ⟨rfl, rfl⟩⟩
  simp [Effect.answer, actionRecord] at ho

theorem recordResult_serves {received : Received} {connection : Nat} {registered : UInt16}
    {packet : Bytes} {result : Frame} {execution : Execution} (hcalm : w.slot.Calm)
    (hgroup : w.slot.group = none) (hplain : w.slot.compensating = false)
    (hactive : w.slot.active = true)
    (hfound : w.registry.findAction w.slot.appId w.slot.actionId = some (connection, registered))
    (hpacket : received = .packet packet)
    (hdecode : w.decodeResult registered packet = some result)
    (haccept : w.slot.execution.acceptResult image result = (.ok, execution))
    (h : (w.setExecution execution).recordResult image result = some (.ok, w')) :
    ServesSlot received w w' := by
  obtain ⟨hsent, hanswers, next, -, hrests⟩ := Execution.acceptResult_rests haccept
  obtain ⟨requests, count, hsettled, hregistry⟩ := recordResult_settled h
  have hends : Ends w.slot w'.slot :=
    (hsettled.ends hgroup hplain (rests_unsent hrests)).of_calm (calm_of_plain hplain)
  obtain ⟨t, journal, ht, -, hsettle⟩ := recordResult_ok h
  have htoken : Silent w t := by
    have hsilent : Silent (w.setExecution execution) t := by
      split at ht
      · exact appendCompensationToken_silent ht
      · cases ht
        exact Silent.refl _
    obtain ⟨effects, hhistory, hall⟩ := hsilent
    exact ⟨effects, hhistory, hall⟩
  have hsilent := settleExecution_silent hsettle
  simp only [Execution.answers, Bool.and_eq_true, Bool.or_eq_true, beq_iff_eq] at hanswers
  refine ServesSlot.of_ends hcalm hgroup hends hsettled.action (.inl hregistry)
    (answers_between htoken rfl hsilent fun o ho => ?_) fun _ =>
      ⟨_, (told_between htoken rfl hsilent).1, .inl ?_⟩
  · obtain ⟨frame, hframe, hsame, hid⟩ := decodeResult_some hdecode
    have hgone : ¬ w'.slot.sentFor none := by
      rintro ⟨-, hs⟩
      rw [hends.unsent hcalm] at hs
      cases hs
    have ho : result.outcome = o := answer_journal ho
    refine ⟨none, connection, registered, packet, frame, ⟨hactive, ?_⟩, hgone, rfl, hfound, hpacket,
      hframe, hsame ▸ ho, ?_⟩
    · simp [Slot.sent, hgroup, hplain, hsent]
    · simp only [Slot.awaitedFor, hplain, Bool.false_eq_true, if_false, ← hid]
      exact hanswers.1.1.1.1.2
  · rcases hanswers.2 with hsuccess | herror
    · simp [Effect.answer, answerRecord, actionRecord, hsuccess]
    · simp [Effect.answer, answerRecord, actionRecord, herror]

/-- A compensation that is given up, with or without its connection. -/
theorem giveUp_serves {received : Received} {driver : Saga.Driver} {log : Saga.Log.Writer}
    (hcalm : w.slot.Calm) (hgroup : w.slot.group = none)
    (hcompensating : w.slot.compensating = true)
    (hmark : w.slot.saga.markUnknown w.sagaLog = (.ok, driver, log))
    (hslot : w'.slot = ((w.setSaga driver log).releaseAction.failCompensation .unknown).slot)
    (hregistry : w'.registry = w.registry ∨
      w'.registry = w.registry.dropAction w.slot.appId w.slot.actionId)
    (hhistory : w'.history = (w.setSaga driver log).history) : ServesSlot received w w' := by
  obtain ⟨-, -, r, f, hkind, houtcome, hfinished, hwritten⟩ := Saga.Driver.markUnknown_ok hmark
  refine ServesSlot.of_ends hcalm hgroup ⟨by rw [hslot]; exact hgroup, fun _ => ?_, fun hc => ?_⟩
    (by rw [hslot]; exact ⟨rfl, rfl, rfl⟩) hregistry
    (Silent.answers (driver_silent hwritten ?_ hfinished hhistory)) fun _ =>
      ⟨Effect.saga r, ⟨[Effect.saga r, Effect.saga f], ?_, by simp⟩, .inr ⟨hkind, houtcome⟩⟩
  · rw [hslot]
    exact calm_of_plain rfl
  · have hstate := (hc hcompensating).2
    rw [hslot]
    simp [Slot.sent, failCompensation, releaseAction, setSaga, hstate]
  · simp [Effect.answer, hkind]
  · rw [hhistory, setSaga_history hwritten]
    rfl

theorem CompensationReceived.serves {received : Received} {connection : Nat}
    {registered : UInt16} {result : Option Frame} (hcalm : w.slot.Calm)
    (hgroup : w.slot.group = none) (hcompensating : w.slot.compensating = true)
    (hfound : w.registry.findAction w.slot.appId w.slot.actionId = some (connection, registered))
    (hactive : w.slot.active = true)
    (hread : ∀ frame, result = some frame →
      ∃ packet, received = .packet packet ∧ w.decodeResult registered packet = some frame)
    (h : CompensationReceived image w result w') : ServesSlot received w w' := by
  cases h with
  | refused refused =>
      obtain ⟨driver, log, hmark, rfl⟩ := refused
      exact giveUp_serves hcalm hgroup hcompensating hmark rfl (.inr rfl) rfl
  | unanswered failed refused =>
      obtain ⟨driver, log, hmark, rfl⟩ := refused
      have hsent := (Saga.Driver.markUnknown_ok hmark).1
      obtain ⟨rfl, rfl⟩ := Saga.Driver.acceptResult_refused failed hsent
      refine giveUp_serves hcalm hgroup hcompensating hmark rfl (.inr rfl) ?_
      simp [setSaga, setSlot, dropAction, failCompensation, releaseAction, advance]
  | @accepted result driver log u accepted settled =>
      obtain ⟨execution, haccept, rfl, r, rest, hkind, houtcome, hrest, hwritten⟩ :=
        Saga.Driver.acceptResult_ok accepted
      obtain ⟨hsent, hrequest, htyped, hunsent, -⟩ := Saga.Driver.accepts_sent haccept
      have hu : u.slot.group = none ∧ u.slot.appId = w.slot.appId ∧
          u.slot.actionId = w.slot.actionId ∧ u.slot.groupDeliveries = w.slot.groupDeliveries ∧
          u.registry = w.registry ∧
          u.history = w.history ++ Effect.saga r :: rest.map Effect.saga := by
        have hhistory : (w.setSaga { w.slot.saga with execution } log).history =
            w.history ++ (r :: rest).map Effect.saga := setSaga_history hwritten
        rcases settled with ⟨-, rfl⟩ | ⟨-, rfl⟩ | ⟨-, -, rfl⟩ <;>
          exact ⟨hgroup, rfl, rfl, rfl, rfl, hhistory⟩
      obtain ⟨hgroup', happ, haction, hdeliveries, hregistry, hhistory⟩ := hu
      have hstate := hcalm hcompensating
      have hends : Ends w.slot u.releaseAction.advance.slot := by
        refine ⟨hgroup', fun _ => ?_, fun _ => ?_⟩
        · rcases settled with ⟨-, rfl⟩ | ⟨-, rfl⟩ | ⟨-, -, rfl⟩
          · exact calm_of_plain rfl
          · exact calm_of_plain rfl
          · exact fun _ => hstate
        · rcases settled with ⟨-, rfl⟩ | ⟨-, rfl⟩ | ⟨-, -, rfl⟩
          · simp [Slot.sent, releaseAction, setSaga, hstate.2]
          · simp [Slot.sent, failCompensation, releaseAction, setSaga, hstate.2]
          · simp [Slot.sent, releaseAction, setSaga, hcompensating, hunsent]
      have hsilent : Silent { w with history := w.history ++ [Effect.saga r] }
          u.releaseAction.advance := by
        refine ⟨rest.map Effect.saga, by
          rw [List.append_assoc]
          exact hhistory, fun e he => ?_⟩
        obtain ⟨f, hf, rfl⟩ := List.mem_map.mp he
        simp [Effect.answer, hrest f hf]
      refine ServesSlot.of_ends hcalm hgroup hends ⟨happ, haction, hdeliveries⟩ (.inl hregistry)
        (answers_between (Silent.refl w) rfl hsilent fun o ho => ?_) fun _ =>
          ⟨Effect.saga r, (told_between (Silent.refl w) rfl hsilent).1, .inl ?_⟩
      · obtain ⟨packet, hpacket, hdecode⟩ := hread result rfl
        obtain ⟨frame, hframe, hsame, hid⟩ := decodeResult_some hdecode
        have hgone : ¬ u.releaseAction.advance.slot.sentFor none := by
          rintro ⟨-, hs⟩
          rw [hends.unsent hcalm] at hs
          cases hs
        have ho : r.outcome = o := answer_saga ho
        refine ⟨none, connection, registered, packet, frame, ⟨hactive, ?_⟩, hgone, rfl, hfound, hpacket,
          hframe, ?_, ?_⟩
        · simp [Slot.sent, hgroup, hcompensating, hsent]
        · rw [← hsame, ← houtcome, ho]
        · simp only [Slot.awaitedFor, hcompensating, if_true, ← hid, hrequest]
      · rcases htyped with hsuccess | herror
        · simp [Effect.answer, hkind, hsuccess]
        · simp [Effect.answer, hkind, houtcome, herror]

theorem SlotReceived.serves {received : Received} (hcalm : w.slot.Calm)
    (hgroup : w.slot.group = none) (hactive : w.slot.active = true)
    (h : SlotReceived image received w w') : ServesSlot received w w' := by
  cases h with
  | same => exact ⟨Serves.refl _ hcalm, fun hsent => ⟨.inl hsent, rfl⟩⟩
  | lost plain missing lost => exact loseExecution_serves hcalm hgroup plain lost
  | compensationLost compensating missing lost =>
      obtain ⟨driver, log, hmark, rfl⟩ := loseCompensation_ok lost
      exact giveUp_serves hcalm hgroup compensating hmark rfl (.inl rfl) rfl
  | refused plain refused =>
      have hrefused : (w.setExecution w.slot.execution).refuseExecution image = some (.ok, w') :=
        refused
      exact refuseExecution_serves hcalm hgroup plain hrefused
  | unanswered plain rejected failed refused =>
      exact refuseExecution_serves hcalm hgroup plain refused
  | accepted plain found read decoded accepted recorded =>
      exact recordResult_serves hcalm hgroup plain hactive found read decoded accepted recorded
  | compensation compensating found read settled =>
      exact settled.serves hcalm hgroup compensating found hactive read

end AtSlot

/-! ## The loop -/

namespace Loop

open Slot (Stays Holds Calm)

variable {image : Image} {bound : Nat} {loop loop' : Loop}

theorem sentAt_iff {item : PollItem} :
    loop.sentAt item = true ↔ (loop.slots item.slot).sentFor item.flow := by
  obtain ⟨i, flow⟩ := item
  cases flow with
  | none => simp [sentAt, inState, Slot.sentFor]
  | some k =>
      cases hgroup : (loop.slots i).group with
      | none => simp [sentAt, inState, flowAt, Slot.sentFor, hgroup]
      | some group =>
          simp [sentAt, inState, flowAt, Slot.sentFor, hgroup, GroupExecution.Sent]

theorem preparedAt_iff {item : PollItem} :
    loop.preparedAt item = true ↔ (loop.slots item.slot).preparedFor item.flow := by
  obtain ⟨i, flow⟩ := item
  cases flow with
  | none => simp [preparedAt, inState, Slot.preparedFor]
  | some k =>
      cases hgroup : (loop.slots i).group with
      | none => simp [preparedAt, inState, flowAt, Slot.preparedFor, hgroup]
      | some group => simp [preparedAt, inState, flowAt, Slot.preparedFor, hgroup]

theorem ownsAt_iff {item : PollItem} :
    loop.ownsAt item = true ↔ (loop.slots item.slot).ownsFor item.flow := by
  obtain ⟨i, flow⟩ := item
  cases flow <;> simp [ownsAt, Slot.ownsFor]

theorem actionAt_eq (loop : Loop) (item : PollItem) :
    loop.actionAt item = (loop.slots item.slot).actionFor item.flow := by
  obtain ⟨i, flow⟩ := item
  cases flow <;> rfl

theorem serveFlow_serves {event : Event} {i : FlowIndex} {w w' : AtSlot} (hcalm : w.slot.Calm)
    (hactive : w.slot.active = true) (h : serveFlow image bound event i w = some (.ok, w')) :
    AtSlot.Serves event.received (some i) w w' := by
  unfold serveFlow at h
  cases hgroup : w.slot.group with
  | none => rw [hgroup] at h; cases h; exact AtSlot.Serves.refl _ hcalm
  | some group =>
      rw [hgroup] at h
      simp only at h
      split at h
      · rename_i hprepared
        exact (AtSlot.sendGroupInvocation_ok h).serves hcalm hgroup hprepared.2
      split at h
      · rename_i hsent
        refine (AtSlot.receiveGroupResult_ok h).serves hcalm hactive hgroup ?_
        rw [hsent.2]
        decide
      split at h
      · split at h
        · rename_i hprepared
          exact (AtSlot.sendGroupInvocation_ok h).serves hcalm hgroup hprepared
        · rename_i hunprepared
          exact (AtSlot.receiveGroupResult_ok h).serves hcalm hactive hgroup hunprepared
      · cases h; exact AtSlot.Serves.refl _ hcalm

theorem serveSlot_serves {event : Event} {w w' : AtSlot} (hcalm : w.slot.Calm)
    (hgroup : w.slot.group = none) (hactive : w.slot.active = true)
    (h : serveSlot image event w = some (.ok, w')) : AtSlot.ServesSlot event.received w w' := by
  unfold serveSlot at h
  split at h
  · rename_i hprepared
    exact (AtSlot.sendInvocation_ok h).serves hcalm hgroup hprepared.2
  split at h
  · exact (AtSlot.receiveResult_ok h).serves hcalm hgroup hactive
  split at h
  · split at h
    · rename_i hprepared
      exact (AtSlot.sendInvocation_ok h).serves hcalm hgroup hprepared
    · exact (AtSlot.receiveResult_ok h).serves hcalm hgroup hactive
  · cases h
    exact ⟨AtSlot.Serves.refl _ hcalm, fun hsent => ⟨.inl hsent, rfl⟩⟩

end Loop

end Hermas.Daemon
