import Hermas.Daemon.Run
import Hermas.Runtime.GroupRun

/-!
# What the calls on a slot leave behind

One inversion lemma for each function that serves a slot: what the loop looks like
behind a call that succeeds. A call that fails ends the daemon, so nothing needs to
be known of it.
-/

namespace Hermas

/-- What a sequence left behind, its first part left behind before. -/
theorem Call.andThen_done_ok {σ : Type} {c : Call Daemon.LoopResult σ} {f : σ → σ} {s : σ}
    (h : c.andThen (fun t => Call.done (f t)) = some (.ok, s)) :
    ∃ t, c = some (.ok, t) ∧ s = f t := by
  obtain ⟨t, hc, ht⟩ := Call.andThen_ok h
  exact ⟨t, hc, (Prod.mk.inj (Option.some.inj ht)).2.symm⟩

namespace Daemon

namespace AtSlot

/-- A journal record that became durable. -/
def recorded (w : AtSlot) (journal : Journal.Writer) (record : Journal.Record) : AtSlot :=
  { w with
    journal
    history := w.history ++ [Effect.journal { record with sequence := w.journal.nextSequence }] }

@[simp] theorem recorded_slot (w : AtSlot) (journal record) :
    (w.recorded journal record).slot = w.slot := rfl

@[simp] theorem recorded_registry (w : AtSlot) (journal record) :
    (w.recorded journal record).registry = w.registry := rfl

@[simp] theorem setSlot_slot (w : AtSlot) (f : Slot → Slot) : (w.setSlot f).slot = f w.slot := rfl

@[simp] theorem setSlot_registry (w : AtSlot) (f : Slot → Slot) :
    (w.setSlot f).registry = w.registry := rfl

@[simp] theorem dropAction_slot (w : AtSlot) (appId actionId : UInt16) :
    (w.dropAction appId actionId).slot = w.slot := rfl

@[simp] theorem invoked_slot (w : AtSlot) (connection : Nat) (packet : Bytes) :
    (w.invoked connection packet).slot = w.slot := rfl

@[simp] theorem invoked_registry (w : AtSlot) (connection : Nat) (packet : Bytes) :
    (w.invoked connection packet).registry = w.registry := rfl

@[simp] theorem advance_slot (w : AtSlot) : w.advance.slot = w.slot := rfl

@[simp] theorem advance_registry (w : AtSlot) : w.advance.registry = w.registry := rfl

variable {image : Image} {bound : Nat} {w w' : AtSlot} {i : FlowIndex}

/-! ## Records -/

theorem journalRecord_ok {record : Journal.Record}
    (h : w.journalRecord record = some (.ok, w')) :
    ∃ journal, w.journal.append record = .ok journal ∧ w' = w.recorded journal record := by
  unfold journalRecord at h
  cases happend : w.journal.append record with
  | error e => rw [happend] at h; cases h
  | ok journal => rw [happend] at h; cases h; exact ⟨journal, rfl, rfl⟩

/-- The record of the end of the slot's execution. -/
def finishedRecord (w : AtSlot) (outcome : Outcome) : Journal.Record where
  kind := .executionFinished
  outcome
  executionId := w.slot.executionId
  workflowId := w.workflowId
  imageFingerprint := w.imageFingerprint

/-- Behind `append_finished_if_complete` an execution that is complete has its record. -/
theorem appendFinishedIfComplete_ok (h : w.appendFinishedIfComplete = some (.ok, w')) :
    ((w.slot.complete = false ∨ w.slot.journalFinished = true) ∧ w' = w) ∨
      (w.slot.complete = true ∧ w.slot.journalFinished = false ∧
        ∃ final journal, w.finalResult = .ok final ∧
          w.journal.append (w.finishedRecord final.outcome) = .ok journal ∧
          w' = (w.recorded journal (w.finishedRecord final.outcome)).setSlot fun slot =>
            { slot with journalFinished := true }) := by
  unfold appendFinishedIfComplete at h
  simp only at h
  split at h
  · rename_i hopen
    cases h
    simp only [Bool.not_eq_true] at hopen
    exact .inl ⟨hopen, rfl⟩
  rename_i hopen
  simp only [not_or, Bool.not_eq_true, Bool.not_eq_false] at hopen
  refine .inr ⟨hopen.1, hopen.2, ?_⟩
  have hfinish : ∀ outcome, (∃ final, w.finalResult = .ok final ∧ final.outcome = outcome) →
      ((w.appendRecord .executionFinished outcome false).andThen fun w =>
        Call.done (w.setSlot fun slot => { slot with journalFinished := true })) =
          some (.ok, w') →
      ∃ final journal, w.finalResult = .ok final ∧
        w.journal.append (w.finishedRecord final.outcome) = .ok journal ∧
        w' = (w.recorded journal (w.finishedRecord final.outcome)).setSlot fun slot =>
          { slot with journalFinished := true } := by
    rintro outcome ⟨final, hfinal, rfl⟩ h
    obtain ⟨w₁, h₁, rfl⟩ := Call.andThen_done_ok h
    obtain ⟨journal, happend, rfl⟩ := journalRecord_ok h₁
    exact ⟨final, journal, hfinal, happend, rfl⟩
  cases hgroup : w.slot.group with
  | none =>
      rw [hgroup] at h
      have hstate : w.slot.execution.state = .complete := by
        have hcomplete := hopen.1
        simpa [Slot.complete, hgroup] using hcomplete
      refine hfinish _ ?_ h
      unfold finalResult
      rw [hgroup]
      simp only [Execution.getResult, hstate, ne_eq, not_true, if_false]
      exact ⟨_, rfl, rfl⟩
  | some group =>
      rw [hgroup] at h
      simp only at h
      cases hresult : group.getResult with
      | error e => rw [hresult] at h; cases h
      | ok final =>
          rw [hresult] at h
          refine hfinish _ ⟨final, ?_, rfl⟩ h
          unfold finalResult
          rw [hgroup]
          exact hresult

/-- The record of the typed result of the slot's execution. -/
def resultRecord (w : AtSlot) (final : Frame) : ResultStore.Record where
  sequence := w.results.nextSequence
  key := {
    executionId := w.slot.executionId
    workflowId := w.workflowId
    imageFingerprint := w.imageFingerprint }
  outcome := final.outcome
  sourceType := final.sourceType
  destinationType := final.destinationType
  value := final.payload

/-- Behind `append_result_if_complete` a typed result is in the store. -/
theorem appendResultIfComplete_ok (h : w.appendResultIfComplete = some (.ok, w')) :
    ((w.slot.complete = false ∨ w.slot.resultStored = true ∨
        ∃ final, w.finalResult = .ok final ∧ Execution.typedOutcome final.outcome = false) ∧
      w' = w) ∨
      (w.slot.complete = true ∧ w.slot.resultStored = false ∧
        ∃ final results, w.finalResult = .ok final ∧
          Execution.typedOutcome final.outcome = true ∧
          w.results.append (w.resultRecord final) scratchCapacity = .ok results ∧
          w' = ({ w with
            results, history := w.history ++ [Effect.result (w.resultRecord final)] } :
              AtSlot).setSlot fun slot => { slot with resultStored := true }) := by
  unfold appendResultIfComplete at h
  split at h
  · rename_i hopen
    cases h
    simp only [Bool.not_eq_true] at hopen
    exact .inl ⟨hopen.imp id .inl, rfl⟩
  rename_i hopen
  simp only [not_or, Bool.not_eq_true, Bool.not_eq_false] at hopen
  cases hfinal : w.finalResult with
  | error e => rw [hfinal] at h; cases h
  | ok final =>
      rw [hfinal] at h
      simp only at h
      split at h
      · rename_i htyped
        cases h
        exact .inl ⟨.inr (.inr ⟨final, rfl, by simpa using htyped⟩), rfl⟩
      rename_i htyped
      split at h
      · cases h
      rename_i results happend
      cases h
      exact .inr ⟨hopen.1, hopen.2, final, results, rfl, not_not.mp htyped, happend, rfl⟩

/-- What the records of an end change: the journal, the store, and the marks of the slot. -/
structure Marked (w w' : AtSlot) : Prop where
  slot : ∃ finished stored, w'.slot =
    { w.slot with journalFinished := finished, resultStored := stored }
  registry : w'.registry = w.registry
  compensation : w'.compensation = w.compensation
  sagaLog : w'.sagaLog = w.sagaLog
  history : ∃ effects, w'.history = w.history ++ effects

theorem Marked.refl (w : AtSlot) : Marked w w := ⟨⟨_, _, rfl⟩, rfl, rfl, rfl, [], by simp⟩

theorem Marked.trans {u : AtSlot} (h : Marked w u) (h' : Marked u w') : Marked w w' := by
  obtain ⟨a, b, hslot⟩ := h.slot
  obtain ⟨a', b', hslot'⟩ := h'.slot
  obtain ⟨xs, hxs⟩ := h.history
  obtain ⟨ys, hys⟩ := h'.history
  exact ⟨⟨a', b', by rw [hslot', hslot]⟩, h'.registry.trans h.registry,
    h'.compensation.trans h.compensation, h'.sagaLog.trans h.sagaLog, xs ++ ys,
    by rw [hys, hxs, List.append_assoc]⟩

theorem appendFinished_marked (h : w.appendFinishedIfComplete = some (.ok, w')) :
    Marked w w' := by
  rcases appendFinishedIfComplete_ok h with ⟨-, rfl⟩ | ⟨-, -, final, journal, -, -, rfl⟩
  · exact Marked.refl w'
  · exact ⟨⟨true, w.slot.resultStored, rfl⟩, rfl, rfl, rfl, _, rfl⟩

theorem appendResult_marked (h : w.appendResultIfComplete = some (.ok, w')) : Marked w w' := by
  rcases appendResultIfComplete_ok h with ⟨-, rfl⟩ | ⟨-, -, final, results, -, -, -, rfl⟩
  · exact Marked.refl w'
  · exact ⟨⟨w.slot.journalFinished, true, rfl⟩, rfl, rfl, rfl, _, rfl⟩

theorem finishGroupTransition_marked (h : w.finishGroupTransition = some (.ok, w')) :
    Marked w w' := by
  obtain ⟨u, h₁, h₂⟩ := Call.andThen_ok h
  exact (appendResult_marked h₁).trans (appendFinished_marked h₂)

/-! ## Flows of a group -/

theorem runGroup_ok {call : Call RuntimeResult GroupExecution}
    {next : RuntimeResult → AtSlot → Call LoopResult AtSlot}
    (h : w.runGroup call next = some (.ok, w')) :
    ∃ result group, call = some (result, group) ∧
      next result (w.setGroup group) = some (.ok, w') := by
  cases hcall : call with
  | none => rw [hcall] at h; cases h
  | some p => rw [hcall] at h; exact ⟨p.1, p.2, rfl, h⟩

/-- A call of the interpreter that has to succeed. -/
theorem runGroup_must {call : Call RuntimeResult GroupExecution}
    {next : AtSlot → Call LoopResult AtSlot}
    (h : (w.runGroup call fun result w =>
      if result ≠ .ok then Call.report .runtimeError w else next w) = some (.ok, w')) :
    ∃ group, call = some (.ok, group) ∧ next (w.setGroup group) = some (.ok, w') := by
  obtain ⟨result, group, hcall, hnext⟩ := runGroup_ok h
  split at hnext
  · cases hnext
  · rename_i hok
    rw [not_not.mp hok] at hcall
    exact ⟨group, hcall, hnext⟩

/-- A delivery that was given its action loses it. -/
def disown (w : AtSlot) (i : FlowIndex) : AtSlot :=
  w.setDelivery i fun delivery => { delivery with ownsAction := false }

@[simp] theorem disown_registry (w : AtSlot) (i : FlowIndex) :
    (w.disown i).registry = w.registry := rfl

/-- The record of a delivery of a grouped slot. -/
def deliveryRecord (w : AtSlot) (i : FlowIndex) (kind : Journal.Kind) (outcome : Outcome) :
    Journal.Record where
  kind
  outcome
  executionId := w.slot.executionId
  workflowId := w.workflowId
  requestId := (w.slot.groupDeliveries i).requestId
  nodeId := (w.slot.groupDeliveries i).nodeId
  appId := (w.slot.groupDeliveries i).appId
  actionId := (w.slot.groupDeliveries i).actionId
  imageFingerprint := w.imageFingerprint

theorem appendGroupRecord_ok {kind : Journal.Kind} {outcome : Outcome}
    (h : w.appendGroupRecord i kind outcome = some (.ok, w')) :
    ∃ journal, w.journal.append (w.deliveryRecord i kind outcome) = .ok journal ∧
      w' = w.recorded journal (w.deliveryRecord i kind outcome) := journalRecord_ok h

/-- The record of the delivery of a sequential slot. -/
def actionRecord (w : AtSlot) (kind : Journal.Kind) (outcome : Outcome) : Journal.Record where
  kind
  outcome
  executionId := w.slot.executionId
  workflowId := w.workflowId
  requestId := w.slot.requestId
  nodeId := w.slot.nodeId
  appId := w.slot.appId
  actionId := w.slot.actionId
  imageFingerprint := w.imageFingerprint

theorem appendRecord_ok {kind : Journal.Kind} {outcome : Outcome}
    (h : w.appendRecord kind outcome true = some (.ok, w')) :
    ∃ journal, w.journal.append (w.actionRecord kind outcome) = .ok journal ∧
      w' = w.recorded journal (w.actionRecord kind outcome) := journalRecord_ok h

/-- One flow in `prepare_ready`: a flow that is ready is prepared, and its delivery is new. -/
theorem prepareFlow_ok (h : w.prepareFlow image i = some (.ok, w')) :
    w' = w ∨ ∃ group invocation group' journal, w.slot.group = some group ∧
      group.prepare image i = .ok (invocation, group') ∧
      w' = (((w.setGroup group').setDelivery i fun _ =>
        { requestId := invocation.requestId
          nodeId := (group.flows i).currentNode
          appId := invocation.appId
          actionId := invocation.actionId }).recorded journal
        (((w.setGroup group').setDelivery i fun _ =>
          { requestId := invocation.requestId
            nodeId := (group.flows i).currentNode
            appId := invocation.appId
            actionId := invocation.actionId }).deliveryRecord i .deliveryPrepared .none)).advance := by
  unfold prepareFlow at h
  cases hgroup : w.slot.group with
  | none => rw [hgroup] at h; cases h; exact .inl rfl
  | some group =>
      rw [hgroup] at h
      simp only at h
      split at h
      · cases h; exact .inl rfl
      split at h
      · cases h; exact .inl rfl
      · cases h
      rename_i invocation group' hprepare
      obtain ⟨u, hu, rfl⟩ := Call.andThen_done_ok h
      obtain ⟨journal, -, rfl⟩ := appendGroupRecord_ok hu
      exact .inr ⟨group, invocation, group', journal, rfl, hprepare, rfl⟩

/-- A delivery of a grouped slot is closed: the interpreter moved on, the delivery gave its action
back, possibly with the connection of the action, and one record was made. -/
structure FlowCloses (w : AtSlot) (i : FlowIndex) (group' : GroupExecution)
    (record : Journal.Record) (v : AtSlot) : Prop where
  slot : v.slot = { w.slot with
    group := some group'
    groupDeliveries := Function.update w.slot.groupDeliveries i
      { w.slot.groupDeliveries i with ownsAction := false } }
  registry : v.registry = w.registry ∨ v.registry = w.registry.dropAction
    (w.slot.groupDeliveries i).appId (w.slot.groupDeliveries i).actionId
  journal : w.journal.append record = .ok v.journal
  history : v.history =
    w.history ++ [Effect.journal { record with sequence := w.journal.nextSequence }]
  results : v.results = w.results
  workflowId : v.workflowId = w.workflowId
  imageFingerprint : v.imageFingerprint = w.imageFingerprint

/-- Behind a delivery that is closed come the records of an end, if this was the end. -/
def FlowEnds (w : AtSlot) (i : FlowIndex) (group' : GroupExecution) (record : Journal.Record)
    (w' : AtSlot) : Prop :=
  ∃ v u, FlowCloses w i group' record v ∧ v.finishGroupTransition = some (.ok, u) ∧
    w' = u.advance

theorem settleFlow_ok (h : w.settleFlow i = some (.ok, w')) :
    ∃ u, (w.disown i).finishGroupTransition = some (.ok, u) ∧ w' = u.advance :=
  Call.andThen_done_ok h

/-- A delivery that is given up is recorded as unknown, and its flow ends. -/
theorem loseFlow_ok {group : GroupExecution} (hgroup : w.slot.group = some group)
    (h : w.loseFlow image bound i = some (.ok, w')) :
    ∃ group', group.markUnknown image bound i = some (.ok, group') ∧
      FlowEnds w i group' (w.deliveryRecord i .actionUnknown .unknown) w' := by
  unfold loseFlow at h
  rw [hgroup] at h
  obtain ⟨u, hu, h⟩ := Call.andThen_ok h
  obtain ⟨journal, happend, rfl⟩ := appendGroupRecord_ok hu
  obtain ⟨group', hmark, h⟩ := runGroup_must h
  obtain ⟨v, hv, rfl⟩ := settleFlow_ok h
  exact ⟨group', hmark, ((w.recorded journal _).setGroup group').disown i, v,
    ⟨rfl, .inl rfl, happend, rfl, rfl, rfl, rfl⟩, hv, rfl⟩

/-- One flow in `reconcile_missing_actions`: an action without a connection is given back, and a
delivery that was sent is given up. -/
theorem reconcileFlow_ok (h : w.reconcileFlow image bound i = some (.ok, w')) :
    (w' = w ∧ ¬ (w.slot.group.isSome = true ∧ (w.slot.groupDeliveries i).ownsAction = true ∧
        w.registry.findAction (w.slot.groupDeliveries i).appId
          (w.slot.groupDeliveries i).actionId = none)) ∨
      ((w.slot.groupDeliveries i).ownsAction = true ∧ w'.registry = w.registry ∧
      w.registry.findAction (w.slot.groupDeliveries i).appId
        (w.slot.groupDeliveries i).actionId = none ∧
      ∃ group, w.slot.group = some group ∧
        ((¬ group.Sent i ∧ w' = w.disown i) ∨
          ∃ group', group.Sent i ∧ group.markUnknown image bound i = some (.ok, group') ∧
            FlowEnds w i group' (w.deliveryRecord i .actionUnknown .unknown) w')) := by
  unfold reconcileFlow at h
  cases hgroup : w.slot.group with
  | none => rw [hgroup] at h; cases h; exact .inl ⟨rfl, by simp⟩
  | some group =>
      rw [hgroup] at h
      simp only at h
      split at h
      · rename_i hkept
        cases h
        refine .inl ⟨rfl, ?_⟩
        rintro ⟨-, howns, hmissing⟩
        rcases hkept with hkept | hkept
        · exact hkept howns
        · rw [hmissing] at hkept
          cases hkept
      rename_i hopen
      simp only [not_or, Bool.not_eq_true, Bool.not_eq_false, Option.isSome_eq_false_iff,
        Option.isNone_iff_eq_none] at hopen
      split at h
      · rename_i hsent
        obtain ⟨u, hu, h⟩ := Call.andThen_ok h
        obtain ⟨journal, happend, rfl⟩ := appendGroupRecord_ok hu
        obtain ⟨group', hmark, h⟩ := runGroup_must h
        obtain ⟨v, hv, rfl⟩ := Call.andThen_done_ok h
        refine .inr ⟨hopen.1, (finishGroupTransition_marked hv).registry, hopen.2, group, rfl, ?_⟩
        have hrecord : (w.disown i).deliveryRecord i .actionUnknown .unknown =
            w.deliveryRecord i .actionUnknown .unknown := by
          simp only [deliveryRecord, disown, setDelivery, setSlot, Function.update_self]
          rfl
        refine .inr ⟨group', hsent, hmark, ?_⟩
        rw [← hrecord]
        exact ⟨((w.disown i).recorded journal _).setGroup group', v,
          ⟨rfl, .inl rfl, happend, rfl, rfl, rfl, rfl⟩, hv, rfl⟩
      · rename_i hsent
        cases h
        exact .inr ⟨hopen.1, rfl, hopen.2, group, rfl, .inl ⟨hsent, rfl⟩⟩

/-- What sending the invocation of a flow comes to. -/
inductive FlowSent (image : Image) (bound : Nat) (w : AtSlot) (i : FlowIndex) : AtSlot → Prop
  | same : FlowSent image bound w i w
  | disowned (missing : w.registry.findAction (w.slot.groupDeliveries i).appId
      (w.slot.groupDeliveries i).actionId = none) : FlowSent image bound w i (w.disown i)
  | sent {group group' : GroupExecution} {connection : Nat} {registered : UInt16}
      {packet : Bytes} {journal : Journal.Writer} (grouped : w.slot.group = some group)
      (found : w.registry.findAction (w.slot.groupDeliveries i).appId
        (w.slot.groupDeliveries i).actionId = some (connection, registered))
      (marked : group.markSent i = .ok group') :
      FlowSent image bound w i ((((w.invoked connection packet).recorded journal
        (w.deliveryRecord i .deliverySent .none)).setGroup group').advance)
  | failed {group group' : GroupExecution} {w' : AtSlot} (grouped : w.slot.group = some group)
      (marked : group.markNotSent image bound i = some (.ok, group'))
      (ends : FlowEnds w i group' (w.deliveryRecord i .actionFailed .notSent) w') :
      FlowSent image bound w i w'

theorem sendGroupInvocation_ok {outcome : SendOutcome}
    (h : w.sendGroupInvocation image bound outcome i = some (.ok, w')) :
    FlowSent image bound w i w' := by
  unfold sendGroupInvocation at h
  cases hgroup : w.slot.group with
  | none => rw [hgroup] at h; cases h; exact .same
  | some group =>
      rw [hgroup] at h
      simp only at h
      cases hfind : w.registry.findAction (w.slot.groupDeliveries i).appId
          (w.slot.groupDeliveries i).actionId with
      | none => rw [hfind] at h; cases h; exact .disowned hfind
      | some found =>
          obtain ⟨connection, registered⟩ := found
          rw [hfind] at h
          simp only at h
          split at h
          · cases h
          rename_i packet _
          cases outcome with
          | wouldBlock => cases h; exact .same
          | sent =>
              obtain ⟨u, hu, h⟩ := Call.andThen_ok h
              obtain ⟨journal, -, rfl⟩ := appendGroupRecord_ok hu
              split at h
              · cases h
              rename_i group' hmark
              cases h
              exact .sent hgroup hfind hmark
          | failed =>
              obtain ⟨u, hu, h⟩ := Call.andThen_ok h
              obtain ⟨journal, happend, rfl⟩ := appendGroupRecord_ok hu
              obtain ⟨group', hmark, h⟩ := runGroup_must h
              obtain ⟨v, hv, rfl⟩ := Call.andThen_done_ok h
              exact .failed hgroup hmark
                ⟨(((w.recorded journal _).setGroup group').disown i).dropAction _ _, v,
                  ⟨rfl, .inr rfl, happend, rfl, rfl, rfl, rfl⟩, hv, rfl⟩

/-- A delivery that is refused ends as unknown, from what the interpreter last was. -/
theorem refuseFlow_ok {group : GroupExecution} (hgroup : w.slot.group = some group)
    (h : w.refuseFlow image bound i = some (.ok, w')) :
    ∃ group', group.markUnknown image bound i = some (.ok, group') ∧
      FlowEnds w i group' (w.deliveryRecord i .actionUnknown .unknown) w' := by
  unfold refuseFlow at h
  rw [hgroup] at h
  simp only at h
  split at h
  · cases h
  · rename_i u hu
    obtain ⟨journal, happend, rfl⟩ := appendGroupRecord_ok hu
    obtain ⟨group', hmark, h⟩ := runGroup_must h
    obtain ⟨v, hv, rfl⟩ := settleFlow_ok h
    exact ⟨group', hmark, (((w.recorded journal _).setGroup group').dropAction _ _).disown i, v,
      ⟨rfl, .inr rfl, happend, rfl, rfl, rfl, rfl⟩, hv, rfl⟩
  · rename_i hfailed _
    cases h
    exact absurd rfl hfailed

/-- What receiving a result for a flow comes to. The delivery that is closed is the one that the
packet answers, which may be another one of the same action. -/
inductive FlowReceived (image : Image) (bound : Nat) (received : Received) (w : AtSlot)
    (i : FlowIndex) : AtSlot → Prop
  | same : FlowReceived image bound received w i w
  | lost {group group' : GroupExecution} {w' : AtSlot} (grouped : w.slot.group = some group)
      (missing : w.registry.findAction (w.slot.groupDeliveries i).appId
        (w.slot.groupDeliveries i).actionId = none)
      (marked : group.markUnknown image bound i = some (.ok, group'))
      (ends : FlowEnds w i group' (w.deliveryRecord i .actionUnknown .unknown) w') :
      FlowReceived image bound received w i w'
  | refused {group group' : GroupExecution} {w' : AtSlot} (grouped : w.slot.group = some group)
      (marked : group.markUnknown image bound i = some (.ok, group'))
      (ends : FlowEnds w i group' (w.deliveryRecord i .actionUnknown .unknown) w') :
      FlowReceived image bound received w i w'
  | unanswered {group group₁ group' : GroupExecution} {w' : AtSlot} {registered : UInt16}
      {packet : Bytes} {j : FlowIndex} {result : Frame}
      {status : RuntimeResult} (grouped : w.slot.group = some group)
      (matched : w.matchingFlow group (w.slot.groupDeliveries i) registered packet =
        some (j, result))
      (refused : group.acceptResult image bound j result = some (status, group₁))
      (failed : status ≠ .ok)
      (marked : group₁.markUnknown image bound j = some (.ok, group'))
      (ends : FlowEnds (w.setGroup group₁) j group'
        ((w.setGroup group₁).deliveryRecord j .actionUnknown .unknown) w') :
      FlowReceived image bound received w i w'
  | accepted {group group' : GroupExecution} {w' : AtSlot} {connection : Nat}
      {registered : UInt16} {packet : Bytes} {j : FlowIndex} {result : Frame}
      (grouped : w.slot.group = some group)
      (found : w.registry.findAction (w.slot.groupDeliveries i).appId
        (w.slot.groupDeliveries i).actionId = some (connection, registered))
      (read : received = .packet packet)
      (matched : w.matchingFlow group (w.slot.groupDeliveries i) registered packet =
        some (j, result))
      (accepted : group.acceptResult image bound j result = some (.ok, group'))
      (ends : FlowEnds w j group' ((w.setGroup group').deliveryRecord j
        (if result.outcome = .success then .actionSucceeded else .actionFailed)
        result.outcome) w') :
      FlowReceived image bound received w i w'

theorem receiveGroupResult_ok {received : Received}
    (h : w.receiveGroupResult image bound received i = some (.ok, w')) :
    FlowReceived image bound received w i w' := by
  unfold receiveGroupResult at h
  cases hgroup : w.slot.group with
  | none => rw [hgroup] at h; cases h; exact .same
  | some group =>
      rw [hgroup] at h
      simp only at h
      have hrefused : w.refuseFlow image bound i = some (.ok, w') →
          FlowReceived image bound received w i w' := by
        intro h
        obtain ⟨group', hmark, hends⟩ := refuseFlow_ok hgroup h
        exact .refused hgroup hmark hends
      cases hfind : w.registry.findAction (w.slot.groupDeliveries i).appId
          (w.slot.groupDeliveries i).actionId with
      | none =>
          rw [hfind] at h
          obtain ⟨group', hmark, hends⟩ := loseFlow_ok hgroup h
          exact .lost hgroup hfind hmark hends
      | some found =>
          obtain ⟨connection, registered⟩ := found
          rw [hfind] at h
          simp only at h
          cases received with
          | wouldBlock => cases h; exact .same
          | failed => exact hrefused h
          | packet packet =>
              simp only at h
              cases hmatch : w.matchingFlow group (w.slot.groupDeliveries i) registered packet with
              | none => rw [hmatch] at h; exact hrefused h
              | some answer =>
                  obtain ⟨j, result⟩ := answer
                  rw [hmatch] at h
                  obtain ⟨status, group₁, haccept, h⟩ := runGroup_ok h
                  split at h
                  · rename_i hok
                    subst hok
                    obtain ⟨u, hu, h⟩ := Call.andThen_ok h
                    obtain ⟨journal, happend, rfl⟩ := appendGroupRecord_ok hu
                    obtain ⟨v, hv, rfl⟩ := settleFlow_ok h
                    exact .accepted hgroup hfind rfl hmatch haccept
                      ⟨((w.setGroup group₁).recorded journal _).disown j, v,
                        ⟨rfl, .inl rfl, happend, rfl, rfl, rfl, rfl⟩, hv, rfl⟩
                  · rename_i hbad
                    obtain ⟨group', hmark, hends⟩ := refuseFlow_ok rfl h
                    exact .unanswered hgroup hmatch haccept hbad hmark hends

/-! ## Sequential slots -/

/-- The sequential interpreter moved on. -/
def setExecution (w : AtSlot) (execution : Execution) : AtSlot :=
  w.setSlot fun slot => { slot with execution }

@[simp] theorem setExecution_registry (w : AtSlot) (execution : Execution) :
    (w.setExecution execution).registry = w.registry := rfl

/-- A call of the sequential interpreter that has to succeed. -/
theorem runExecution_must {call : RuntimeResult × Execution}
    {next : AtSlot → Call LoopResult AtSlot}
    (h : (w.runExecution call fun result w =>
      if result ≠ .ok then Call.report .runtimeError w else next w) = some (.ok, w')) :
    ∃ execution, call = (.ok, execution) ∧ next (w.setExecution execution) = some (.ok, w') := by
  obtain ⟨result, execution⟩ := call
  unfold runExecution at h
  simp only at h
  split at h
  · cases h
  · rename_i hok
    cases not_not.mp hok
    exact ⟨execution, rfl, h⟩

/-- A call of the saga driver that has to succeed. -/
theorem driveOk_ok {call : Saga.Driver → Saga.Log.Writer → Saga.Driver.Outcome}
    (h : w.driveOk call = some (.ok, w')) :
    ∃ driver log, call w.slot.saga w.sagaLog = (.ok, driver, log) ∧ w' = w.setSaga driver log := by
  unfold driveOk drive at h
  simp only at h
  split at h
  · rename_i u hcall
    obtain ⟨hresult, rfl⟩ := Prod.mk.inj hcall
    cases h
    exact ⟨_, _, Prod.ext hresult rfl, rfl⟩
  · cases h

theorem beginLiveCompensation_ok {outcome : Outcome}
    (h : w.beginLiveCompensation image outcome = some (.ok, w')) :
    (w.slot.sagaSuccessCount = 0 ∧ w' = w) ∨
      (w.slot.sagaSuccessCount ≠ 0 ∧ w.slot.requestId ≠ uint64Max ∧
        ∃ plan driver log, Saga.beginLive image w.compensation.file w.imageFingerprint
            w.slot.execution.executionId w.workflowId outcome w.slot.sagaForwardRequests
            w.slot.sagaSuccessCount (w.slot.requestId + 1) = .ok plan ∧
          w.slot.saga.start plan w.sagaLog false = (.ok, driver, log) ∧
          w' = (w.setSaga driver log).setSlot fun slot => { slot with compensating := true }) := by
  unfold beginLiveCompensation at h
  split at h
  · rename_i hnone
    cases h
    exact .inl ⟨hnone, rfl⟩
  rename_i hsome
  split at h
  · cases h
  rename_i hlast
  split at h
  · cases h
  rename_i plan hbegin
  obtain ⟨u, hu, rfl⟩ := Call.andThen_done_ok h
  obtain ⟨driver, log, hstart, rfl⟩ := driveOk_ok hu
  exact .inr ⟨hsome, hlast, plan, driver, log, hbegin, hstart, rfl⟩

/-- The record of the token of the slot's delivery. -/
def tokenRecord (w : AtSlot) (route : SagaRoute) (token : Bytes) : Compensation.Record where
  sequence := w.compensation.nextSequence
  key := {
    executionId := w.slot.execution.executionId
    workflowId := w.workflowId
    requestId := w.slot.requestId
    nodeId := w.slot.nodeId
    imageFingerprint := w.imageFingerprint }
  compensationAppId := route.compensationApp
  compensationActionId := route.compensationAction
  sourceType := route.sourceType
  destinationType := route.destinationType
  token

theorem appendCompensationToken_ok {result : Frame}
    (h : w.appendCompensationToken image result = some (.ok, w')) :
    (findSagaRoute image w.slot.nodeId = none ∧ w' = w) ∨
      ∃ route compensation, findSagaRoute image w.slot.nodeId = some route ∧
        result.sourceType = route.sourceType ∧
        w.compensation.append (w.tokenRecord route result.payload) scratchCapacity =
          .ok compensation ∧
        route.ordinal ≠ 0 ∧ route.ordinal.toNat ≤ Saga.maxSteps ∧
        w' = ({ w with
          compensation
          history := w.history ++ [Effect.token (w.tokenRecord route result.payload)] } :
            AtSlot).setSlot fun slot => { slot with
              sagaForwardRequests := Function.update slot.sagaForwardRequests
                (Fin.ofNat Saga.maxSteps (route.ordinal.toNat - 1)) slot.requestId
              sagaSuccessCount := max slot.sagaSuccessCount route.ordinal.toNat } := by
  unfold appendCompensationToken at h
  cases hroute : findSagaRoute image w.slot.nodeId with
  | none => rw [hroute] at h; cases h; exact .inl ⟨rfl, rfl⟩
  | some route =>
      rw [hroute] at h
      simp only at h
      split at h
      · cases h
      rename_i htype
      split at h
      · cases h
      rename_i compensation happend
      split at h
      · cases h
      rename_i hordinal
      cases h
      rw [not_or, not_lt] at hordinal
      exact .inr ⟨route, compensation, rfl, not_not.mp htype, happend, hordinal.1, hordinal.2,
        rfl⟩

/-- Behind a sequential delivery that is closed: the records of an end, and the compensation that
an app error starts. -/
theorem settleExecution_ok {appError : Bool}
    (h : w.settleExecution image appError = some (.ok, w')) :
    ∃ u v x, w.releaseAction.appendResultIfComplete = some (.ok, u) ∧
      u.appendFinishedIfComplete = some (.ok, v) ∧
      (if appError then v.beginLiveCompensation image .appError else Call.done v) =
        some (.ok, x) ∧ w' = x.advance := by
  obtain ⟨v, hv, h⟩ := Call.andThen_ok h
  obtain ⟨u, hu, hv⟩ := Call.andThen_ok hv
  obtain ⟨x, hx, rfl⟩ := Call.andThen_done_ok h
  exact ⟨u, v, x, hu, hv, hx, rfl⟩

theorem loseExecution_ok (h : w.loseExecution image = some (.ok, w')) :
    ∃ journal execution u,
      w.journal.append (w.actionRecord .actionUnknown .unknown) = .ok journal ∧
      w.slot.execution.markUnknown image = (.ok, execution) ∧
      ((w.recorded journal (w.actionRecord .actionUnknown .unknown)).setExecution
        execution).releaseAction.appendFinishedIfComplete = some (.ok, u) ∧
      w' = u.advance := by
  obtain ⟨u, hu, h⟩ := Call.andThen_ok h
  obtain ⟨journal, happend, rfl⟩ := appendRecord_ok hu
  obtain ⟨execution, hmark, h⟩ := runExecution_must h
  obtain ⟨v, hv, rfl⟩ := Call.andThen_done_ok h
  exact ⟨journal, execution, v, happend, hmark, hv, rfl⟩

theorem failToSend_ok (h : w.failToSend image = some (.ok, w')) :
    ∃ journal execution u v,
      w.journal.append (w.actionRecord .actionFailed .notSent) = .ok journal ∧
      w.slot.execution.markNotSent image = (.ok, execution) ∧
      (((w.recorded journal (w.actionRecord .actionFailed .notSent)).setExecution
        execution).releaseAction.dropAction w.slot.appId
          w.slot.actionId).appendFinishedIfComplete = some (.ok, u) ∧
      u.beginLiveCompensation image .notSent = some (.ok, v) ∧ w' = v.advance := by
  obtain ⟨u, hu, h⟩ := Call.andThen_ok h
  obtain ⟨journal, happend, rfl⟩ := appendRecord_ok hu
  obtain ⟨execution, hmark, h⟩ := runExecution_must h
  obtain ⟨v, hv, rfl⟩ := Call.andThen_done_ok h
  obtain ⟨t, ht, hv⟩ := Call.andThen_ok hv
  exact ⟨journal, execution, t, v, happend, hmark, ht, hv, rfl⟩

theorem refuseExecution_ok (h : w.refuseExecution image = some (.ok, w')) :
    ∃ journal execution,
      w.journal.append (w.actionRecord .actionUnknown .unknown) = .ok journal ∧
      w.slot.execution.markUnknown image = (.ok, execution) ∧
      (((w.recorded journal (w.actionRecord .actionUnknown .unknown)).setExecution
        execution).dropAction w.slot.appId w.slot.actionId).settleExecution image false =
        some (.ok, w') := by
  obtain ⟨u, hu, h⟩ := Call.andThen_ok h
  obtain ⟨journal, happend, rfl⟩ := appendRecord_ok hu
  obtain ⟨execution, hmark, h⟩ := runExecution_must h
  exact ⟨journal, execution, happend, hmark, h⟩

/-- The record of a result that was accepted. -/
def answerRecord (w : AtSlot) (result : Frame) : Journal.Record :=
  w.actionRecord (if result.outcome = .success then .actionSucceeded else .actionFailed)
    result.outcome

theorem recordResult_ok {result : Frame} (h : w.recordResult image result = some (.ok, w')) :
    ∃ t journal,
      (if result.outcome = .success then w.appendCompensationToken image result
        else Call.done w) = some (.ok, t) ∧
      t.journal.append (t.answerRecord result) = .ok journal ∧
      (t.recorded journal (t.answerRecord result)).settleExecution image
        (result.outcome == .appError) = some (.ok, w') := by
  obtain ⟨t, ht, h⟩ := Call.andThen_ok h
  obtain ⟨u, hu, h⟩ := Call.andThen_ok h
  obtain ⟨journal, happend, rfl⟩ := appendRecord_ok hu
  exact ⟨t, journal, ht, happend, h⟩

/-- What sending the packet of a sequential slot comes to. -/
inductive SlotSent (image : Image) (w : AtSlot) : AtSlot → Prop
  | released (missing : w.registry.findAction w.slot.appId w.slot.actionId = none) :
      SlotSent image w w.releaseAction
  | waits (registered : UInt16) : SlotSent image w (w.setSlot fun slot =>
      { slot with packet := patchActionId slot.packet registered })
  | sent {connection : Nat} {registered : UInt16} {journal : Journal.Writer}
      {execution : Execution} (plain : w.slot.compensating = false)
      (found : w.registry.findAction w.slot.appId w.slot.actionId =
        some (connection, registered))
      (marked : w.slot.execution.markSent = .ok execution) :
      SlotSent image w (((((w.setSlot fun slot =>
        { slot with packet := patchActionId slot.packet registered }).invoked connection
          (patchActionId w.slot.packet registered)).recorded journal
            (w.actionRecord .deliverySent .none)).setExecution execution).advance)
  | compensationSent {connection : Nat} {registered : UInt16} {driver : Saga.Driver}
      {log : Saga.Log.Writer} (compensating : w.slot.compensating = true)
      (found : w.registry.findAction w.slot.appId w.slot.actionId =
        some (connection, registered))
      (marked : w.slot.saga.markSent w.sagaLog = (.ok, driver, log)) :
      SlotSent image w ((((w.setSlot fun slot =>
        { slot with packet := patchActionId slot.packet registered }).invoked connection
          (patchActionId w.slot.packet registered)).setSaga driver log).advance)
  | failed {registered : UInt16} {w' : AtSlot} (plain : w.slot.compensating = false)
      (failed : (w.setSlot fun slot =>
        { slot with packet := patchActionId slot.packet registered }).failToSend image =
          some (.ok, w')) : SlotSent image w w'
  | compensationFailed {registered : UInt16} {w' : AtSlot}
      (compensating : w.slot.compensating = true)
      (failed : (w.setSlot fun slot =>
        { slot with packet := patchActionId slot.packet registered }).failToSendCompensation =
          some (.ok, w')) : SlotSent image w w'

theorem sendInvocation_ok {outcome : SendOutcome}
    (h : w.sendInvocation image outcome = some (.ok, w')) : SlotSent image w w' := by
  unfold sendInvocation at h
  cases hfind : w.registry.findAction w.slot.appId w.slot.actionId with
  | none => rw [hfind] at h; cases h; exact .released hfind
  | some found =>
      obtain ⟨connection, registered⟩ := found
      rw [hfind] at h
      simp only at h
      cases outcome with
      | wouldBlock => cases h; exact .waits registered
      | sent =>
          simp only at h
          split at h
          · rename_i hcompensating
            obtain ⟨u, hu, rfl⟩ := Call.andThen_done_ok h
            obtain ⟨driver, log, hmark, rfl⟩ := driveOk_ok hu
            exact .compensationSent hcompensating hfind hmark
          · rename_i hplain
            obtain ⟨u, hu, h⟩ := Call.andThen_ok h
            obtain ⟨journal, -, rfl⟩ := appendRecord_ok hu
            split at h
            · cases h
            rename_i execution hmark
            cases h
            exact .sent (Bool.eq_false_iff.mpr hplain) hfind hmark
      | failed =>
          simp only at h
          split at h
          · rename_i hcompensating
            exact .compensationFailed hcompensating h
          · rename_i hplain
            exact .failed (Bool.eq_false_iff.mpr hplain) h

theorem loseCompensation_ok (h : w.loseCompensation = some (.ok, w')) :
    ∃ driver log, w.slot.saga.markUnknown w.sagaLog = (.ok, driver, log) ∧
      w' = ((w.setSaga driver log).releaseAction.failCompensation .unknown).advance := by
  obtain ⟨u, hu, rfl⟩ := Call.andThen_done_ok h
  obtain ⟨driver, log, hmark, rfl⟩ := driveOk_ok hu
  exact ⟨driver, log, hmark, rfl⟩

theorem failToSendCompensation_ok (h : w.failToSendCompensation = some (.ok, w')) :
    ∃ driver log, w.slot.saga.markNotSent w.sagaLog = (.ok, driver, log) ∧
      w' = (((w.setSaga driver log).releaseAction.dropAction w.slot.appId
        w.slot.actionId).failCompensation .notSent).advance := by
  obtain ⟨u, hu, rfl⟩ := Call.andThen_done_ok h
  obtain ⟨driver, log, hmark, rfl⟩ := driveOk_ok hu
  exact ⟨driver, log, hmark, rfl⟩

/-- A compensation that is given up with its connection. -/
def RefusedCompensation (w w' : AtSlot) : Prop :=
  ∃ driver log, w.slot.saga.markUnknown w.sagaLog = (.ok, driver, log) ∧
    w' = ((((w.setSaga driver log).dropAction w.slot.appId w.slot.actionId).failCompensation
      .unknown).releaseAction).advance

/-- What the result of a compensation comes to. -/
inductive CompensationReceived (image : Image) (w : AtSlot) : Option Frame → AtSlot → Prop
  | refused {w' : AtSlot} (refused : RefusedCompensation w w') :
      CompensationReceived image w none w'
  | unanswered {result : Frame} {status : Saga.Result} {driver : Saga.Driver}
      {log : Saga.Log.Writer} {w' : AtSlot}
      (failed : w.slot.saga.acceptResult image w.sagaLog result = (status, driver, log))
      (refused : RefusedCompensation (w.setSaga driver log) w') :
      CompensationReceived image w (some result) w'
  | accepted {result : Frame} {driver : Saga.Driver} {log : Saga.Log.Writer} {u : AtSlot}
      (accepted : w.slot.saga.acceptResult image w.sagaLog result = (.ok, driver, log))
      (settled : (driver.execution.state = .complete ∧
          u = (w.setSaga driver log).setSlot fun slot => { slot with compensating := false }) ∨
        (driver.execution.state = .blocked ∧
          u = (w.setSaga driver log).failCompensation driver.execution.compensationOutcome) ∨
        (driver.execution.state ≠ .complete ∧ driver.execution.state ≠ .blocked ∧
          u = w.setSaga driver log)) :
      CompensationReceived image w (some result) u.releaseAction.advance

theorem receiveCompensation_ok {result : Option Frame}
    (h : w.receiveCompensation image result = some (.ok, w')) :
    CompensationReceived image w result w' := by
  have hrefuse : ∀ {u : AtSlot}, ((u.driveOk Saga.Driver.markUnknown).andThen fun w =>
      Call.done ((w.dropAction w.slot.appId w.slot.actionId).failCompensation
        .unknown).releaseAction.advance) = some (.ok, w') → RefusedCompensation u w' := by
    intro u h
    obtain ⟨v, hv, rfl⟩ := Call.andThen_done_ok h
    obtain ⟨driver, log, hmark, rfl⟩ := driveOk_ok hv
    exact ⟨driver, log, hmark, rfl⟩
  unfold receiveCompensation at h
  simp only at h
  cases result with
  | none => exact .refused (hrefuse h)
  | some result =>
      simp only at h
      rcases hcall : w.slot.saga.acceptResult image w.sagaLog result with ⟨status, driver, log⟩
      have hdrive : (w.drive fun driver log => driver.acceptResult image log result) =
          (status, w.setSaga driver log) := by
        simp only [drive, hcall]
      rw [hdrive] at h
      split at h
      · rename_i u heq
        obtain ⟨rfl, rfl⟩ := Prod.mk.inj heq
        split at h
        · rename_i hstate
          cases h
          exact .accepted hcall (.inl ⟨hstate, rfl⟩)
        · rename_i hcomplete
          split at h
          · rename_i hstate
            cases h
            exact .accepted hcall (.inr (.inl ⟨hstate, rfl⟩))
          · rename_i hblocked
            cases h
            exact .accepted hcall (.inr (.inr ⟨hcomplete, hblocked, rfl⟩))
      · rename_i heq
        obtain ⟨rfl, rfl⟩ := Prod.mk.inj heq
        exact .unanswered hcall (hrefuse h)

/-- What receiving a result for a sequential slot comes to. -/
inductive SlotReceived (image : Image) (received : Received) (w : AtSlot) : AtSlot → Prop
  | same : SlotReceived image received w w
  | lost {w' : AtSlot} (plain : w.slot.compensating = false)
      (missing : w.registry.findAction w.slot.appId w.slot.actionId = none)
      (lost : w.loseExecution image = some (.ok, w')) : SlotReceived image received w w'
  | compensationLost {w' : AtSlot} (compensating : w.slot.compensating = true)
      (missing : w.registry.findAction w.slot.appId w.slot.actionId = none)
      (lost : w.loseCompensation = some (.ok, w')) : SlotReceived image received w w'
  | refused {w' : AtSlot} (plain : w.slot.compensating = false)
      (refused : w.refuseExecution image = some (.ok, w')) : SlotReceived image received w w'
  | unanswered {result : Frame} {status : RuntimeResult} {execution : Execution} {w' : AtSlot}
      (plain : w.slot.compensating = false)
      (rejected : w.slot.execution.acceptResult image result = (status, execution))
      (failed : status ≠ .ok)
      (refused : (w.setExecution execution).refuseExecution image = some (.ok, w')) :
      SlotReceived image received w w'
  | accepted {connection : Nat} {registered : UInt16} {packet : Bytes} {result : Frame}
      {execution : Execution} {w' : AtSlot} (plain : w.slot.compensating = false)
      (found : w.registry.findAction w.slot.appId w.slot.actionId =
        some (connection, registered))
      (read : received = .packet packet)
      (decoded : w.decodeResult registered packet = some result)
      (accepted : w.slot.execution.acceptResult image result = (.ok, execution))
      (recorded : (w.setExecution execution).recordResult image result = some (.ok, w')) :
      SlotReceived image received w w'
  | compensation {connection : Nat} {registered : UInt16} {result : Option Frame} {w' : AtSlot}
      (compensating : w.slot.compensating = true)
      (found : w.registry.findAction w.slot.appId w.slot.actionId =
        some (connection, registered))
      (read : ∀ frame, result = some frame →
        ∃ packet, received = .packet packet ∧ w.decodeResult registered packet = some frame)
      (settled : CompensationReceived image w result w') : SlotReceived image received w w'

theorem receiveResult_ok {received : Received}
    (h : w.receiveResult image received = some (.ok, w')) :
    SlotReceived image received w w' := by
  unfold receiveResult at h
  cases hfind : w.registry.findAction w.slot.appId w.slot.actionId with
  | none =>
      rw [hfind] at h
      simp only at h
      split at h
      · rename_i hcompensating
        exact .compensationLost hcompensating hfind h
      · rename_i hplain
        exact .lost (Bool.eq_false_iff.mpr hplain) hfind h
  | some found =>
      obtain ⟨connection, registered⟩ := found
      rw [hfind] at h
      simp only at h
      have hreceive : ∀ result : Option Frame, (∀ frame, result = some frame →
            ∃ packet, received = .packet packet ∧ w.decodeResult registered packet = some frame) →
          (if w.slot.compensating then w.receiveCompensation image result
            else w.receiveExecution image result) = some (.ok, w') →
          SlotReceived image received w w' := by
        intro result hread h
        split at h
        · rename_i hcompensating
          exact .compensation hcompensating hfind hread (receiveCompensation_ok h)
        · rename_i hplain
          have hplain := Bool.eq_false_iff.mpr hplain
          unfold receiveExecution at h
          cases result with
          | none => exact .refused hplain h
          | some frame =>
              obtain ⟨packet, hpacket, hdecode⟩ := hread frame rfl
              simp only [runExecution] at h
              rcases haccept : w.slot.execution.acceptResult image frame with ⟨status, execution⟩
              rw [haccept] at h
              split at h
              · rename_i hok
                subst hok
                exact .accepted hplain hfind hpacket hdecode haccept h
              · rename_i hbad
                exact .unanswered hplain haccept hbad h
      cases received with
      | wouldBlock => cases h; exact .same
      | failed => exact hreceive none (fun _ hnone => absurd hnone (by simp)) h
      | packet packet => exact hreceive _ (fun frame hframe => ⟨packet, rfl, hframe⟩) h

/-- A slot of `prepare_ready` with a compensation. -/
theorem prepareCompensation_ok (h : w.prepareCompensation image = some (.ok, w')) :
    ∃ invocation packet driver log,
      w.slot.saga.prepare image w.compensation.file Protocol.maxPayloadSize w.sagaLog =
        (some invocation, .ok, driver, log) ∧
      w' = ((w.setSaga driver log).setInvocation invocation packet
        (driver.execution.step driver.execution.remaining).forwardNode).advance := by
  unfold prepareCompensation at h
  rcases hprepare : w.slot.saga.prepare image w.compensation.file Protocol.maxPayloadSize
    w.sagaLog with ⟨invocation, status, driver, log⟩
  rw [hprepare] at h
  simp only [drive] at h
  cases invocation with
  | none => cases h
  | some frame =>
      cases status with
      | ok =>
          simp only at h
          split at h
          · cases h
          rename_i packet _
          cases h
          exact ⟨frame, packet, driver, log, rfl, rfl⟩
      | _ => cases h

/-- A slot of `prepare_ready` with a sequential execution. -/
theorem prepareExecution_ok (h : w.prepareExecution image = some (.ok, w')) :
    ∃ invocation packet execution journal,
      w.slot.execution.prepare image = .ok (invocation, execution) ∧
      w' = ((((w.setExecution execution).setInvocation invocation packet
        execution.currentNode).recorded journal
          (((w.setExecution execution).setInvocation invocation packet
            execution.currentNode).actionRecord .deliveryPrepared .none))).advance := by
  unfold prepareExecution at h
  split at h
  · cases h
  rename_i invocation execution hprepare
  simp only at h
  split at h
  · cases h
  rename_i packet _
  obtain ⟨u, hu, rfl⟩ := Call.andThen_done_ok h
  obtain ⟨journal, -, rfl⟩ := appendRecord_ok hu
  exact ⟨invocation, packet, execution, journal, hprepare, rfl⟩

end AtSlot

end Daemon

end Hermas
