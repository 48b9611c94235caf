import Hermas.Daemon.Calls

/-!
# Logs that grow

What the calls on a slot do to the journal and to the result store: they append to
them and nothing else, whatever they report. What is on record once stays there.
-/

namespace Hermas.Daemon

/-! ## What the logs hold -/

section Logs

/-- The journal and the result store have only grown. -/
def Shared.Grows (s s' : Shared) : Prop :=
  s'.workflowId = s.workflowId ∧ s'.imageFingerprint = s.imageFingerprint ∧
    s.journal.written <+: s'.journal.written ∧ s.results.file <+: s'.results.file

theorem Shared.Grows.refl (s : Shared) : s.Grows s :=
  ⟨rfl, rfl, List.prefix_refl _, List.prefix_refl _⟩

/-- The journal has a record that the execution finished with the outcome of its result. -/
def Shared.Finished (s : Shared) (final : Frame) : Prop :=
  ∃ bytes ∈ s.journal.written, ∃ record, Journal.decode bytes = .ok record ∧
    record.kind = .executionFinished ∧ record.executionId = final.executionId ∧
    record.workflowId = s.workflowId ∧ record.imageFingerprint = s.imageFingerprint ∧
    record.outcome = final.outcome

/-- The result store has an entry with the types and the bytes of the result. -/
def Shared.Stored (s : Shared) (final : Frame) : Prop :=
  ∃ front encoded, front ++ encoded <+: s.results.file ∧
    ∃ record, ResultStore.encode record scratchCapacity = .ok encoded ∧
      record.key = ⟨final.executionId, s.workflowId, s.imageFingerprint⟩ ∧
      record.outcome = final.outcome ∧ record.sourceType = final.sourceType ∧
      record.destinationType = final.destinationType ∧ record.value = final.payload

variable {s s' : Shared} {final : Frame}

theorem Shared.Finished.grow (h : s.Finished final) (hg : s.Grows s') : s'.Finished final := by
  obtain ⟨bytes, hmem, record, hdecode, hkind, hid, hworkflow, himage, houtcome⟩ := h
  obtain ⟨hworkflow', himage', hjournal, -⟩ := hg
  exact ⟨bytes, hjournal.subset hmem, record, hdecode, hkind, hid,
    hworkflow.trans hworkflow'.symm, himage.trans himage'.symm, houtcome⟩

theorem Shared.Stored.grow (h : s.Stored final) (hg : s.Grows s') : s'.Stored final := by
  obtain ⟨front, encoded, hprefix, record, hencode, hkey, hrest⟩ := h
  obtain ⟨hworkflow, himage, -, hresults⟩ := hg
  refine ⟨front, encoded, hprefix.trans hresults, record, hencode, ?_, hrest⟩
  rw [hkey, hworkflow, himage]

/-- A journal record that was appended is in the journal. -/
theorem appended_decodes {journal journal' : Journal.Writer} {record : Journal.Record}
    (h : journal.append record = .ok journal') :
    journal.written <+: journal'.written ∧ ∃ bytes ∈ journal'.written,
      Journal.decode bytes = .ok { record with sequence := journal.nextSequence } := by
  unfold Journal.Writer.append at h
  split at h
  · cases h
  cases hencode : Journal.encode { record with sequence := journal.nextSequence } with
  | error e => rw [hencode] at h; cases h
  | ok encoded =>
      rw [hencode] at h
      cases h
      exact ⟨List.prefix_append _ _, encoded, List.mem_append_right _ (List.mem_singleton_self _),
        Journal.decode_encode hencode⟩

/-- An entry that was appended is at the end of the store. -/
theorem appended_stored {results results' : ResultStore.Writer} {record : ResultStore.Record}
    {capacity : Nat} (h : results.append record capacity = .ok results') :
    ∃ encoded, results'.file = results.file ++ encoded ∧
      ResultStore.encode { record with sequence := results.nextSequence } capacity =
        .ok encoded := by
  unfold ResultStore.Writer.append at h
  split at h
  · cases h
  cases hencode : ResultStore.encode { record with sequence := results.nextSequence } capacity with
  | error e => rw [hencode] at h; cases h
  | ok encoded =>
      rw [hencode] at h
      cases h
      exact ⟨encoded, rfl, rfl⟩

end Logs

/-! ## Every call lets the logs grow -/

namespace AtSlot

/-- The logs are those of before and what was appended since. -/
def Grown (s : Shared) (w : AtSlot) : Prop := s.Grows w.toShared

variable {image : Image} {bound : Nat} {s : Shared} {w w' : AtSlot} {i : FlowIndex}

theorem Grown.journalRecord {record : Journal.Record} (h : Grown s w) :
    (w.journalRecord record).Keeps (Grown s) := by
  unfold AtSlot.journalRecord
  split
  · exact Call.keeps_report h
  · rename_i journal happend
    obtain ⟨hworkflow, himage, hjournal, hresults⟩ := h
    exact Call.keeps_done ⟨hworkflow, himage, hjournal.trans (appended_decodes happend).1, hresults⟩

theorem Grown.appendFinished (h : Grown s w) : w.appendFinishedIfComplete.Keeps (Grown s) := by
  have hfinish : ∀ outcome, ((w.appendRecord .executionFinished outcome false).andThen fun w =>
      Call.done (w.setSlot fun slot => { slot with journalFinished := true })).Keeps (Grown s) :=
    fun outcome => Call.keeps_andThen h.journalRecord fun u hu => Call.keeps_done hu
  unfold appendFinishedIfComplete
  simp only
  split
  · exact Call.keeps_done h
  split
  · exact hfinish _
  · split
    · exact Call.keeps_report h
    · exact hfinish _

theorem Grown.appendResult (h : Grown s w) : w.appendResultIfComplete.Keeps (Grown s) := by
  unfold appendResultIfComplete
  split
  · exact Call.keeps_done h
  split
  · exact Call.keeps_report h
  split
  · exact Call.keeps_done h
  simp only
  split
  · exact Call.keeps_report h
  · rename_i results happend
    obtain ⟨encoded, hfile, -⟩ := appended_stored happend
    obtain ⟨hworkflow, himage, hjournal, hresults⟩ := h
    exact Call.keeps_done ⟨hworkflow, himage, hjournal,
      hresults.trans (hfile ▸ List.prefix_append _ _)⟩

theorem Grown.finishGroupTransition (h : Grown s w) :
    w.finishGroupTransition.Keeps (Grown s) :=
  Call.keeps_andThen h.appendResult fun _ hu => hu.appendFinished

/-! ### Flows -/

theorem Grown.settleFlow (h : Grown s w) : (w.settleFlow i).Keeps (Grown s) := by
  have hset : Grown s (w.setDelivery i fun delivery => { delivery with ownsAction := false }) := h
  exact Call.keeps_andThen hset.finishGroupTransition fun _ hu => Call.keeps_done hu

theorem Grown.runGroup {call : Call RuntimeResult GroupExecution}
    {next : RuntimeResult → AtSlot → Call LoopResult AtSlot} (h : Grown s w)
    (hnext : ∀ result u, Grown s u → (next result u).Keeps (Grown s)) :
    (w.runGroup call next).Keeps (Grown s) := by
  unfold AtSlot.runGroup
  split
  · exact Call.ensures_none
  · exact hnext _ _ h

/-- A call of the interpreter that has to succeed. -/
theorem Grown.runGroup_must {call : Call RuntimeResult GroupExecution}
    {next : AtSlot → Call LoopResult AtSlot} (h : Grown s w)
    (hnext : ∀ u, Grown s u → (next u).Keeps (Grown s)) :
    (w.runGroup call fun result w =>
      if result ≠ .ok then Call.report .runtimeError w else next w).Keeps (Grown s) :=
  h.runGroup fun result u hu => by
    split
    · exact Call.keeps_report hu
    · exact hnext u hu

theorem Grown.prepareFlow (h : Grown s w) : (w.prepareFlow image i).Keeps (Grown s) := by
  unfold AtSlot.prepareFlow
  split
  · exact Call.keeps_done h
  split
  · exact Call.keeps_done h
  split
  · exact Call.keeps_done h
  · exact Call.keeps_report h
  · exact Call.keeps_andThen (Grown.journalRecord h) fun _ hu => Call.keeps_done hu

theorem Grown.loseFlow (h : Grown s w) : (w.loseFlow image bound i).Keeps (Grown s) := by
  unfold AtSlot.loseFlow
  split
  · exact Call.keeps_done h
  · exact Call.keeps_andThen (Grown.journalRecord h) fun _ hu =>
      hu.runGroup_must fun _ hv => hv.settleFlow

theorem Grown.reconcileFlow (h : Grown s w) :
    (w.reconcileFlow image bound i).Keeps (Grown s) := by
  unfold AtSlot.reconcileFlow
  simp only
  split
  · exact Call.keeps_done h
  split
  · exact Call.keeps_done h
  split
  · exact Call.keeps_andThen (Grown.journalRecord h) fun _ hu =>
      hu.runGroup_must fun _ hv => Call.keeps_andThen hv.finishGroupTransition fun _ hx =>
        Call.keeps_done hx
  · exact Call.keeps_done h

theorem Grown.sendGroupInvocation {outcome : SendOutcome} (h : Grown s w) :
    (w.sendGroupInvocation image bound outcome i).Keeps (Grown s) := by
  unfold AtSlot.sendGroupInvocation
  simp only
  split
  · exact Call.keeps_done h
  split
  · exact Call.keeps_done h
  split
  · exact Call.keeps_report h
  split
  · exact Call.keeps_done h
  · refine Call.keeps_andThen (Grown.journalRecord h) fun u hu => ?_
    split
    · exact Call.keeps_report hu
    · exact Call.keeps_done hu
  · exact Call.keeps_andThen (Grown.journalRecord h) fun _ hu =>
      hu.runGroup_must fun _ hv => Call.keeps_andThen (Grown.finishGroupTransition hv) fun _ hx =>
        Call.keeps_done hx

theorem Grown.refuseFlow (h : Grown s w) : (w.refuseFlow image bound i).Keeps (Grown s) := by
  unfold AtSlot.refuseFlow
  simp only
  split
  · exact Call.keeps_done h
  have hrecord : (w.appendGroupRecord i .actionUnknown .unknown).Keeps (Grown s) :=
    Grown.journalRecord h
  split
  · exact Call.ensures_none
  · rename_i u hu
    exact (hrecord _ _ hu).runGroup_must fun _ hv => Grown.settleFlow hv
  · rename_i failed u _ hu
    have hgrown : Grown s u := hrecord _ _ hu
    exact Call.keeps_report hgrown

theorem Grown.receiveGroupResult {received : Received} (h : Grown s w) :
    (w.receiveGroupResult image bound received i).Keeps (Grown s) := by
  unfold AtSlot.receiveGroupResult
  simp only
  split
  · exact Call.keeps_done h
  split
  · exact h.loseFlow
  split
  · exact Call.keeps_done h
  · exact h.refuseFlow
  split
  · exact h.refuseFlow
  · refine h.runGroup fun accepted u hu => ?_
    split
    · exact Call.keeps_andThen (Grown.journalRecord hu) fun _ hv => hv.settleFlow
    · exact hu.refuseFlow

/-! ### Sequential slots -/

theorem Grown.driveOk {call : Saga.Driver → Saga.Log.Writer → Saga.Driver.Outcome}
    (h : Grown s w) : (w.driveOk call).Keeps (Grown s) := by
  unfold AtSlot.driveOk AtSlot.drive
  simp only
  split
  · rename_i u hu
    obtain ⟨-, rfl⟩ := Prod.mk.inj hu
    exact Call.keeps_done h
  · rename_i u _ hu
    obtain ⟨-, rfl⟩ := Prod.mk.inj hu
    exact Call.keeps_report h

theorem Grown.beginLiveCompensation {outcome : Outcome} (h : Grown s w) :
    (w.beginLiveCompensation image outcome).Keeps (Grown s) := by
  unfold AtSlot.beginLiveCompensation
  split
  · exact Call.keeps_done h
  split
  · exact Call.keeps_report h
  split
  · exact Call.keeps_report h
  · exact Call.keeps_andThen h.driveOk fun _ hu => Call.keeps_done hu

theorem Grown.appendCompensationToken {result : Frame} (h : Grown s w) :
    (w.appendCompensationToken image result).Keeps (Grown s) := by
  unfold AtSlot.appendCompensationToken
  split
  · exact Call.keeps_done h
  split
  · exact Call.keeps_report h
  simp only
  split
  · exact Call.keeps_report h
  split
  · exact Call.keeps_report h
  · exact Call.keeps_done h

theorem Grown.settleExecution {appError : Bool} (h : Grown s w) :
    (w.settleExecution image appError).Keeps (Grown s) := by
  have hfree : Grown s w.releaseAction := h
  refine Call.keeps_andThen (Call.keeps_andThen hfree.appendResult fun _ hu => hu.appendFinished)
    fun u hu => Call.keeps_andThen ?_ fun _ hv => Call.keeps_done hv
  split
  · exact hu.beginLiveCompensation
  · exact Call.keeps_done hu

/-- A call of the sequential interpreter that has to succeed. -/
theorem Grown.runExecution_must {call : RuntimeResult × Execution}
    {next : AtSlot → Call LoopResult AtSlot} (h : Grown s w)
    (hnext : ∀ u, Grown s u → (next u).Keeps (Grown s)) :
    (w.runExecution call fun result w =>
      if result ≠ .ok then Call.report .runtimeError w else next w).Keeps (Grown s) := by
  unfold AtSlot.runExecution
  simp only
  split
  · exact Call.keeps_report h
  · exact hnext _ h

theorem Grown.loseExecution (h : Grown s w) : (w.loseExecution image).Keeps (Grown s) :=
  Call.keeps_andThen (Grown.journalRecord h) fun _ hu => hu.runExecution_must fun _ hv =>
    Call.keeps_andThen (Grown.appendFinished hv) fun _ hx => Call.keeps_done hx

theorem Grown.loseCompensation (h : Grown s w) : w.loseCompensation.Keeps (Grown s) :=
  Call.keeps_andThen h.driveOk fun _ hu => Call.keeps_done hu

theorem Grown.failToSendCompensation (h : Grown s w) :
    w.failToSendCompensation.Keeps (Grown s) :=
  Call.keeps_andThen h.driveOk fun _ hu => Call.keeps_done hu

theorem Grown.failToSend (h : Grown s w) : (w.failToSend image).Keeps (Grown s) :=
  Call.keeps_andThen (Grown.journalRecord h) fun _ hu => hu.runExecution_must fun _ hv =>
    Call.keeps_andThen (Call.keeps_andThen (Grown.appendFinished hv) fun _ hx =>
      hx.beginLiveCompensation) fun _ hy => Call.keeps_done hy

theorem Grown.refuseExecution (h : Grown s w) : (w.refuseExecution image).Keeps (Grown s) :=
  Call.keeps_andThen (Grown.journalRecord h) fun _ hu => hu.runExecution_must fun _ hv =>
    Grown.settleExecution hv

theorem Grown.recordResult {result : Frame} (h : Grown s w) :
    (w.recordResult image result).Keeps (Grown s) := by
  refine Call.keeps_andThen ?_ fun u hu =>
    Call.keeps_andThen (Grown.journalRecord hu) fun _ hv => hv.settleExecution
  split
  · exact h.appendCompensationToken
  · exact Call.keeps_done h

theorem Grown.receiveCompensation {result : Option Frame} (h : Grown s w) :
    (w.receiveCompensation image result).Keeps (Grown s) := by
  have hrefuse : ∀ {u : AtSlot}, Grown s u → ((u.driveOk Saga.Driver.markUnknown).andThen fun w =>
      Call.done ((w.dropAction w.slot.appId w.slot.actionId).failCompensation
        .unknown).releaseAction.advance).Keeps (Grown s) :=
    fun hu => Call.keeps_andThen hu.driveOk fun _ hv => Call.keeps_done hv
  unfold AtSlot.receiveCompensation
  simp only
  split
  · exact hrefuse h
  · simp only [AtSlot.drive]
    split
    · rename_i u hu
      obtain ⟨-, rfl⟩ := Prod.mk.inj hu
      split
      · exact Call.keeps_done h
      split
      · exact Call.keeps_done h
      · exact Call.keeps_done h
    · rename_i u _ hu
      obtain ⟨-, rfl⟩ := Prod.mk.inj hu
      exact hrefuse h

theorem Grown.receiveResult {received : Received} (h : Grown s w) :
    (w.receiveResult image received).Keeps (Grown s) := by
  have hreceive : ∀ result, (if w.slot.compensating then w.receiveCompensation image result
      else w.receiveExecution image result).Keeps (Grown s) := by
    intro result
    split
    · exact h.receiveCompensation
    unfold AtSlot.receiveExecution AtSlot.runExecution
    split
    · exact h.refuseExecution
    simp only
    split
    · exact Grown.recordResult h
    · exact Grown.refuseExecution h
  unfold AtSlot.receiveResult
  split
  · split
    · exact h.loseCompensation
    · exact h.loseExecution
  simp only
  split
  · exact Call.keeps_done h
  · exact hreceive _
  · exact hreceive _

theorem Grown.sendInvocation {outcome : SendOutcome} (h : Grown s w) :
    (w.sendInvocation image outcome).Keeps (Grown s) := by
  unfold AtSlot.sendInvocation
  split
  · exact Call.keeps_done h
  simp only
  split
  · exact Call.keeps_done h
  · split
    · exact Call.keeps_andThen (Grown.driveOk h) fun _ hu => Call.keeps_done hu
    · refine Call.keeps_andThen (Grown.journalRecord h) fun u hu => ?_
      split
      · exact Call.keeps_report hu
      · exact Call.keeps_done hu
  · split
    · exact Grown.failToSendCompensation h
    · exact Grown.failToSend h

theorem Grown.prepareSlot (h : Grown s w) : (w.prepareSlot image).Keeps (Grown s) := by
  unfold AtSlot.prepareSlot
  split
  · exact Call.keeps_done h
  split
  · exact Call.keeps_each _ (fun _ _ _ hu => hu.prepareFlow) w h
  split
  · exact Call.keeps_done h
  split
  · unfold AtSlot.prepareCompensation
    simp only [AtSlot.drive]
    split
    · split
      · exact Call.keeps_report h
      · exact Call.keeps_done h
    · exact Call.keeps_report h
  · unfold AtSlot.prepareExecution
    split
    · exact Call.keeps_report h
    simp only
    split
    · exact Call.keeps_report h
    · exact Call.keeps_andThen (Grown.journalRecord h) fun _ hu => Call.keeps_done hu

theorem Grown.reconcileSlot (h : Grown s w) :
    (w.reconcileSlot image bound).Keeps (Grown s) := by
  unfold AtSlot.reconcileSlot
  split
  · exact Call.keeps_done h
  split
  · exact Call.keeps_each _ (fun _ _ _ hu => hu.reconcileFlow) w h
  split
  · exact Call.keeps_done h
  split
  · exact Call.keeps_done h
  split
  · exact Grown.loseCompensation h
  · exact Grown.loseExecution h

end AtSlot

namespace Loop

open AtSlot (Grown)

variable {image : Image} {bound : Nat} {s : Daemon.Shared} {w : AtSlot}

theorem grown_serveFlow {event : Event} {i : FlowIndex} (h : Grown s w) :
    (serveFlow image bound event i w).Keeps (Grown s) := by
  unfold serveFlow
  split
  · exact Call.keeps_done h
  simp only
  split
  · exact h.sendGroupInvocation
  split
  · exact h.receiveGroupResult
  split
  · split
    · exact h.sendGroupInvocation
    · exact h.receiveGroupResult
  · exact Call.keeps_done h

theorem grown_serveSlot {event : Event} (h : Grown s w) :
    (serveSlot image event w).Keeps (Grown s) := by
  unfold serveSlot
  split
  · exact h.sendInvocation
  split
  · exact h.receiveResult
  split
  · split
    · exact h.sendInvocation
    · exact h.receiveResult
  · exact Call.keeps_done h

end Loop

end Hermas.Daemon
