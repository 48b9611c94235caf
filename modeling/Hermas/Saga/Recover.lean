import Hermas.Image.Encode
import Hermas.Journal.Restart
import Hermas.Saga.Steps

/-!
# Recovering the plan of a compensation

After a restart the plan is rebuilt from the journal. The recovery walks the records
of the execution in order, beside the steps of the image: a step is completed when
its success is on record, in the order of the ordinals, and the execution must have
finished with the outcome of the fact that stopped it. What is undone is what the
journal proves and no more, and every step has its token.
-/

namespace Hermas.Saga

open Image (sagaRegions)

/-- What the loop of `hermas_saga_recover` carries along. -/
structure Recovery where
  execution : Execution
  started : Bool := false
  finished : Bool := false
  terminalAction : Bool := false
  largestRequest : UInt64 := 0

/-- `find_step` -/
def findStep (execution : Execution) (node : UInt16) : Option (Fin maxSteps) :=
  ((List.finRange maxSteps).take execution.stepCount).find? fun i =>
    (execution.steps i).forwardNode == node

/-- `forward_route_matches` -/
def forwardRouteMatches (image : Image) (step : Step) (record : Journal.Record) : Bool :=
  record.appId == (image.node step.forwardNode).app &&
    record.actionId == (image.node step.forwardNode).action

/-- The step that a fact is about, if the facts before it lead there. -/
def nextStep (image : Image) (recovery : Recovery) (record : Journal.Record) :
    Option (Fin maxSteps) :=
  match findStep recovery.execution record.nodeId with
  | none => none
  | some i =>
      let step := recovery.execution.steps i
      if recovery.terminalAction ∨ step.ordinal.toNat ≠ recovery.execution.remaining + 1 ∨
          ¬ forwardRouteMatches image step record then
        none
      else some i

/-- What an `ActionSucceeded` does. -/
def recoverSucceeded (image : Image) (recovery : Recovery) (record : Journal.Record) :
    Except Result Recovery :=
  let execution := recovery.execution
  match nextStep image recovery record with
  | none => .error .inconsistentHistory
  | some i =>
      let step := execution.steps i
      if step.forwardRequestId ≠ 0 then .error .inconsistentHistory
      else .ok { recovery with
        execution := { execution with
          steps := Function.update execution.steps i
            { step with forwardRequestId := record.requestId }
          remaining := execution.remaining + 1 } }

/-- What an `ActionFailed` and an `ActionUnknown` do. -/
def recoverFailed (image : Image) (recovery : Recovery) (record : Journal.Record) :
    Except Result Recovery :=
  match nextStep image recovery record with
  | none => .error .inconsistentHistory
  | some _ => .ok { recovery with
      terminalAction := true
      execution := { recovery.execution with originalOutcome := record.outcome } }

/-- What an `ExecutionFinished` does. -/
def recoverFinished (recovery : Recovery) (record : Journal.Record) : Except Result Recovery :=
  let execution := recovery.execution
  let successful := ¬ recovery.terminalAction ∧ record.outcome = .success ∧
    execution.remaining = execution.stepCount
  if ¬ successful ∧
      (¬ recovery.terminalAction ∨ execution.originalOutcome ≠ record.outcome) then
    .error .inconsistentHistory
  else .ok { recovery with
    finished := true
    execution := { execution with originalOutcome := record.outcome } }

/-- What a record behind the first one does, by its kind. -/
def recoverKnown (image : Image) (recovery : Recovery) (record : Journal.Record) :
    Except Result Recovery :=
  match record.kind with
  | .actionSucceeded => recoverSucceeded image recovery record
  | .actionFailed => recoverFailed image recovery record
  | .actionUnknown => recoverFailed image recovery record
  | .executionFinished => recoverFinished recovery record
  | _ => .ok recovery

/-- The loop body of `hermas_saga_recover` -/
def recoverRecord (image : Image) (recovery : Recovery) (record : Journal.Record) :
    Except Result Recovery :=
  let execution := recovery.execution
  if record.executionId ≠ execution.executionId then .ok recovery
  else if record.workflowId ≠ execution.workflowId ∨
      record.imageFingerprint ≠ execution.imageFingerprint then
    .error .inconsistentHistory
  else if record.kind = .executionStarted then
    if recovery.started then .error .inconsistentHistory
    else .ok { recovery with started := true }
  else if ¬ recovery.started ∨ recovery.finished then .error .inconsistentHistory
  else
    recoverKnown image
      { recovery with
        largestRequest :=
          if recovery.largestRequest < record.requestId then record.requestId
          else recovery.largestRequest }
      record

/-- `hermas_saga_recover` behind its loop. -/
def recoverPlan (image : Image) (tokens : Bytes) (recovery : Recovery) :
    Except Result Execution :=
  let execution := { recovery.execution with completedSteps := recovery.execution.remaining }
  if ¬ recovery.started ∨ ¬ recovery.finished ∨ recovery.largestRequest = uint64Max then
    .error .inconsistentHistory
  else if execution.originalOutcome = .unknown then .error .unsafeHistory
  else if execution.originalOutcome = .success then
    .ok { execution with remaining := 0, state := .complete }
  else if execution.originalOutcome ≠ .appError ∧ execution.originalOutcome ≠ .notSent then
    .error .inconsistentHistory
  else
    let execution := { execution with nextRequestId := recovery.largestRequest + 1 }
    (((List.finRange maxSteps).take execution.remaining).forM fun i =>
        (validateToken image tokens execution (execution.steps i) Protocol.maxPayloadSize).map
          fun _ => ()).map
      fun _ => { execution with state := if execution.remaining = 0 then .complete else .ready }

/-- `hermas_saga_recover`. The fingerprint of the image is an argument. -/
def recover (image : Image) (imageFingerprint : UInt64) (journal tokens : Bytes)
    (executionId : UInt64) (workflowId : UInt32) : Except Result Execution :=
  if executionId = 0 ∨ workflowId = 0 then .error .invalidArgument
  else if ¬ (Journal.scan journal).toOption.isSome then .error .inconsistentHistory
  else if ¬ (Compensation.scan tokens).toOption.isSome then .error .invalidToken
  else
    match loadSteps image { executionId, workflowId, imageFingerprint } with
    | none => .error .notSaga
    | some execution =>
        ((Journal.journalRecords journal).foldlM (recoverRecord image) { execution }) >>=
          recoverPlan image tokens

/-! ## One record -/

theorem finRange_take_lt {n : Nat} {i : Fin maxSteps}
    (h : i ∈ (List.finRange maxSteps).take n) : i.val < n := by
  obtain ⟨k, hk, rfl⟩ := List.mem_take_iff_getElem.mp h
  rw [List.getElem_finRange]
  exact lt_of_lt_of_le hk (min_le_left _ _)

theorem findStep_some {execution : Execution} {node : UInt16} {i : Fin maxSteps}
    (h : findStep execution node = some i) :
    i.val < execution.stepCount ∧ (execution.steps i).forwardNode = node :=
  ⟨finRange_take_lt (List.mem_of_find?_eq_some h), by simpa using List.find?_some h⟩

/-- A step without the forward request that completed it. -/
def Step.declaration (step : Step) : Step := { step with forwardRequestId := 0 }

/-- The recovery so far, and the records of the execution that it has walked. -/
structure Recovers (image : Image) (origin : Execution) (own : List Journal.Record)
    (recovery : Recovery) : Prop where
  executionId : recovery.execution.executionId = origin.executionId
  workflowId : recovery.execution.workflowId = origin.workflowId
  imageFingerprint : recovery.execution.imageFingerprint = origin.imageFingerprint
  stepCount : recovery.execution.stepCount = origin.stepCount
  /-- Only the forward requests of the steps are filled in. -/
  steps : ∀ i, (recovery.execution.steps i).declaration = (origin.steps i).declaration
  completed : recovery.execution.remaining ≤ origin.stepCount
  /-- Nothing stands before the start. -/
  started : recovery.started = false → own = []
  finished : recovery.finished = true ↔ Journal.Finished own
  largest : ∀ r ∈ own, r.requestId ≤ recovery.largestRequest
  /-- The successes on record are those of the first steps, in order. -/
  succeeded : (own.filter (·.kind = .actionSucceeded)).map (fun r => (r.nodeId, r.requestId)) =
    (List.range recovery.execution.remaining).map fun n =>
      ((recovery.execution.step (n + 1)).forwardNode,
        (recovery.execution.step (n + 1)).forwardRequestId)
  routes : ∀ r ∈ own, r.kind = .actionSucceeded →
    r.appId = (image.node r.nodeId).app ∧ r.actionId = (image.node r.nodeId).action
  /-- An uncertain action is the last fact, and its outcome is the outcome. -/
  uncertain : ∀ r ∈ own, r.kind = .actionUnknown →
    recovery.terminalAction = true ∧ recovery.execution.originalOutcome = .unknown
  outcome : ∀ r ∈ own, r.kind = .executionFinished →
    r.outcome = recovery.execution.originalOutcome

theorem recovers_init (image : Image) (origin : Execution) (hremaining : origin.remaining = 0) :
    Recovers image origin [] { execution := origin } where
  executionId := rfl
  workflowId := rfl
  imageFingerprint := rfl
  stepCount := rfl
  steps := fun _ => rfl
  completed := by rw [hremaining]; exact Nat.zero_le _
  started := fun _ => rfl
  finished := by simp [Journal.Finished]
  largest := fun r hr => by cases hr
  succeeded := by simp [hremaining]
  routes := fun r hr => by cases hr
  uncertain := fun r hr => by cases hr
  outcome := fun r hr => by cases hr

/-- The step that a fact is about is the first that is not completed. -/
theorem nextStep_some {image : Image} {recovery : Recovery} {record : Journal.Record}
    {i : Fin maxSteps} (hordinal : ∀ i : Fin maxSteps, i.val < recovery.execution.stepCount →
      (recovery.execution.steps i).ordinal.toNat = i + 1)
    (h : nextStep image recovery record = some i) :
    recovery.terminalAction = false ∧ i.val = recovery.execution.remaining ∧
      recovery.execution.remaining < recovery.execution.stepCount ∧
      (recovery.execution.steps i).forwardNode = record.nodeId ∧
      record.appId = (image.node record.nodeId).app ∧
      record.actionId = (image.node record.nodeId).action := by
  unfold nextStep at h
  split at h
  · cases h
  · rename_i j hfind
    obtain ⟨hj, hnode⟩ := findStep_some hfind
    simp only at h
    split at h
    · cases h
    · rename_i hchecks
      cases h
      simp only [not_or, not_not] at hchecks
      obtain ⟨hterminal, hnext, hroute⟩ := hchecks
      rw [hordinal i hj] at hnext
      simp only [forwardRouteMatches, Bool.and_eq_true, beq_iff_eq, hnode] at hroute
      exact ⟨Bool.eq_false_of_not_eq_true hterminal, by omega, by omega, hnode, hroute⟩

section Snoc

variable {image : Image} {origin : Execution} {own : List Journal.Record} {recovery : Recovery}
  {record : Journal.Record}

/-- The recovery has taken note of a record's request. -/
def Recovery.note (recovery : Recovery) (record : Journal.Record) : Recovery :=
  { recovery with
    largestRequest :=
      if recovery.largestRequest < record.requestId then record.requestId
      else recovery.largestRequest }

@[simp] theorem note_execution : (recovery.note record).execution = recovery.execution := rfl

@[simp] theorem note_terminalAction :
    (recovery.note record).terminalAction = recovery.terminalAction := rfl

theorem note_largest (h : Recovers image origin own recovery) :
    ∀ r ∈ own ++ [record], r.requestId ≤ (recovery.note record).largestRequest := by
  intro r hr
  simp only [Recovery.note]
  rcases List.mem_append.mp hr with hr | hr
  · have hle := UInt64.le_iff_toNat_le.mp (h.largest r hr)
    split
    · rename_i hlt
      have hlt := UInt64.lt_iff_toNat_lt.mp hlt
      exact UInt64.le_iff_toNat_le.mpr (by omega)
    · exact UInt64.le_iff_toNat_le.mpr hle
  · rw [List.mem_singleton.mp hr]
    split
    · exact UInt64.le_refl _
    · rename_i hlt
      exact UInt64.not_lt.mp hlt

theorem request_of_started (hvalid : Journal.validateRecord record = .ok)
    (hkind : record.kind = .executionStarted) : record.requestId = 0 := by
  unfold Journal.validateRecord at hvalid
  split_ifs at hvalid with _ _ _ hnamed
  by_contra hne
  exact hnamed ⟨by rw [hkind]; decide, .inl hne⟩

/-- The first record of the execution is its start. -/
theorem recovers_started (h : Recovers image origin own recovery)
    (hkind : record.kind = .executionStarted) (hrequest : record.requestId = 0)
    (hstarted : recovery.started = false) :
    Recovers image origin (own ++ [record]) { recovery with started := true } := by
  have hown := h.started hstarted
  subst hown
  refine ⟨h.executionId, h.workflowId, h.imageFingerprint, h.stepCount, h.steps, h.completed,
    fun hs => by simp at hs, ?_, ?_, ?_, ?_, ?_, ?_⟩
  · rw [h.finished, Journal.finished_snoc]
    simp [hkind]
  · intro r hr
    rw [List.mem_singleton.mp hr, hrequest]
    exact UInt64.zero_le
  · have hsucceeded := h.succeeded
    rw [List.nil_append, List.filter_cons_of_neg (by rw [hkind]; decide)]
    exact hsucceeded
  · intro r hr hk
    rw [List.mem_singleton.mp hr, hkind] at hk
    cases hk
  · intro r hr hk
    rw [List.mem_singleton.mp hr, hkind] at hk
    cases hk
  · intro r hr hk
    rw [List.mem_singleton.mp hr, hkind] at hk
    cases hk

/-- A record about a delivery on its way changes nothing but the largest request. -/
theorem recovers_delivery (h : Recovers image origin own recovery)
    (hkind : record.kind = .deliveryPrepared ∨ record.kind = .deliverySent)
    (hstarted : recovery.started = true) :
    Recovers image origin (own ++ [record]) (recovery.note record) := by
  have hother : record.kind ≠ .executionFinished ∧ record.kind ≠ .actionSucceeded ∧
      record.kind ≠ .actionUnknown := by
    rcases hkind with hkind | hkind <;> rw [hkind] <;> decide
  obtain ⟨hfinish, hsucceed, hunknown⟩ := hother
  refine ⟨h.executionId, h.workflowId, h.imageFingerprint, h.stepCount, h.steps, h.completed,
    fun hs => absurd (hstarted.symm.trans hs) (by decide), ?_, note_largest h, ?_, ?_, ?_, ?_⟩
  · rw [Journal.finished_snoc]
    exact h.finished.trans (by simp [hfinish])
  · rw [List.filter_append, List.filter_cons_of_neg (by simpa using hsucceed)]
    rw [List.filter_nil, List.append_nil]
    exact h.succeeded
  · intro r hr hk
    rcases List.mem_append.mp hr with hr | hr
    · exact h.routes r hr hk
    · exact absurd (List.mem_singleton.mp hr ▸ hk) hsucceed
  · intro r hr hk
    rcases List.mem_append.mp hr with hr | hr
    · exact h.uncertain r hr hk
    · exact absurd (List.mem_singleton.mp hr ▸ hk) hunknown
  · intro r hr hk
    rcases List.mem_append.mp hr with hr | hr
    · exact h.outcome r hr hk
    · exact absurd (List.mem_singleton.mp hr ▸ hk) hfinish

/-- A success completes the next step. -/
theorem recovers_succeeded {recovery' : Recovery} (h : Recovers image origin own recovery)
    (hordinal : ∀ i : Fin maxSteps, i.val < origin.stepCount →
      (origin.steps i).ordinal.toNat = i + 1)
    (hkind : record.kind = .actionSucceeded) (hstarted : recovery.started = true)
    (hstep : recoverSucceeded image (recovery.note record) record = .ok recovery') :
    Recovers image origin (own ++ [record]) recovery' := by
  unfold recoverSucceeded at hstep
  simp only at hstep
  split at hstep
  · cases hstep
  rename_i i hnext
  split at hstep
  · cases hstep
  cases hstep
  have hplan : ∀ i : Fin maxSteps, i.val < recovery.execution.stepCount →
      (recovery.execution.steps i).ordinal.toNat = i + 1 := by
    intro i hi
    rw [h.stepCount] at hi
    rw [← hordinal i hi]
    exact congrArg (fun step => step.ordinal.toNat) (h.steps i)
  obtain ⟨hterminal, hi, hlt, hnode, happ, haction⟩ := nextStep_some hplan hnext
  have hcount := h.stepCount
  refine ⟨h.executionId, h.workflowId, h.imageFingerprint, h.stepCount, ?_, ?_,
    fun hs => absurd (hstarted.symm.trans hs) (by decide), ?_, note_largest h, ?_, ?_, ?_, ?_⟩
  · intro j
    rw [← h.steps j]
    by_cases hj : j = i
    · subst hj
      simp only [Function.update_self]
      rfl
    · simp only [Function.update_of_ne hj, note_execution]
  · show recovery.execution.remaining + 1 ≤ _
    omega
  · rw [Journal.finished_snoc]
    exact h.finished.trans (by simp [hkind])
  · -- the steps before stay as they are, and the new one is the next of the list
    rw [List.filter_append, List.map_append, h.succeeded,
      List.filter_cons_of_pos (by simp [hkind]), List.range_succ, List.map_append]
    congr 1
    · refine List.map_congr_left fun n hn => ?_
      have hn := List.mem_range.mp hn
      have hne : Fin.ofNat maxSteps n ≠ i := by
        intro heq
        have hval : n % maxSteps = i.val := congrArg Fin.val heq
        rw [Nat.mod_eq_of_lt (by omega)] at hval
        omega
      simp only [Execution.step, Nat.add_sub_cancel, Function.update_of_ne hne, note_execution]
    · have heq : Fin.ofNat maxSteps recovery.execution.remaining = i := by
        rw [← hi]
        exact Fin.ofNat_val_eq_self i
      simp only [List.map_cons, List.map_nil, Execution.step, Nat.add_sub_cancel, note_execution,
        heq, Function.update_self, hnode, List.filter_nil]
  · intro r hr hk
    rcases List.mem_append.mp hr with hr | hr
    · exact h.routes r hr hk
    · rw [List.mem_singleton.mp hr]
      exact ⟨happ, haction⟩
  · intro r hr hk
    rcases List.mem_append.mp hr with hr | hr
    · exact absurd ((h.uncertain r hr hk).1.symm.trans hterminal) (by decide)
    · rw [List.mem_singleton.mp hr, hkind] at hk
      cases hk
  · intro r hr hk
    rcases List.mem_append.mp hr with hr | hr
    · exact h.outcome r hr hk
    · rw [List.mem_singleton.mp hr, hkind] at hk
      cases hk

/-- A failure or an uncertain action is the last fact before the end. -/
theorem recovers_failed {recovery' : Recovery} (h : Recovers image origin own recovery)
    (hkind : record.kind = .actionFailed ∨ record.kind = .actionUnknown)
    (hvalid : Journal.validateRecord record = .ok)
    (hstarted : recovery.started = true) (hfinished : recovery.finished = false)
    (hstep : recoverFailed image (recovery.note record) record = .ok recovery') :
    Recovers image origin (own ++ [record]) recovery' := by
  unfold recoverFailed at hstep
  split at hstep
  · cases hstep
  rename_i i hnext
  cases hstep
  have hother : record.kind ≠ .executionFinished ∧ record.kind ≠ .actionSucceeded := by
    rcases hkind with hkind | hkind <;> rw [hkind] <;> decide
  obtain ⟨hfinish, hsucceed⟩ := hother
  have hterminal : recovery.terminalAction = false := by
    unfold nextStep at hnext
    split at hnext
    · cases hnext
    · simp only at hnext
      split at hnext
      · cases hnext
      · rename_i hchecks
        exact Bool.eq_false_of_not_eq_true (not_or.mp hchecks).1
  have hunfinished : ¬ Journal.Finished own := fun hf =>
    absurd ((h.finished.mpr hf).symm.trans hfinished) (by decide)
  refine ⟨h.executionId, h.workflowId, h.imageFingerprint, h.stepCount, h.steps, h.completed,
    fun hs => absurd (hstarted.symm.trans hs) (by decide), ?_, note_largest h, ?_, ?_, ?_, ?_⟩
  · rw [Journal.finished_snoc]
    exact h.finished.trans (by simp [hfinish])
  · rw [List.filter_append, List.filter_cons_of_neg (by simpa using hsucceed), List.filter_nil,
      List.append_nil]
    exact h.succeeded
  · intro r hr hk
    rcases List.mem_append.mp hr with hr | hr
    · exact h.routes r hr hk
    · exact absurd (List.mem_singleton.mp hr ▸ hk) hsucceed
  · intro r hr hk
    rcases List.mem_append.mp hr with hr | hr
    · exact absurd ((h.uncertain r hr hk).1.symm.trans hterminal) (by decide)
    · rw [List.mem_singleton.mp hr] at hk
      have hout := Journal.valid_outcome hvalid
      rw [hk] at hout
      exact ⟨rfl, hout⟩
  · intro r hr hk
    rcases List.mem_append.mp hr with hr | hr
    · exact absurd ⟨r, hr, hk⟩ hunfinished
    · exact absurd (List.mem_singleton.mp hr ▸ hk) hfinish

/-- The end confirms the outcome. -/
theorem recovers_finished {recovery' : Recovery} (h : Recovers image origin own recovery)
    (hkind : record.kind = .executionFinished)
    (hstarted : recovery.started = true) (hfinished : recovery.finished = false)
    (hstep : recoverFinished (recovery.note record) record = .ok recovery') :
    Recovers image origin (own ++ [record]) recovery' := by
  unfold recoverFinished at hstep
  simp only at hstep
  split at hstep
  · cases hstep
  rename_i hchecks
  cases hstep
  have hunfinished : ¬ Journal.Finished own := fun hf =>
    absurd ((h.finished.mpr hf).symm.trans hfinished) (by decide)
  refine ⟨h.executionId, h.workflowId, h.imageFingerprint, h.stepCount, h.steps, h.completed,
    fun hs => absurd (hstarted.symm.trans hs) (by decide), ?_, note_largest h, ?_, ?_, ?_, ?_⟩
  · rw [Journal.finished_snoc]
    simp [hkind]
  · rw [List.filter_append, List.filter_cons_of_neg (by rw [hkind]; decide), List.filter_nil,
      List.append_nil]
    exact h.succeeded
  · intro r hr hk
    rcases List.mem_append.mp hr with hr | hr
    · exact h.routes r hr hk
    · rw [List.mem_singleton.mp hr, hkind] at hk
      cases hk
  · intro r hr hk
    rcases List.mem_append.mp hr with hr | hr
    · -- behind an uncertain action the end has its outcome
      obtain ⟨hterminal, hunknown⟩ := h.uncertain r hr hk
      refine ⟨hterminal, ?_⟩
      have hsame : recovery.execution.originalOutcome = record.outcome := by
        by_contra hne
        exact hchecks ⟨fun hs => hs.1 hterminal, .inr hne⟩
      exact hsame.symm.trans hunknown
    · rw [List.mem_singleton.mp hr, hkind] at hk
      cases hk
  · intro r hr hk
    rcases List.mem_append.mp hr with hr | hr
    · exact absurd ⟨r, hr, hk⟩ hunfinished
    · rw [List.mem_singleton.mp hr]

/-- **One record of the execution.** -/
theorem recovers_record {recovery' : Recovery} (h : Recovers image origin own recovery)
    (hordinal : ∀ i : Fin maxSteps, i.val < origin.stepCount →
      (origin.steps i).ordinal.toNat = i + 1)
    (hvalid : Journal.validateRecord record = .ok)
    (hid : record.executionId = origin.executionId)
    (hstep : recoverRecord image recovery record = .ok recovery') :
    Recovers image origin (own ++ [record]) recovery' := by
  unfold recoverRecord at hstep
  simp only at hstep
  rw [if_neg (by rw [h.executionId]; exact not_not.mpr hid)] at hstep
  split at hstep
  · cases hstep
  split at hstep
  · rename_i hkind
    split at hstep
    · cases hstep
    · rename_i hstarted
      cases hstep
      exact recovers_started h hkind (request_of_started hvalid hkind)
        (Bool.eq_false_of_not_eq_true hstarted)
  · rename_i hnotStarted
    split at hstep
    · cases hstep
    · rename_i hphase
      simp only [not_or, not_not] at hphase
      obtain ⟨hstarted, hunfinished⟩ := hphase
      have hfinished := Bool.eq_false_of_not_eq_true hunfinished
      change recoverKnown image (recovery.note record) record = .ok recovery' at hstep
      cases hkind : record.kind with
      | executionStarted => exact absurd hkind hnotStarted
      | deliveryPrepared =>
          simp only [recoverKnown, hkind] at hstep
          cases hstep
          exact recovers_delivery h (.inl hkind) hstarted
      | deliverySent =>
          simp only [recoverKnown, hkind] at hstep
          cases hstep
          exact recovers_delivery h (.inr hkind) hstarted
      | actionSucceeded =>
          simp only [recoverKnown, hkind] at hstep
          exact recovers_succeeded h hordinal hkind hstarted hstep
      | actionFailed =>
          simp only [recoverKnown, hkind] at hstep
          exact recovers_failed h (.inl hkind) hvalid hstarted hfinished hstep
      | actionUnknown =>
          simp only [recoverKnown, hkind] at hstep
          exact recovers_failed h (.inr hkind) hvalid hstarted hfinished hstep
      | executionFinished =>
          simp only [recoverKnown, hkind] at hstep
          exact recovers_finished h hkind hstarted hfinished hstep

end Snoc

/-! ## The whole journal -/

/-- **A run of the loop.** -/
theorem recovers_records {image : Image} {origin : Execution}
    (hordinal : ∀ i : Fin maxSteps, i.val < origin.stepCount →
      (origin.steps i).ordinal.toNat = i + 1) (records : List Journal.Record) :
    ∀ {before : List Journal.Record} {recovery recovery' : Recovery},
    (∀ r ∈ records, Journal.validateRecord r = .ok) →
    Recovers image origin (Journal.recordsOf before origin.executionId) recovery →
    records.foldlM (recoverRecord image) recovery = .ok recovery' →
    Recovers image origin (Journal.recordsOf (before ++ records) origin.executionId) recovery' := by
  induction records with
  | nil =>
      intro before recovery recovery' _ h hrun
      cases hrun
      rwa [List.append_nil]
  | cons record records ih =>
      intro before recovery recovery' hvalid h hrun
      rw [List.foldlM_cons, bind_ok] at hrun
      obtain ⟨next, hrecord, hrun⟩ := hrun
      have hnext : Recovers image origin
          (Journal.recordsOf (before ++ [record]) origin.executionId) next := by
        by_cases hid : record.executionId = origin.executionId
        · rw [← hid, Journal.recordsOf_snoc_self, hid]
          exact recovers_record h hordinal (hvalid record (by simp)) hid hrecord
        · -- a record of another execution is skipped
          rw [Journal.recordsOf_snoc_of_ne _ hid]
          have hskip : recoverRecord image recovery record = .ok recovery := by
            unfold recoverRecord
            exact if_pos (by rw [h.executionId]; exact hid)
          cases hskip.symm.trans hrecord
          exact h
      have hrest := ih (fun r hr => hvalid r (by simp [hr])) hnext hrun
      rwa [List.append_assoc] at hrest

/-- The key under which the token of a step is kept. -/
def Execution.tokenKey (execution : Execution) (step : Step) : Compensation.Key where
  executionId := execution.executionId
  workflowId := execution.workflowId
  requestId := step.forwardRequestId
  nodeId := step.forwardNode
  imageFingerprint := execution.imageFingerprint

/-- The one token of a step, fit for its compensation. -/
structure HasToken (image : Image) (stored : List Compensation.Record) (execution : Execution)
    (step : Step) (token : Compensation.Record) : Prop where
  only : stored.filter (·.key = execution.tokenKey step) = [token]
  compensationAppId : token.compensationAppId = step.compensationAppId
  compensationActionId : token.compensationActionId = step.compensationActionId
  sourceType : token.sourceType = step.sourceType
  destinationType : token.destinationType = step.destinationType
  /-- The payload is canonical for what the compensation takes. -/
  canonical : image.validateValue step.destinationType token.token = true

theorem validateToken_ok {image : Image} {store : Bytes} {execution : Execution} {step : Step}
    {capacity : Nat} {token : Compensation.Record}
    (h : validateToken image store execution step capacity = .ok token) :
    HasToken image (Compensation.records store) execution step token := by
  unfold validateToken at h
  split at h
  · cases h
  · cases h
  · cases h
  · cases h
  · rename_i record hfind
    split at h
    · cases h
    · rename_i hchecks
      cases h
      simp only [not_or, not_not] at hchecks
      obtain ⟨happ, haction, hsource, hdestination, hvalue⟩ := hchecks
      exact ⟨Compensation.find_ok hfind, happ, haction, hsource, hdestination, hvalue⟩

/-- What a ready plan says about the journal of its execution and the tokens that are kept. -/
structure Proven (image : Image) (own : List Journal.Record) (stored : List Compensation.Record)
    (plan : Execution) : Prop where
  /-- The steps up to the last that is left are the first steps of the image. -/
  declared : ∀ n, n < plan.remaining → ∃ region,
    (sagaRegions image.tables.regions)[n]? = some region ∧
      (plan.step (n + 1)).Declared region ∧ (plan.step (n + 1)).ordinal.toNat = n + 1
  /-- The successes on record are those of these steps, in order, with their requests. -/
  succeeded : (own.filter (·.kind = .actionSucceeded)).map (fun r => (r.nodeId, r.requestId)) =
    (List.range plan.remaining).map fun n =>
      ((plan.step (n + 1)).forwardNode, (plan.step (n + 1)).forwardRequestId)
  routes : ∀ r ∈ own, r.kind = .actionSucceeded →
    r.appId = (image.node r.nodeId).app ∧ r.actionId = (image.node r.nodeId).action
  finished : Journal.Finished own
  outcome : ∀ r ∈ own, r.kind = .executionFinished → r.outcome = plan.originalOutcome
  failed : plan.originalOutcome = .appError ∨ plan.originalOutcome = .notSent
  certain : ¬ Journal.HasUnknown own
  tokens : ∀ n, n < plan.remaining →
    ∃ token, HasToken image stored plan (plan.step (n + 1)) token
  /-- No forward request has the id of a request to come. -/
  fresh : ∀ r ∈ own, r.requestId < plan.nextRequestId

theorem finRange_take_mem {n k : Nat} (hk : k < n) (i : Fin maxSteps) (hi : i.val = k) :
    i ∈ (List.finRange maxSteps).take n := by
  refine List.mem_take_iff_getElem.mpr ⟨k, ?_, ?_⟩
  · rw [List.length_finRange]
    omega
  · rw [List.getElem_finRange]
    exact Fin.ext hi.symm

/-- What stands between the loop and a ready plan. -/
theorem recoverPlan_ready {image : Image} {tokens : Bytes} {recovery : Recovery} {plan : Execution}
    (h : recoverPlan image tokens recovery = .ok plan) (hready : plan.state = .ready) :
    recovery.finished = true ∧ recovery.largestRequest ≠ uint64Max ∧
      (recovery.execution.originalOutcome = .appError ∨
        recovery.execution.originalOutcome = .notSent) ∧
      recovery.execution.remaining ≠ 0 ∧
      plan = { recovery.execution with
        completedSteps := recovery.execution.remaining
        nextRequestId := recovery.largestRequest + 1
        state := .ready } ∧
      ∀ i ∈ (List.finRange maxSteps).take plan.remaining,
        ∃ token, validateToken image tokens plan (plan.steps i) Protocol.maxPayloadSize =
          .ok token := by
  unfold recoverPlan at h
  simp only at h
  split at h
  · cases h
  rename_i hphase
  split at h
  · cases h
  split at h
  · cases h
    cases hready
  split at h
  · cases h
  rename_i houtcome
  simp only [not_or, not_not] at hphase
  obtain ⟨-, hfinished, hlargest⟩ := hphase
  unfold Except.map at h
  split at h
  · cases h
  · rename_i htokens
    cases h
    simp only at hready
    have hremaining : recovery.execution.remaining ≠ 0 := by
      intro hzero
      rw [if_pos hzero] at hready
      cases hready
    refine ⟨hfinished, hlargest, ?_, hremaining, ?_, fun i hi => ?_⟩
    · by_contra hne
      exact houtcome (not_or.mp hne)
    · rw [if_neg hremaining]
    · have htoken := forM_mem htokens i hi
      split at htoken
      · cases htoken
      · rename_i token hvalid
        exact ⟨token, hvalid⟩

/-- What the parts of `hermas_saga_recover` have done when it returns a plan. -/
theorem recover_ok {image : Image} {imageFingerprint executionId : UInt64} {workflowId : UInt32}
    {journal tokens : Bytes} {plan : Execution}
    (h : recover image imageFingerprint journal tokens executionId workflowId = .ok plan) :
    ∃ origin recovery, loadSteps image { executionId, workflowId, imageFingerprint } = some origin ∧
      Recovers image origin (Journal.recordsOf (Journal.journalRecords journal) executionId)
        recovery ∧
      recoverPlan image tokens recovery = .ok plan := by
  unfold recover at h
  split at h
  · cases h
  split at h
  · cases h
  rename_i hscan
  split at h
  · cases h
  split at h
  · cases h
  rename_i origin hload
  rw [bind_ok] at h
  obtain ⟨recovery, hrun, hplan⟩ := h
  obtain ⟨hloaded, -, hsame⟩ := loaded_loadSteps rfl hload
  have hinit : Recovers image origin (Journal.recordsOf [] origin.executionId)
      { execution := origin } := recovers_init image origin hsame.remaining
  have hrecovers := recovers_records (fun i hi => hloaded.ordinal hi) _ Journal.journalRecords_valid hinit
    hrun
  rw [List.nil_append, hsame.executionId] at hrecovers
  exact ⟨origin, recovery, hload, hrecovers, hplan⟩

theorem Step.Declared.of_declaration {step step' : Step} {region : Image.Region}
    (h : step.Declared region) (hsame : step'.declaration = step.declaration) :
    step'.Declared region where
  forwardNode := (congrArg Step.forwardNode hsame).trans h.forwardNode
  compensationAppId := (congrArg Step.compensationAppId hsame).trans h.compensationAppId
  compensationActionId := (congrArg Step.compensationActionId hsame).trans h.compensationActionId
  sourceType := (congrArg Step.sourceType hsame).trans h.sourceType
  destinationType := (congrArg Step.destinationType hsame).trans h.destinationType
  ordinal := (congrArg Step.ordinal hsame).trans h.ordinal

/-- **A ready plan undoes what the journal proves, and can.** The plan that the recovery returns
as ready belongs to an execution that finished as failed with certainty; its steps are the first
ones of the image, exactly those whose success is on record, and each of them has its token. -/
theorem recover_proven {image : Image} {imageFingerprint executionId : UInt64}
    {workflowId : UInt32} {journal tokens : Bytes} {plan : Execution}
    (h : recover image imageFingerprint journal tokens executionId workflowId = .ok plan)
    (hready : plan.state = .ready) :
    Proven image (Journal.recordsOf (Journal.journalRecords journal) executionId)
      (Compensation.records tokens) plan := by
  obtain ⟨origin, recovery, hload, hrecovers, hplan⟩ := recover_ok h
  obtain ⟨hloaded, -, hsame⟩ := loaded_loadSteps rfl hload
  obtain ⟨hfinished, hlargest, hfailed, hremaining, hplanEq, htokens⟩ :=
    recoverPlan_ready hplan hready
  have hremainingEq : plan.remaining = recovery.execution.remaining := by rw [hplanEq]
  have hstepsEq : plan.steps = recovery.execution.steps := by rw [hplanEq]
  have houtcomeEq : plan.originalOutcome = recovery.execution.originalOutcome := by rw [hplanEq]
  have hnextEq : plan.nextRequestId = recovery.largestRequest + 1 := by rw [hplanEq]
  have hplanStep : ∀ n, plan.step n = recovery.execution.step n := fun n => by
    rw [Execution.step, hstepsEq]
    rfl
  have hindex : ∀ n, n < plan.remaining →
      (Fin.ofNat maxSteps n).val = n ∧ n < origin.stepCount := by
    intro n hn
    have hcompleted := hrecovers.completed
    have hbounded := hloaded.bounded
    exact ⟨Nat.mod_eq_of_lt (by omega), by omega⟩
  refine ⟨fun n hn => ?_, ?_, hrecovers.routes, hrecovers.finished.mp hfinished, ?_, ?_, ?_,
    fun n hn => ?_, fun r hr => ?_⟩
  · obtain ⟨hval, hlt⟩ := hindex n hn
    have hregion := List.getElem?_eq_getElem (hloaded.count ▸ hlt)
    obtain ⟨hdeclared, hordinal⟩ := hloaded.declared (Fin.ofNat maxSteps n) _
      (by rw [hval]; exact hregion)
    have hsteps := hrecovers.steps (Fin.ofNat maxSteps n)
    rw [hplanStep]
    refine ⟨_, hregion, hdeclared.of_declaration hsteps, ?_⟩
    rw [hval] at hordinal
    exact (congrArg (fun step => step.ordinal.toNat) hsteps).trans hordinal
  · rw [hrecovers.succeeded, hremainingEq]
    simp only [hplanStep]
  · rw [houtcomeEq]
    exact hrecovers.outcome
  · rw [houtcomeEq]
    exact hfailed
  · intro hunknown
    obtain ⟨r, hr, hkind⟩ := hunknown
    rw [(hrecovers.uncertain r hr hkind).2] at hfailed
    rcases hfailed with hfailed | hfailed <;> cases hfailed
  · obtain ⟨hval, -⟩ := hindex n hn
    obtain ⟨token, htoken⟩ := htokens _ (finRange_take_mem hn (Fin.ofNat maxSteps n) hval)
    exact ⟨token, validateToken_ok htoken⟩
  · have hle := UInt64.le_iff_toNat_le.mp (hrecovers.largest r hr)
    rw [hnextEq, UInt64.lt_iff_toNat_lt]
    have hmax : recovery.largestRequest.toNat + 1 < 2 ^ 64 := by
      have hlt := recovery.largestRequest.toNat_lt
      have hne : recovery.largestRequest.toNat ≠ 2 ^ 64 - 1 := fun heq =>
        hlargest (UInt64.toNat_inj.mp heq)
      omega
    rw [Journal.toNat_succ_sequence hmax]
    omega

/-! ## A saga that failed at its second step -/

/-- Two actions in a row, each with a compensation. -/
def twoStepsLayout : Image.Layout where
  errors := [1]
  contracts := [.of 1, .of 2, .of 3]
  types := [Image.boolType]
  nodes := [.action1 1, .action1 2, .terminal 1, .terminal 2, .terminal 3, .terminal 4]
  edges := [.wire 0 0 1 1, .wire 1 1 1 2, .wire 2 1 2 4, .bare 3 1 5, .bare 4 1 6,
    .wire 1 2 2 3, .wire 2 2 2 4, .bare 3 2 5, .bare 4 2 6]
  regions := [stepRegion 1, outcomeRegion 1, stepRegion 2, outcomeRegion 2]
where
  /-- The step of a node, numbered as the node. -/
  stepRegion (node : Nat) : Image.Region :=
    [3, 0] ++ [node, 1, 3, 1, 1, node, 0].flatMap Image.Layout.u16
  outcomeRegion (node : Nat) : Image.Region :=
    [4, 0] ++ [node, 1, 1, 0, 0, 0, 0].flatMap Image.Layout.u16

set_option maxRecDepth 20000 in
theorem twoSteps_valid : (Image.imageValidate twoStepsLayout.encode).toOption.isSome = true := by
  decide +kernel

def twoSteps : Image := twoStepsLayout.image twoSteps_valid

/-- The first step succeeds, the second returns an error. -/
def secondFailedFile : Bytes := Journal.journalFile
  [ { kind := .executionStarted, outcome := .none, executionId := 1, workflowId := 1,
      imageFingerprint := 7 },
    delivery .deliveryPrepared .none 1, delivery .deliverySent .none 1,
    delivery .actionSucceeded .success 1,
    delivery .deliveryPrepared .none 2, delivery .deliverySent .none 2,
    delivery .actionFailed .appError 2,
    { kind := .executionFinished, outcome := .appError, executionId := 1, workflowId := 1,
      imageFingerprint := 7 } ]
where
  /-- A record about the request that the node of the same number gets. -/
  delivery (kind : Journal.Kind) (outcome : Outcome) (number : UInt16) : Journal.Record :=
    { kind, outcome, executionId := 1, workflowId := 1, requestId := number.toUInt64,
      nodeId := number, appId := 1, actionId := number, imageFingerprint := 7 }

/-- The token of the first step. -/
def firstTokenFile : Bytes :=
  match Compensation.Writer.append { nextSequence := 1 }
      { key := ⟨1, 1, 1, 1, 7⟩, compensationAppId := 1, compensationActionId := 3,
        sourceType := 1, destinationType := 1, token := [1] } Protocol.maxPayloadSize with
  | .ok writer => writer.file
  | .error _ => []

set_option maxRecDepth 20000 in
theorem recover_proven_twoSteps :
    ∃ plan, recover twoSteps 7 secondFailedFile firstTokenFile 1 1 = .ok plan ∧
      plan.remaining = 1 ∧ plan.nextRequestId = 3 ∧
      Proven twoSteps (Journal.recordsOf (Journal.journalRecords secondFailedFile) 1)
        (Compensation.records firstTokenFile) plan := by
  have hrun : (recover twoSteps 7 secondFailedFile firstTokenFile 1 1).toOption.map
      (fun plan => (plan.state, plan.remaining, plan.nextRequestId)) =
        some (.ready, 1, 3) := by
    decide +kernel
  cases h : recover twoSteps 7 secondFailedFile firstTokenFile 1 1 with
  | error e =>
      rw [h] at hrun
      cases hrun
  | ok plan =>
      rw [h] at hrun
      simp only [Except.toOption, Option.map_some, Option.some.injEq, Prod.mk.injEq] at hrun
      obtain ⟨hready, hremaining, hnext⟩ := hrun
      exact ⟨plan, rfl, hremaining, hnext, recover_proven h hready⟩

end Hermas.Saga
