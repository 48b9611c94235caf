import Hermas.Daemon.Durable
import Hermas.Daemon.Wired
import Hermas.Runtime.Agreement
import Hermas.Runtime.Result

/-!
# Results are durable before they are handed out

Whatever the loop does in between, a client that is given the result of an
execution finds it on record, as long as every execution ends once. Two ways to an
end come by no record: an execution that is complete when it is admitted, and a
delivery that is closed behind the end of its execution. Sequential executions know
neither.
-/

namespace Hermas.Daemon

open Loop (PollItem Event SameButOwned)

/-! ## The loop -/

namespace AtSlot

variable {image : Image} {w w' : AtSlot}

theorem Durable.elsewhere (hd : w.Durable) (hgrown : Grown w.toShared w')
    (hslot : w'.slot = w.slot) : w'.Durable := by
  apply hd.grow hgrown <;> rw [hslot]

theorem Served.elsewhere (hs : w.Served) (hslot : w'.slot = w.slot)
    (hregistry : w'.registry = w.registry) : w'.Served := by
  unfold Served
  rw [hslot, hregistry]
  exact hs

theorem Poised.elsewhere (h : w.Poised) (hgrown : Grown w.toShared w')
    (hslot : w'.slot = w.slot) (hregistry : w'.registry = w.registry) : w'.Poised :=
  ⟨h.durable.elsewhere hgrown hslot, h.served.elsewhere hslot hregistry⟩

/-- A slot that is filled anew: it compensates, or its execution runs and nothing is marked. -/
structure Opening (image : Image) (slot : Slot) : Prop where
  grouped : slot.group.isSome = true → grouped image = true
  begun : slot.compensating = true → ¬ slot.Uncompensated
  running : slot.Uncompensated →
    slot.complete = false ∧ slot.journalFinished = false ∧ slot.resultStored = false

theorem Opening.durable (h : Opening image w.slot) : w.Durable :=
  ⟨h.begun, fun hu => told_of_running (h.running hu).1 (h.running hu).2⟩

/-- The slot of an execution that is admitted and runs. -/
theorem opening_admitted {slot : Slot} (hgrouped : slot.group.isSome = true → grouped image = true)
    (hplain : slot.compensating = false) (hrunning : slot.complete = false)
    (hmarks : slot.journalFinished = false ∧ slot.resultStored = false) : Opening image slot :=
  ⟨hgrouped, fun hc => absurd hc (Bool.eq_false_iff.mp hplain), fun _ => ⟨hrunning, hmarks⟩⟩

theorem opening_empty : Opening image {} :=
  opening_admitted (fun hsome => absurd hsome Bool.false_ne_true) rfl rfl ⟨rfl, rfl⟩

theorem opening_resumed {execution : Saga.Execution} {driver : Saga.Driver}
    {log log' : Saga.Log.Writer} {result : Option ResultStore.Record}
    (hready : execution.state = .ready)
    (h : Saga.Driver.start {} execution log true = (.ok, driver, log')) :
    Opening image (Loop.resumedSlot driver result) := by
  have hbegun : ¬ (Loop.resumedSlot driver result).Uncompensated := by
    intro hu
    have hempty : driver.execution.state = .empty := hu
    rw [Saga.Driver.resume_ok hready h, hready] at hempty
    cases hempty
  exact ⟨fun hsome => absurd hsome Bool.false_ne_true, fun _ => hbegun,
    fun hu => absurd hu hbegun⟩

end AtSlot

namespace Loop

open AtSlot (Grown Poised Durable Opening)

variable {image : Image} {bound : Nat} {loop loop' : Loop} {i : SlotIndex} {w : AtSlot}

/-- What is done at one slot leaves the records of the others. -/
theorem put_durable (hd : ∀ j, (loop.view j).Durable) (hw : w.Durable)
    (hgrown : Grown loop.toShared w) (j : SlotIndex) : ((loop.put i w).view j).Durable := by
  by_cases hj : j = i
  · subst hj
    rw [put_view]
    exact hw
  · exact (hd j).elsewhere hgrown (put_slots_of_ne _ _ hj)

theorem put_poised (hd : ∀ j, (loop.view j).Poised) (hw : w.Poised)
    (hgrown : Grown loop.toShared w) (hregistry : w.registry = loop.registry) (j : SlotIndex) :
    ((loop.put i w).view j).Poised := by
  by_cases hj : j = i
  · subst hj
    rw [put_view]
    exact hw
  · exact (hd j).elsewhere hgrown (put_slots_of_ne _ _ hj) hregistry

/-- What a poll does before it assigns actions. -/
theorem onSlots_poised {call : AtSlot → Call LoopResult AtSlot}
    (hgrown : ∀ {s : Daemon.Shared} {w}, Grown s w → (call w).Keeps (Grown s))
    (hregistry : ∀ {w w'}, call w = some (.ok, w') → w'.registry = w.registry)
    (hpoised : ∀ {w w'}, w.Poised → call w = some (.ok, w') → w'.Poised)
    (slots : List SlotIndex) (h : Call.each (fun i => onSlot i call) slots loop =
      some (.ok, loop')) (hd : ∀ j, (loop.view j).Poised) (j : SlotIndex) :
    (loop'.view j).Poised := by
  refine Call.each_rel (R := fun l l' : Loop => (∀ j, (l.view j).Poised) →
    ∀ j, (l'.view j).Poised) (fun _ => id) (fun hlm hmn hl => hmn (hlm hl))
    (fun i l l' hslot hl => ?_) slots h hd j
  obtain ⟨w, hw, rfl⟩ := onSlot_some hslot
  have hlogs : Grown l.toShared (l.view i) := Shared.Grows.refl l.toShared
  exact put_poised hl (hpoised (hl i) hw) (hgrown hlogs _ _ hw) (hregistry hw)

theorem SameButOwned.durable (h : SameButOwned loop loop') (hd : (loop.view i).Durable) :
    (loop'.view i).Durable := by
  obtain ⟨owns, hslot⟩ := h.slots i
  have hgrown : Grown loop.toShared (loop'.view i) := by
    have hshared : (loop'.view i).toShared = loop.toShared := h.shared
    unfold Grown
    rw [hshared]
    exact Shared.Grows.refl _
  have hview : (loop'.view i).slot = _ := hslot
  apply hd.grow hgrown <;> rw [hview] <;> rfl

/-- A poll that finds a connection for what is out of complete executions begins with their ends
on record, and so it goes on. -/
theorem beginPoll_durable (h : loop.beginPoll image bound = some (.ok, loop'))
    (hd : ∀ j, (loop.view j).Durable) (hserved : ∀ j, (loop.view j).Served) (j : SlotIndex) :
    (loop'.view j).Durable := by
  obtain ⟨prepared, reconciled, hprepare, hreconcile, hassign⟩ := beginPoll_stages h
  have hstart : ∀ j, (({ loop with progress := 0 } : Loop).view j).Poised := by
    intro j
    have hpoised : (loop.view j).Poised := ⟨hd j, hserved j⟩
    exact hpoised.elsewhere ⟨rfl, rfl, List.prefix_refl _, List.prefix_refl _⟩ rfl rfl
  have hprepared := onSlots_poised (fun hg => hg.prepareSlot)
    (fun hw => (AtSlot.prepareSlot_passes hw).registry)
    (fun hw hcall => AtSlot.prepareSlot_poised hw hcall) _ hprepare hstart
  have hreconciled := onSlots_poised (fun hg => hg.reconcileSlot)
    (fun hw => (AtSlot.reconcileSlot_passes hw).registry)
    (fun hw hcall => AtSlot.reconcileSlot_poised hw hcall) _ hreconcile hprepared
  rw [hassign]
  exact (assignAvailableActions_same reconciled).durable (hreconciled j).durable

/-- The logs have only grown, and at most one slot is filled anew. -/
def Opens (image : Image) (loop loop' : Loop) : Prop :=
  loop.Grows loop'.toShared ∧ (loop'.slots = loop.slots ∨
    ∃ i slot, Opening image slot ∧ loop'.slots = Function.update loop.slots i slot)

theorem Opens.grouped (h : Opens image loop loop')
    (hg : ∀ j, (loop.slots j).group.isSome = true → grouped image = true) (j : SlotIndex)
    (hsome : (loop'.slots j).group.isSome = true) : grouped image = true := by
  obtain ⟨-, hslots | ⟨i, slot, hslot, hslots⟩⟩ := h
  · exact hg j (by rwa [hslots] at hsome)
  · rw [hslots] at hsome
    by_cases hj : j = i
    · subst hj
      rw [Function.update_self] at hsome
      exact hslot.grouped hsome
    · rw [Function.update_of_ne hj] at hsome
      exact hg j hsome

theorem Opens.durable (h : Opens image loop loop') (hd : ∀ j, (loop.view j).Durable) (j : SlotIndex) :
    (loop'.view j).Durable := by
  obtain ⟨hgrows, hslots | ⟨i, slot, hslot, hslots⟩⟩ := h
  · exact (hd j).elsewhere hgrows (congrFun hslots j)
  · have hview := congrFun hslots j
    by_cases hj : j = i
    · subst hj
      rw [Function.update_self] at hview
      have hopening : Opening image (loop'.view j).slot := by
        have hsame : (loop'.view j).slot = slot := hview
        rw [hsame]
        exact hslot
      exact hopening.durable
    · rw [Function.update_of_ne hj] at hview
      exact (hd j).elsewhere hgrows hview

theorem opens_refl (loop : Loop) : Opens image loop loop := ⟨Shared.Grows.refl _, .inl rfl⟩

theorem opens_cleared (loop : Loop) (i : SlotIndex) :
    Opens image loop { loop with slots := Function.update loop.slots i {} } :=
  ⟨Shared.Grows.refl _, .inr ⟨i, {}, AtSlot.opening_empty, rfl⟩⟩

theorem opens_admitSlot {slot : Slot} {used : Fin maxGroupExecutions → Bool} {r : LoopResult}
    (hgrouped : slot.group.isSome = true → grouped image = true)
    (hslot : slot.compensating = false ∧ slot.complete = false ∧ slot.journalFinished = false ∧
      slot.resultStored = false) (h : loop.admitSlot i slot used = some (r, loop')) :
    Opens image loop loop' := by
  obtain ⟨hplain, hrunning, hmarks⟩ := hslot
  unfold admitSlot at h
  split at h
  · cases h
  · rename_i w hw
    obtain ⟨journal, happend, rfl⟩ := AtSlot.journalRecord_ok hw
    cases h
    exact ⟨⟨rfl, rfl, (appended_decodes happend).1, List.prefix_refl _⟩,
      .inr ⟨i, { slot with active := true }, AtSlot.opening_admitted hgrouped hplain hrunning hmarks,
        rfl⟩⟩
  · cases h
    exact opens_cleared loop i

theorem opens_admitExecution {executionId : UInt64} {inputType : UInt16} {input : Bytes}
    {r : LoopResult} (hgroup : grouped image = true → ∀ group,
      GroupExecution.start image bound executionId (maxFlows * Protocol.maxPayloadSize)
        Protocol.maxPayloadSize inputType input = some (.ok group) → group.complete = false)
    (h : loop.admitExecution image bound executionId inputType input = some (r, loop')) :
    Opens image loop loop' := by
  unfold admitExecution at h
  split at h
  · cases h; exact opens_refl loop
  split at h
  · cases h; exact opens_refl loop
  split at h
  · cases h; exact opens_refl loop
  split at h
  · cases h; exact opens_refl loop
  rename_i i _
  simp only at h
  split at h
  · rename_i hgrouped
    split at h
    · cases h; exact opens_cleared loop i
    · split at h
      · cases h
      · cases h; exact opens_cleared loop i
      · rename_i hstart
        refine opens_admitSlot (fun _ => hgrouped) ⟨rfl, ?_, rfl, rfl⟩ h
        exact hgroup hgrouped _ hstart
  · split at h
    · cases h; exact opens_cleared loop i
    · rename_i hstart
      refine opens_admitSlot ?_ ⟨rfl, ?_, rfl, rfl⟩ h
      · exact fun hsome => absurd hsome Bool.false_ne_true
      · simp [Slot.complete, (Execution.start_ready hstart).1]

theorem opens_release {executionId : UInt64} {r : LoopResult}
    (h : loop.release executionId = some (r, loop')) : Opens image loop loop' := by
  unfold release at h
  split at h
  · cases h; exact opens_refl loop
  split at h
  · cases h; exact opens_refl loop
  rename_i i _
  simp only at h
  split at h
  · cases h; exact opens_refl loop
  · cases h
    exact ⟨Shared.Grows.refl _, .inr ⟨i, {}, AtSlot.opening_empty, rfl⟩⟩

theorem opens_resumeSaga {execution : Saga.Execution} {r : LoopResult}
    (h : loop.resumeSaga image execution = some (r, loop')) : Opens image loop loop' := by
  unfold resumeSaga at h
  split at h
  · cases h; exact opens_refl loop
  rename_i hopen
  simp only [not_or, not_not] at hopen
  split at h
  · cases h; exact opens_refl loop
  rename_i i _
  simp only at h
  split at h
  · rename_i driver log hstart
    have hresumed : ∀ result, Opens image loop
        { loop with slots := Function.update loop.slots i (resumedSlot driver result) } :=
      fun result => ⟨Shared.Grows.refl _, .inr ⟨i, _, AtSlot.opening_resumed hopen.1 hstart, rfl⟩⟩
    split at h
    · split at h
      · cases h; exact opens_cleared loop i
      · cases h; exact hresumed _
    · cases h; exact hresumed _
  · cases h; exact opens_cleared loop i

theorem serveSlot_durable {event : Event} {w' : AtSlot} (hd : w.Durable) (hgroup : w.slot.group = none)
    (h : serveSlot image event w = some (.ok, w')) : w'.Durable := by
  unfold serveSlot at h
  split at h
  · exact (AtSlot.sendInvocation_ok h).durable hd hgroup
  split at h
  · exact (AtSlot.receiveResult_ok h).durable hd hgroup
  split at h
  · split at h
    · exact (AtSlot.sendInvocation_ok h).durable hd hgroup
    · exact (AtSlot.receiveResult_ok h).durable hd hgroup
  · cases h; exact hd

end Loop

/-! ## Every run -/

namespace Host

open Loop

variable {image : Image} {host host' : Host} {item : PollItem} {rest : List PollItem}

/-- No execution is complete as soon as it is admitted, and no delivery of an execution that is
complete is closed. -/
def EndsOnce (image : Image) (host : Host) : Move → Prop
  | .admission executionId inputType input => grouped image = true → ∀ bound group,
      GroupExecution.start image bound executionId (maxFlows * Protocol.maxPayloadSize)
        Protocol.maxPayloadSize inputType input = some (.ok group) → group.complete = false
  | .beginPoll => ∀ i, (host.view i).Served
  | .serve event => ∀ item rest flow, host.pending = item :: rest → item.flow = some flow →
      (host.slots item.slot).complete = true → ¬ (host.view item.slot).Closes event flow
  | _ => True

/-- Every slot has its end on record; what is polled as a slot is one. -/
structure Recorded (image : Image) (host : Host) : Prop where
  durable : ∀ i, (host.view i).Durable
  plain : ∀ item ∈ host.pending, item.flow = none → (host.slots item.slot).group = none
  grouped : ∀ i, (host.slots i).group.isSome = true → grouped image = true

theorem Recorded.between (h : Recorded image host) (hp : host.pending = []) {loop : Loop}
    (ho : Opens image host.toLoop loop) :
    Recorded image { host with
      toLoop := loop, outstanding := host.stillOutstanding loop none } := by
  refine ⟨ho.durable h.durable, fun item hitem => ?_, ho.grouped h.grouped⟩
  have hmem : item ∈ host.pending := hitem
  rw [hp] at hmem
  cases hmem

theorem Recorded.serve (h : Recorded image host) (hp : host.pending = item :: rest) {bound : Nat}
    {event : Event} {loop : Loop} (hc : EndsOnce image host (.serve event))
    (hserve : host.toLoop.serve image bound item event = some (.ok, loop))
    {out : PollItem → Bool} {sent : PollItem → Nat} :
    Recorded image
      { host with toLoop := loop, pending := rest, outstanding := out, sentOn := sent } := by
  obtain ⟨w, rfl, hw⟩ := serve_some hserve
  have hlogs : AtSlot.Grown host.toShared (host.view item.slot) := Shared.Grows.refl host.toShared
  have hserved : w.Durable ∧ AtSlot.Grown host.toShared w ∧
      Slot.Frees (host.slots item.slot) w.slot := by
    rcases hw with ⟨flow, hflow, hw⟩ | ⟨hflow, hw⟩
    · exact ⟨AtSlot.serveFlow_durable (h.durable item.slot) (hc item rest flow hp hflow) hw,
        grown_serveFlow hlogs _ _ hw, serveFlow_frees hw⟩
    · have hplain := h.plain item (by rw [hp]; exact List.mem_cons_self) hflow
      exact ⟨serveSlot_durable (h.durable item.slot) hplain hw, grown_serveSlot hlogs _ _ hw,
        serveSlot_frees hw⟩
  obtain ⟨hdurable, hgrown, hfrees⟩ := hserved
  have hgroups : ∀ i, ((host.toLoop.put item.slot w).slots i).group.isSome =
      (host.slots i).group.isSome := by
    intro i
    by_cases hslot : i = item.slot
    · subst hslot
      rw [put_slots_self]
      exact hfrees.grouped
    · rw [put_slots_of_ne _ _ hslot]
  refine ⟨put_durable h.durable hdurable hgrown, fun other hother hnone => ?_,
    fun i hsome => h.grouped i ((hgroups i).symm.trans hsome)⟩
  have hbefore := h.plain other (by rw [hp]; exact List.mem_cons_of_mem _ hother) hnone
  have hafter := hgroups other.slot
  rw [hbefore] at hafter
  simpa using hafter

theorem recorded_init (h : Opened image host) : Recorded image host := by
  refine ⟨fun i => ?_, fun item hitem => ?_, fun i hsome => ?_⟩
  · have hslot : (host.view i).slot = {} := congrFun h.slots i
    have hopening : AtSlot.Opening image (host.view i).slot := by
      rw [hslot]
      exact AtSlot.opening_empty
    exact hopening.durable
  · rw [h.pending] at hitem
    cases hitem
  · rw [h.slots] at hsome
    cases hsome

theorem recorded_step {move : Move} (h : Recorded image host)
    (htidy : ∀ i, (host.slots i).Tidy) (hc : EndsOnce image host move)
    (hm : Performs image host move host') : Recorded image host' := by
  obtain ⟨bound, hm⟩ := hm
  cases move with
  | admission executionId inputType input =>
      obtain ⟨hp, r, loop, hcall, rfl⟩ := between_some hm
      exact h.between hp (opens_admitExecution (fun hg => hc hg bound) hcall)
  | release executionId =>
      obtain ⟨hp, r, loop, hcall, rfl⟩ := between_some hm
      exact h.between hp (opens_release hcall)
  | resumeSaga execution =>
      obtain ⟨hp, r, loop, hcall, rfl⟩ := between_some hm
      exact h.between hp (opens_resumeSaga hcall)
  | publish index registeredActionId =>
      simp only [perform] at hm
      split at hm
      · cases hm
        exact ⟨fun i => (h.durable i).elsewhere
          ⟨rfl, rfl, List.prefix_refl _, List.prefix_refl _⟩ rfl, h.plain, h.grouped⟩
      · cases hm
  | beginPoll =>
      simp only [perform] at hm
      split at hm
      · split at hm
        · rename_i loop hbegin
          cases hm
          refine ⟨beginPoll_durable hbegin h.durable hc,
            fun item hitem hnone => (mem_collectItems hitem).2.2.mp hnone, fun i hsome => ?_⟩
          obtain ⟨loop₁, hrenews, hassign⟩ := beginPoll_ok htidy hbegin
          obtain ⟨owns, hslot⟩ := (assignAvailableActions_same loop₁).slots i
          refine h.grouped i ((hrenews i).grouped.symm.trans ?_)
          simp only [hassign] at hsome
          rw [hslot] at hsome
          exact hsome
        · cases hm
      · cases hm
  | serve event =>
      simp only [perform] at hm
      split at hm
      · cases hm
      rename_i item rest hp
      split at hm
      · rename_i loop hserve
        cases hm
        exact h.serve hp hc hserve
      · cases hm

theorem recorded_reachable (h : (system image).ReachWhere (EndsOnce image) host) :
    Recorded image host := by
  have hboth : host.SingleFlight ∧ Recorded image host := by
    refine h.invariant (P := fun host => host.SingleFlight ∧ Recorded image host)
      (fun _ hinit => ⟨singleFlight_init hinit, recorded_init hinit⟩) fun _ _ _ hs hc hstep => ?_
    exact ⟨singleFlight_step hs.1 hstep, recorded_step hs.2 hs.1.exclusive.tidy hc hstep⟩
  exact hboth.2

/-- On an image without forks and each regions every execution ends once. -/
theorem reachWhere_of_plain (hplain : grouped image = false) (h : (system image).Reach host) :
    (system image).ReachWhere (EndsOnce image) host := by
  have hnone : ∀ {host : Host}, Recorded image host → ∀ i, (host.slots i).group = none := by
    intro host hr i
    rw [← Option.not_isSome_iff_eq_none]
    intro hsome
    rw [hr.grouped i hsome] at hplain
    cases hplain
  induction h with
  | init hinit => exact .init hinit
  | @step host host' move _ _ hstep ih =>
      refine .step ih ?_ hstep
      have hrecorded := recorded_reachable ih
      cases move with
      | admission executionId inputType input =>
          intro hgrouped
          rw [hplain] at hgrouped
          cases hgrouped
      | beginPoll => exact fun i => AtSlot.served_of_none (hnone hrecorded i)
      | serve event =>
          intro item rest flow hp hflow hcomplete
          rintro ⟨group, hgroup, -⟩
          have hsome : (host.slots item.slot).group = some group := hgroup
          rw [hnone hrecorded] at hsome
          cases hsome
      | _ => trivial

/-- **Results are durable before they are handed out.** In every run in which every execution ends
once: when a client is given the result of an execution that never compensated, the journal says
that it finished with this outcome, and the store has its value, if it is typed. -/
theorem results_durable (h : (system image).ReachWhere (EndsOnce image) host)
    {executionId : UInt64} {i : SlotIndex} {final : Frame}
    (hfind : host.findExecution executionId = some i)
    (hplain : (host.slots i).Uncompensated)
    (hresult : host.toLoop.result executionId = .ok final) :
    final.executionId = executionId ∧ host.Finished final ∧
      (Execution.typedOutcome final.outcome = true → host.Stored final) := by
  have hdurable := (recorded_reachable h).durable i
  have hfinal : (host.view i).finalResult = .ok final := by
    unfold Loop.result at hresult
    split at hresult
    · cases hresult
    rw [hfind] at hresult
    simp only at hresult
    split at hresult
    · cases hresult
    cases hcall : (host.view i).finalResult with
    | error e => rw [hcall] at hresult; cases hresult
    | ok frame => rw [hcall] at hresult; cases hresult; rfl
  have htold := hdurable.told hplain
  have hid : (host.slots i).executionId = executionId := by
    have hmatch := firstIndex_some hfind
    rw [Bool.and_eq_true, beq_iff_eq] at hmatch
    exact hmatch.2
  exact ⟨(AtSlot.finalResult_ok hfinal).2.trans hid, htold.finished final hfinal,
    htold.stored final hfinal⟩

/-- The app answers a request of the first execution with a flag. -/
def flagAnswer (requestId : UInt64) (actionId : UInt16) (outcome : Outcome) (flag : UInt8) :
    Event where
  pollIn := true
  received := .packet ((Protocol.encode
    { kind := .result, executionId := 1, requestId, appId := 1, actionId
      sourceType := 1, destinationType := 1, outcome, payload := [flag] }
    Protocol.maxPacketSize).toOption.getD [])

/-- One action answers, and the client is given its value. -/
def answered : List Move :=
  [.publish 0 1, .admission 1 1 [1], .beginPoll, .serve { pollOut := true }, .beginPoll,
    .serve (flagAnswer 1 1 .success 1)]

set_option maxRecDepth 20000 in
theorem results_durable_answered : ∃ host final,
    (system oneAction).ReachWhere (EndsOnce oneAction) host ∧
      host.toLoop.result 1 = .ok final ∧ final.payload = [1] ∧
      final.executionId = 1 ∧ host.Finished final ∧
      (Execution.typedOutcome final.outcome = true → host.Stored final) := by
  have hall : ((fresh oneAction).performAll oneAction 10 answered).any (fun host =>
      host.findExecution 1 == some ⟨0, by decide⟩ &&
        (host.slots ⟨0, by decide⟩).saga.execution.state == .empty &&
        (host.toLoop.result 1).toOption.any fun final => final.payload == [1]) = true := by
    decide +kernel
  simp only [Option.any_eq_true, Bool.and_eq_true, beq_iff_eq] at hall
  obtain ⟨host, hhost, ⟨hfind, hplain⟩, final, hresult, hpayload⟩ := hall
  have hreach := reachWhere_of_plain (by decide +kernel)
    (reach_performAll answered (.init (opened_fresh (by decide +kernel))) hhost)
  have hok := ok_of_toOption hresult
  obtain ⟨hid, hfinished, hstored⟩ := results_durable hreach hfind hplain hok
  exact ⟨host, final, hreach, hok, hpayload, hid, hfinished, hstored⟩

/-! ### The ends that are not on record -/

/-- No record of the journal says that the execution finished this way. -/
def unfinished (s : Daemon.Shared) (final : Frame) : Bool :=
  s.journal.written.all fun bytes => (Journal.decode bytes).toOption.all fun record =>
    record.kind != .executionFinished || record.outcome != final.outcome

theorem not_finished {s : Daemon.Shared} {final : Frame} (h : unfinished s final = true) :
    ¬ s.Finished final := by
  rintro ⟨bytes, hmem, record, hdecode, hkind, -, -, -, houtcome⟩
  have hrecord := List.all_eq_true.mp h bytes hmem
  rw [hdecode] at hrecord
  simp [Except.toOption, hkind, houtcome] at hrecord

/-- A run behind which the client is given a result that the journal does not know. -/
theorem early_result {image : Image} {moves : List Move} {i : SlotIndex}
    (hcheck : imageCheck image = .ok) (h : ((fresh image).performAll image 10 moves).any
      (fun host => host.findExecution 1 == some i &&
        (host.slots i).saga.execution.state == .empty &&
        (host.toLoop.result 1).toOption.any fun final => unfinished host.toShared final) = true) :
    ∃ host final, (system image).Reach host ∧ host.findExecution 1 = some i ∧
      (host.slots i).Uncompensated ∧ host.toLoop.result 1 = .ok final ∧ ¬ host.Finished final := by
  simp only [Option.any_eq_true, Bool.and_eq_true, beq_iff_eq] at h
  obtain ⟨host, hhost, ⟨hfind, hplain⟩, final, hresult, hunfinished⟩ := h
  exact ⟨host, final, reach_performAll moves (.init (opened_fresh hcheck)) hhost, hfind, hplain,
    ok_of_toOption hresult, not_finished hunfinished⟩

set_option maxRecDepth 20000 in
/-- An execution on an empty list is complete when it is admitted, and nobody records its end. -/
theorem early_result_emptyList : ∃ host i final, (system GroupExecution.eachImage).Reach host ∧
    host.findExecution 1 = some i ∧ (host.slots i).Uncompensated ∧
    host.toLoop.result 1 = .ok final ∧ ¬ host.Finished final := by
  obtain ⟨host, final, hearly⟩ := @early_result GroupExecution.eachImage
    [.admission 1 2 [0, 0, 0, 0, 0, 0, 0, 0]] ⟨0, by decide⟩ (by decide +kernel)
    (by decide +kernel)
  exact ⟨host, _, final, hearly⟩

/-- `b` fails and then `a` succeeds, which is followed by `c` and `d`. With the success of `c` the
execution is complete although `d` is prepared; `d` is sent and loses its connection. -/
def lateLoss : List Move :=
  [.publish 0 1, .publish 1 2, .publish 2 3, .publish 3 4, .admission 1 1 [1],
    .beginPoll, .serve { pollOut := true }, .serve { pollOut := true },
    .beginPoll, .serve {}, .serve (flagAnswer 2 2 .appError 0),
    .beginPoll, .serve (flagAnswer 1 1 .success 1),
    .beginPoll, .serve { pollOut := true }, .serve {},
    .beginPoll, .serve (flagAnswer 3 3 .success 1), .serve { pollOut := true },
    .beginPoll, .serve { fault := true, received := .failed }]

set_option maxRecDepth 20000 in
/-- A delivery that is closed behind the end changes a result that is on record. -/
theorem early_result_lateLoss : ∃ host i final, (system GroupExecution.nestedFork).Reach host ∧
    host.findExecution 1 = some i ∧ (host.slots i).Uncompensated ∧
    host.toLoop.result 1 = .ok final ∧ ¬ host.Finished final := by
  obtain ⟨host, final, hearly⟩ := @early_result GroupExecution.nestedFork lateLoss ⟨0, by decide⟩
    (by decide +kernel) (by decide +kernel)
  exact ⟨host, _, final, hearly⟩

end Host

end Hermas.Daemon
