import Hermas.Daemon.Turns

/-!
# Every result can be shown

A typed result goes into the result store before its execution is left alone, and an outcome
without a value fits into any packet. So on an image without groups, as long as the polls
succeed, the control server never meets a result that it cannot encode, and none of its
steps ends in a state error.
-/

namespace Hermas.Daemon

open Loop (PollItem Event Admits Frees Idles)

/-- A sequential slot; its result can be shown, and is marked behind the end only. -/
structure Slot.Presents (slot : Slot) : Prop where
  group : slot.group = none
  result : slot.execution.Presentable
  running : slot.execution.state ≠ .complete → slot.Unmarked

theorem Slot.Spares.presents {slot slot' : Slot} (h : slot.Spares slot') (hs : slot.Presents) :
    slot'.Presents where
  group := h.group.trans hs.group
  result := h.execution ▸ hs.result
  running := by
    intro hrunning
    rw [h.execution] at hrunning
    obtain ⟨hfinished, hstored⟩ := hs.running hrunning
    exact ⟨h.finished.trans hfinished, h.stored.trans hstored⟩

namespace AtSlot

variable {w w' : AtSlot}

/-- A compensation that fails leaves an outcome without a value. -/
theorem presents_failed (outcome : Outcome) (h : w.slot.Presents) :
    (w.failCompensation outcome).slot.Presents where
  group := h.group
  result := by
    intro _
    show (if outcome = .notSent then Outcome.notSent else .unknown) = .notSent ∨
      (if outcome = .notSent then Outcome.notSent else .unknown) = .unknown ∨ _
    by_cases hnot : outcome = .notSent
    · rw [if_pos hnot]
      exact .inl rfl
    · rw [if_neg hnot]
      exact .inr (.inl rfl)
  running := h.running

theorem Turn.presents (h : Turn w w') (hw : w.slot.Presents) : w'.slot.Presents := by
  cases h with
  | spares spared => exact spared.presents hw
  | fails outcome failed => exact failed.presents (presents_failed outcome hw)
  | runs group finished stored before behind =>
      obtain ⟨hfinished, hstored⟩ := hw.running before
      exact ⟨group.trans hw.group, Execution.presentable_running behind,
        fun _ => ⟨finished.trans hfinished, stored.trans hstored⟩⟩
  | settles running settled =>
      have hmarks := hw.running running
      refine ⟨settled.group, settled.presentable hmarks, fun hrunning => ?_⟩
      refine (settled.told hmarks).running ?_
      unfold Slot.complete
      rw [settled.group]
      simpa using hrunning

end AtSlot

theorem Slot.presents_empty : Slot.Presents {} :=
  ⟨rfl, Execution.presentable_running ExecutionState.noConfusion, fun _ => ⟨rfl, rfl⟩⟩

namespace Loop

variable {image : Image} {bound : Nat} {loop loop' : Loop} {r : LoopResult}

/-- Every result of the loop can be shown. -/
def Presents (loop : Loop) : Prop := ∀ i, (loop.slots i).Presents

/-- What holds of every go of one slot, and of what leaves all results alone, holds of a poll. -/
theorem poll_rel {R : Loop → Loop → Prop} {events : PollItem → Event}
    (htrans : ∀ {l m n : Loop}, R l m → R m n → R l n)
    (hspares : ∀ {l l' : Loop}, (∀ i, (l.slots i).Spares (l'.slots i)) → l.Grows l'.toShared → R l l')
    (hgo : ∀ {l : Loop} {i : SlotIndex} {w : AtSlot},
      ((l.slots i).group = none → AtSlot.Turn (l.view i) w) → l.Grows w.toShared → R l (l.put i w))
    (h : loop.poll image bound events = some (.ok, loop')) : R loop loop' := by
  have hrefl : ∀ l : Loop, R l l :=
    fun l => hspares (fun _ => ⟨rfl, rfl, rfl, rfl⟩) (Shared.Grows.refl l.toShared)
  rw [poll_eq] at h
  obtain ⟨begun, hbegin, hserve⟩ := Call.andThen_ok h
  obtain ⟨prepared, reconciled, hprepare, hreconcile, hassign⟩ := beginPoll_stages hbegin
  have hstart : R loop { loop with progress := 0 } :=
    hspares (fun _ => ⟨rfl, rfl, rfl, rfl⟩) (Shared.Grows.refl loop.toShared)
  have hprepared : R { loop with progress := 0 } prepared := by
    refine Call.each_rel hrefl htrans (fun i l l' hslot => ?_) _ hprepare
    obtain ⟨w, hw, rfl⟩ := onSlot_some hslot
    have hlogs : AtSlot.Grown l.toShared (l.view i) := Shared.Grows.refl l.toShared
    exact hgo (fun hgroup => AtSlot.prepareSlot_turn hgroup hw) (hlogs.prepareSlot _ _ hw)
  have hcursor : R prepared { prepared with
      schedulerCursor := (prepared.schedulerCursor + 1) % maxExecutions } :=
    hspares (fun _ => ⟨rfl, rfl, rfl, rfl⟩) (Shared.Grows.refl prepared.toShared)
  have hreconciled : R { prepared with
      schedulerCursor := (prepared.schedulerCursor + 1) % maxExecutions } reconciled := by
    refine Call.each_rel hrefl htrans (fun i l l' hslot => ?_) _ hreconcile
    obtain ⟨w, hw, rfl⟩ := onSlot_some hslot
    have hlogs : AtSlot.Grown l.toShared (l.view i) := Shared.Grows.refl l.toShared
    exact hgo (fun hgroup => AtSlot.reconcileSlot_turn hgroup hw) (hlogs.reconcileSlot _ _ hw)
  -- who owns an action is nothing to a result
  have hassigned : R reconciled begun := by
    rw [hassign]
    have hsame := assignAvailableActions_same reconciled
    have hlogs : reconciled.Grows reconciled.assignAvailableActions.toShared := by
      rw [hsame.shared]
      exact Shared.Grows.refl reconciled.toShared
    refine hspares (fun i => ?_) hlogs
    obtain ⟨owns, hslot⟩ := hsame.slots i
    rw [hslot]
    exact ⟨rfl, rfl, rfl, rfl⟩
  have hserved : R begun loop' := by
    refine Call.each_rel hrefl htrans (fun item l l' hitem => ?_) _ hserve
    obtain ⟨w, rfl, hw⟩ := serve_some hitem
    have hlogs : AtSlot.Grown l.toShared (l.view item.slot) := Shared.Grows.refl l.toShared
    rcases hw with ⟨flow, -, hw⟩ | ⟨-, hw⟩
    · exact hgo (fun hgroup => AtSlot.serveFlow_turn hgroup hw) (grown_serveFlow hlogs _ _ hw)
    · exact hgo (fun hgroup => AtSlot.serveSlot_turn hgroup hw) (grown_serveSlot hlogs _ _ hw)
  exact htrans (htrans (htrans hstart hprepared) (htrans hcursor hreconciled))
    (htrans hassigned hserved)

theorem Presents.put {i : SlotIndex} {w : AtSlot} (hp : loop.Presents)
    (hturn : (loop.slots i).group = none → AtSlot.Turn (loop.view i) w) : (loop.put i w).Presents := by
  intro j
  by_cases hj : j = i
  · rw [hj, put_slots_self]
    exact (hturn (hp i).group).presents (hp i)
  · rw [put_slots_of_ne _ _ hj]
    exact hp j

/-- A poll stores a typed result before it leaves the execution alone. -/
theorem poll_presents {events : PollItem → Event}
    (h : loop.poll image bound events = some (.ok, loop')) (hp : loop.Presents) :
    loop'.Presents :=
  poll_rel (R := fun l l' : Loop => l.Presents → l'.Presents) (fun h h' hl => h' (h hl))
    (fun hspares _ hl i => (hspares i).presents (hl i)) (fun hturn _ hl => hl.put hturn) h hp

theorem Presents.idles (hp : loop.Presents) (hi : Idles loop loop') : loop'.Presents := by
  intro i
  rcases hi i with hsame | ⟨-, hempty⟩
  · rw [hsame]
    exact hp i
  · rw [hempty]
    exact Slot.presents_empty

theorem Presents.frees {executionId : UInt64} {i : SlotIndex} (hp : loop.Presents)
    (hf : Frees loop loop' executionId i) : loop'.Presents := by
  intro j
  by_cases hj : j = i
  · rw [hj, hf.empty]
    exact Slot.presents_empty
  · rw [hf.others j hj]
    exact hp j

/-- On an image without groups, an execution that is admitted runs, and nothing is stored of it. -/
theorem admission_presents {executionId : UInt64} {inputType : UInt16} {input : Bytes}
    (hplain : grouped image = false)
    (h : loop.admitExecution image bound executionId inputType input = some (r, loop'))
    (hp : loop.Presents) : loop'.Presents := by
  have hgroup : grouped image = true → ∀ group,
      GroupExecution.start image bound executionId (maxFlows * Protocol.maxPayloadSize)
        Protocol.maxPayloadSize inputType input = some (.ok group) → group.complete = false := by
    intro hgrouped
    rw [hplain] at hgrouped
    cases hgrouped
  obtain ⟨-, hopens⟩ := opens_admitExecution hgroup h
  rcases admitExecution_cases h with ⟨-, i, hadmits⟩ | ⟨-, hidles, -⟩
  · intro j
    by_cases hj : j = i
    · subst hj
      rcases hopens with hsame | ⟨k, slot, hslot, hslots⟩
      · rw [hsame]
        exact hp j
      · by_cases hk : j = k
        · subst hk
          have hself : loop'.slots j = slot := by rw [hslots, Function.update_self]
          rw [hself]
          have hopen : slot.Uncompensated := by
            have hfresh := hadmits.fresh
            rw [hself] at hfresh
            exact not_not.mp hfresh
          obtain ⟨hrunning, hmarks⟩ := hslot.running hopen
          have hnone : slot.group = none := by
            by_contra hsome
            have hgrouped := hslot.grouped (Option.isSome_iff_ne_none.mpr hsome)
            rw [hplain] at hgrouped
            cases hgrouped
          refine ⟨hnone, Execution.presentable_running fun hcomplete => ?_, fun _ => hmarks⟩
          rw [Slot.complete, hnone] at hrunning
          simp [hcomplete] at hrunning
        · rw [hslots, Function.update_of_ne hk]
          exact hp j
    · rw [hadmits.others j hj]
      exact hp j
  · exact hp.idles hidles

/-- A stored result is one that the store took. -/
theorem recoveredResult_presentable {execution : Saga.Execution} {found : ResultStore.Record}
    {driver : Saga.Driver} (h : recoveredResult image execution loop = some found) :
    (resumedSlot driver (some found)).execution.Presentable := by
  unfold recoveredResult at h
  split at h
  · rename_i result hfind
    split at h
    · cases h
      obtain ⟨-, -, -, -, houtcome, hsource, hdestination, hvalue⟩ := ResultStore.find_valid hfind
      refine fun _ => .inr (.inr ⟨?_, hsource, hdestination, hvalue⟩)
      show Execution.typedOutcome found.outcome = true
      rcases houtcome with hsuccess | happ
      · rw [hsuccess]
        rfl
      · rw [happ]
        rfl
    · cases h
  · cases h

theorem resumeSaga_presents {execution : Saga.Execution}
    (h : loop.resumeSaga image execution = some (r, loop')) (hp : loop.Presents) :
    loop'.Presents := by
  rcases (resumeSaga_cases h).2 with
    ⟨-, -, i, driver, result, htakes, -, -, hslot, hresult⟩ | ⟨-, hidles⟩
  · intro j
    by_cases hj : j = i
    · rw [hj, hslot]
      refine ⟨rfl, ?_, fun hrunning => absurd rfl hrunning⟩
      rcases hresult with rfl | ⟨found, rfl, hfound⟩
      · exact fun _ => .inr (.inl rfl)
      · exact recoveredResult_presentable hfound
    · rw [htakes.others j hj]
      exact hp j
  · exact hp.idles hidles

/-- A result that is there fits a packet. -/
theorem Presents.encodes {executionId : UInt64} {frame : Frame} (hp : loop.Presents)
    (hsound : loop.Sound image) (h : loop.result executionId = .ok frame) :
    ∃ packet, Protocol.encode frame Protocol.maxPacketSize = .ok packet := by
  obtain ⟨i, hfound, -, -, hfinal, -⟩ := result_ok h
  have hnone := (hp i).group
  have hfinal : (loop.slots i).execution.getResult = .ok frame := by
    unfold AtSlot.finalResult at hfinal
    simpa only [view, hnone] using hfinal
  refine (hp i).result.encodes ?_ hfinal
  have hzero := hsound.nonzero i (findExecution_some hfound).1
  rw [Slot.executionId, hnone] at hzero
  exact hzero

end Loop

/-- An execution is admitted only by a submission. -/
theorem Control.submit_presents {image : Image} {bound : Nat} {loop loop' : Loop} {packet : Bytes}
    {answer : Except ControlResult UInt64} (hplain : grouped image = false)
    (h : Control.submit image bound packet loop = some (answer, loop')) (hp : loop.Presents) :
    loop'.Presents := by
  unfold Control.submit at h
  split at h
  · cases h
    exact hp
  split at h
  · cases h
    exact hp
  split at h
  · cases h
  · rename_i hadmit
    cases h
    exact Loop.admission_presents hplain hadmit hp
  · rename_i hadmit
    cases h
    exact Loop.admission_presents hplain hadmit hp

namespace ControlServer

variable {image : Image} {bound : Nat} {server server' : ControlServer} {kept : List UInt64}

theorem moves_presents (hplain : grouped image = false) (hm : Moves image server server')
    (hp : server.loop.Presents) : server'.loop.Presents := by
  cases hm with
  | counts loop clients calls => exact loop ▸ hp
  | polls polled clients calls => exact Loop.poll_presents polled hp
  | @refuses bound packet e refused clients calls =>
      exact hp.idles (Control.submit_refuses refused).1
  | attaches place descriptor free loop clients calls => exact loop ▸ hp
  | drops place descriptor connected loop clients calls => exact loop ▸ hp
  | admits place descriptor executionId packet connected submitted clients calls =>
      exact Control.submit_presents hplain submitted hp
  | abandons place descriptor executionId running loop clients calls => exact loop ▸ hp
  | finishes place executionId released clients calls =>
      obtain ⟨i, hfrees, -⟩ := Loop.release_ok released
      exact hp.frees hfrees

theorem moved_presents (hplain : grouped image = false) (hm : Moved image server server')
    (hp : server.loop.Presents) : server'.loop.Presents := by
  induction hm with
  | refl => exact hp
  | tail _ hstep ih => exact moves_presents hplain hstep ih

theorem not_stuck (h : Serving image kept server) (hp : server.loop.Presents) : ¬ server.Stuck := by
  rintro ⟨place, frame, -, hresult, hlarge⟩
  obtain ⟨packet, hencode⟩ := hp.encodes h.loop hresult
  exact hlarge packet hencode

/-- **No step ends in a state error** on an image without groups. -/
theorem step_stateError (hplain : grouped image = false) (h : Serving image kept server)
    (hp : server.loop.Presents) (answers : ControlAnswers) :
    server.step image bound answers ≠ some (.stateError, server') := by
  intro hstep
  rcases step_advances h answers _ _ hstep with ⟨hbad, -⟩ | ⟨-, hmoved, hstuck⟩ | ⟨hbad, -⟩ | ⟨hbad, -⟩
  · cases hbad
  · exact not_stuck (h.moved hmoved) (moved_presents hplain hmoved hp) hstuck
  · cases hbad
  · cases hbad

end ControlServer

end Hermas.Daemon
