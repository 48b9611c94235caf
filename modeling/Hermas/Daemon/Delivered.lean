import Hermas.Daemon.Servers

/-!
# What a client is sent is on record

On an image without groups, the journal knows the end of every execution before its client is
sent the result, and the result store knows the value. A compensation that fails changes the
result behind its record; then the client is sent an outcome without a value, never a value that
is not on record. The logs only grow, so that this stays so in whatever the host does later.
-/

namespace Hermas.Daemon

open Loop (PollItem Event Admits Frees Idles Opens)
open Relation (ReflTransGen)

/-- The result belongs to an end on record: it is that end, or an outcome without a value that was
put in its place. -/
def Shared.Accounted (s : Shared) (final : Frame) : Prop :=
  ∃ first, s.Finished first ∧ (Execution.typedOutcome first.outcome = true → s.Stored first) ∧
    first.executionId = final.executionId ∧
      (final = first ∨
        ((final.outcome = .notSent ∨ final.outcome = .unknown) ∧ final.payload = []))

theorem Shared.Accounted.grow {s s' : Shared} {final : Frame} (h : s.Accounted final)
    (hg : s.Grows s') : s'.Accounted final := by
  obtain ⟨first, hfinished, hstored, hrest⟩ := h
  exact ⟨first, hfinished.grow hg, fun htyped => (hstored htyped).grow hg, hrest⟩

/-! ## Slots -/

namespace AtSlot

variable {image : Image} {w w' : AtSlot}

/-- What holds of the result of a slot: before the end nothing is marked, and behind it the end is
on record. -/
structure Accounts (w : AtSlot) : Prop where
  running : w.slot.execution.state ≠ .complete → w.slot.Unmarked
  ended : ∀ final, w.finalResult = .ok final → w.Accounted final

theorem accounts_running (hgroup : w.slot.group = none)
    (hrunning : w.slot.execution.state ≠ .complete) (hmarks : w.slot.Unmarked) : w.Accounts where
  running := fun _ => hmarks
  ended := by
    intro final hfinal
    unfold finalResult at hfinal
    rw [hgroup] at hfinal
    simp only [Execution.getResult, if_pos hrunning] at hfinal
    cases hfinal

/-- A sequential slot whose end is told is accounted for. -/
theorem Told.accounts (h : w.Told) (hgroup : w.slot.group = none) : w.Accounts where
  running := by
    intro hrunning
    refine h.running ?_
    unfold Slot.complete
    rw [hgroup]
    simpa using hrunning
  ended := fun final hfinal =>
    ⟨final, h.finished final hfinal, h.stored final hfinal, rfl, .inl rfl⟩

theorem Accounts.spared (h : w.Accounts) (hgrown : Grown w.toShared w')
    (hs : w.slot.Spares w'.slot) : w'.Accounts where
  running := by
    intro hrunning
    rw [hs.execution] at hrunning
    obtain ⟨hfinished, hstored⟩ := h.running hrunning
    exact ⟨hs.finished.trans hfinished, hs.stored.trans hstored⟩
  ended := by
    intro final hfinal
    have hsame : w'.finalResult = w.finalResult := by
      unfold finalResult
      rw [hs.group, hs.execution]
    exact (h.ended final (hsame ▸ hfinal)).grow hgrown

/-- A compensation that fails leaves an outcome without a value, of the same execution. -/
theorem accounts_failed (outcome : Outcome) (hgroup : w.slot.group = none) (h : w.Accounts) :
    (w.failCompensation outcome).Accounts where
  running := h.running
  ended := by
    intro final hfinal
    have hbare : final.executionId = w.slot.execution.executionId ∧
        (final.outcome = .notSent ∨ final.outcome = .unknown) ∧ final.payload = [] ∧
          w.slot.execution.state = .complete := by
      unfold finalResult at hfinal
      have hnone : (w.failCompensation outcome).slot.group = none := hgroup
      rw [hnone] at hfinal
      simp only [Execution.getResult] at hfinal
      split at hfinal
      · cases hfinal
      rename_i hcomplete
      cases hfinal
      refine ⟨rfl, ?_, ?_, not_not.mp hcomplete⟩
      · show (if outcome = .notSent then Outcome.notSent else .unknown) = .notSent ∨
          (if outcome = .notSent then Outcome.notSent else .unknown) = .unknown
        by_cases hnot : outcome = .notSent
        · rw [if_pos hnot]
          exact .inl rfl
        · rw [if_neg hnot]
          exact .inr rfl
      · show (if _ = 0 then [] else ([] : Bytes)) = []
        exact ite_self _
    obtain ⟨hid, houtcome, hpayload, hcomplete⟩ := hbare
    -- the end that the compensation was begun for
    obtain ⟨before, hbefore⟩ : ∃ before, w.finalResult = .ok before := by
      unfold finalResult
      rw [hgroup]
      simp only [Execution.getResult, hcomplete, ne_eq, not_true, if_false]
      exact ⟨_, rfl⟩
    obtain ⟨first, hfinished, hstored, hsame, -⟩ := h.ended before hbefore
    refine ⟨first, hfinished, hstored, ?_, .inr ⟨houtcome, hpayload⟩⟩
    have hbeforeId := (finalResult_ok hbefore).2
    unfold Slot.executionId at hbeforeId
    rw [hgroup] at hbeforeId
    rw [hsame, hbeforeId, hid]

theorem Turn.accounts (h : Turn w w') (hgroup : w.slot.group = none)
    (hgrown : Grown w.toShared w') (ha : w.Accounts) : w'.Accounts := by
  cases h with
  | spares spared => exact ha.spared hgrown spared
  | fails outcome failed => exact (accounts_failed outcome hgroup ha).spared hgrown failed
  | runs group finished stored before behind =>
      obtain ⟨hfinished, hstored⟩ := ha.running before
      exact accounts_running (group.trans hgroup) behind
        ⟨finished.trans hfinished, stored.trans hstored⟩
  | settles running settled => exact (settled.told (ha.running running)).accounts settled.group

end AtSlot

/-! ## The loop -/

namespace Loop

variable {image : Image} {bound : Nat} {loop loop' : Loop} {i : SlotIndex}

theorem accounts_same (hslot : loop'.slots i = loop.slots i) (hgrows : loop.Grows loop'.toShared)
    (ha : (loop.view i).Accounts) : (loop'.view i).Accounts :=
  ha.spared hgrows (by
    show (loop.slots i).Spares (loop'.slots i)
    rw [hslot]
    exact ⟨rfl, rfl, rfl, rfl⟩)

theorem poll_grows {events : PollItem → Event} (h : loop.poll image bound events = some (.ok, loop')) :
    loop.Grows loop'.toShared :=
  poll_rel (R := fun l l' : Loop => l.Grows l'.toShared)
    (fun h h' => by
      obtain ⟨hworkflow, himage, hjournal, hresults⟩ := h
      obtain ⟨hworkflow', himage', hjournal', hresults'⟩ := h'
      exact ⟨hworkflow'.trans hworkflow, himage'.trans himage, hjournal.trans hjournal',
        hresults.trans hresults'⟩)
    (fun _ hgrows => hgrows) (fun _ hgrows => hgrows) h

/-- A poll leaves every result on record. -/
theorem poll_accounts {events : PollItem → Event}
    (h : loop.poll image bound events = some (.ok, loop')) (hp : loop.Presents)
    (ha : (loop.view i).Accounts) : (loop'.view i).Accounts := by
  have hboth : loop.Presents → loop'.Presents ∧ ((loop.view i).Accounts → (loop'.view i).Accounts) := by
    refine poll_rel (R := fun l l' : Loop => l.Presents → l'.Presents ∧
      ((l.view i).Accounts → (l'.view i).Accounts)) ?_ ?_ ?_ h
    · intro l m n h h' hl
      obtain ⟨hm, hfirst⟩ := h hl
      obtain ⟨hn, hsecond⟩ := h' hm
      exact ⟨hn, fun hi => hsecond (hfirst hi)⟩
    · intro l l' hspares hgrows hl
      exact ⟨fun j => (hspares j).presents (hl j), fun hi => hi.spared hgrows (hspares i)⟩
    · intro l j w hturn hgrows hl
      refine ⟨hl.put hturn, fun hi => ?_⟩
      by_cases hj : i = j
      · subst hj
        rw [put_view]
        exact (hturn (hl i).group).accounts (hl i).group hgrows hi
      · exact accounts_same (put_slots_of_ne _ _ hj) hgrows hi
  exact (hboth hp).2 ha

/-- A slot that was filled anew, and whose execution has not begun to compensate, has nothing to
account for. -/
theorem opening_accounts (hplain : grouped image = false)
    (hslot : AtSlot.Opening image (loop.slots i)) (hopen : (loop.slots i).Uncompensated) :
    (loop.view i).Accounts := by
  have hnone : (loop.slots i).group = none := by
    by_contra hsome
    have hgrouped := hslot.grouped (Option.isSome_iff_ne_none.mpr hsome)
    rw [hplain] at hgrouped
    cases hgrouped
  obtain ⟨hrunning, hmarks⟩ := hslot.running hopen
  refine AtSlot.accounts_running hnone (fun hcomplete => ?_) hmarks
  have hcomplete : (loop.slots i).execution.state = .complete := hcomplete
  rw [Slot.complete, hnone] at hrunning
  simp [hcomplete] at hrunning

end Loop

/-- What a submission does to the loop. -/
theorem Control.submit_opens {image : Image} {bound : Nat} {loop loop' : Loop} {packet : Bytes}
    {answer : Except ControlResult UInt64} (hplain : grouped image = false)
    (h : Control.submit image bound packet loop = some (answer, loop')) : Opens image loop loop' := by
  have hgroup : grouped image = true → ∀ (executionId : UInt64) (inputType : UInt16) (input : Bytes)
      group, GroupExecution.start image bound executionId (maxFlows * Protocol.maxPayloadSize)
        Protocol.maxPayloadSize inputType input = some (.ok group) → group.complete = false := by
    intro hgrouped
    rw [hplain] at hgrouped
    cases hgrouped
  unfold Control.submit at h
  split at h
  · cases h
    exact Loop.opens_refl loop
  split at h
  · cases h
    exact Loop.opens_refl loop
  split at h
  · cases h
  · rename_i hadmit
    cases h
    exact Loop.opens_admitExecution (fun hgrouped => hgroup hgrouped _ _ _) hadmit
  · rename_i hadmit
    cases h
    exact Loop.opens_admitExecution (fun hgrouped => hgroup hgrouped _ _ _) hadmit

/-! ## The servers -/

/-- A result that was written to a socket was a result on record. -/
def ClientCall.Reported (s : Shared) : ClientCall → Prop
  | .result _ executionId packet _ =>
      ∃ final, Protocol.encode final Protocol.maxPacketSize = .ok packet ∧
        final.executionId = executionId ∧ s.Accounted final
  | _ => True

theorem ClientCall.Reported.grow {s s' : Shared} {call : ClientCall} (h : call.Reported s)
    (hg : s.Grows s') : call.Reported s' := by
  cases call with
  | result place executionId packet sent =>
      obtain ⟨final, hencode, hid, haccounted⟩ := h
      exact ⟨final, hencode, hid, haccounted.grow hg⟩
  | _ => trivial

namespace ControlServer

variable {image : Image} {bound : Nat} {server server' : ControlServer} {kept rest : List UInt64}

/-- What holds of the results of the clients' executions, and of those they were sent. -/
structure Accounting (kept : List UInt64) (server : ControlServer) : Prop where
  presents : server.loop.Presents
  slots : ∀ i, (server.loop.slots i).active = true → (server.loop.slots i).executionId ∉ kept →
    (server.loop.view i).Accounts
  calls : ∀ call ∈ server.calls, call.Reported server.loop.toShared

/-- The loop is left alone, and no result is sent. -/
theorem Accounting.silent (h : Accounting kept server) (hloop : server'.loop = server.loop)
    (hcalls : ∀ call ∈ server'.calls, call ∈ server.calls ∨
      ∀ place executionId packet sent, call ≠ .result place executionId packet sent) :
    Accounting kept server' := by
  refine ⟨hloop ▸ h.presents, hloop ▸ h.slots, fun call hmem => ?_⟩
  rw [hloop]
  rcases hcalls call hmem with hold | hnew
  · exact h.calls call hold
  · cases call with
    | result place executionId packet sent => exact absurd rfl (hnew place executionId packet sent)
    | _ => trivial

/-- What is collected for a client is on record. -/
theorem Accounting.collected (h : Accounting kept server) (hs : Serving image kept server)
    {place : ClientPlace} {executionId : UInt64} {packet : Bytes}
    (hadmitted : (server.clients place).admitted = true)
    (hid : (server.clients place).executionId = executionId)
    (hcollect : Control.collect executionId Protocol.maxPacketSize server.loop = .ok packet)
    (count : Int) : (ClientCall.result place executionId packet count).Reported server.loop.toShared := by
  obtain ⟨final, hresult, hencode, -⟩ := Control.collect_ok hcollect
  obtain ⟨i, hfound, -, -, hfinal, -, hfinalId⟩ := Loop.result_ok hresult
  obtain ⟨hactive, hruns⟩ := Loop.findExecution_some hfound
  have happart : (server.loop.slots i).executionId ∉ kept := by
    rw [hruns, ← hid]
    exact hs.apart place hadmitted
  exact ⟨final, hencode, hfinalId, (h.slots i hactive happart).ended final hfinal⟩

/-- An execution is given free; the others are as they were. -/
theorem Accounting.frees {executionId : UInt64} {loop : Loop} (h : Accounting kept server)
    (hs : Serving image kept server)
    (hreleased : server.loop.release executionId = some (.ok, loop))
    (hrest : ∀ id, id ≠ executionId → id ∉ rest → id ∉ kept) :
    Accounting rest { server with loop } ∧ server.loop.Grows loop.toShared := by
  obtain ⟨i, hfrees, -⟩ := Loop.release_ok hreleased
  have hopens : Opens image server.loop loop := Loop.opens_release hreleased
  have hgrows := hopens.1
  refine ⟨⟨h.presents.frees hfrees, fun j hactive hmem => ?_, fun call hcall =>
    (h.calls call hcall).grow hgrows⟩, hgrows⟩
  have hactive : (loop.slots j).active = true := hactive
  have hmem : (loop.slots j).executionId ∉ rest := hmem
  by_cases hj : j = i
  · rw [hj, hfrees.empty] at hactive
    cases hactive
  · have hsame := hfrees.others j hj
    rw [hsame] at hactive hmem
    obtain ⟨hfound, hid⟩ := Loop.findExecution_some hfrees.found
    have hne : (server.loop.slots j).executionId ≠ executionId := by
      intro heq
      exact hj (hs.loop.distinct j i hactive hfound (heq.trans hid.symm))
    exact Loop.accounts_same hsame hgrows (h.slots j hactive (hrest _ hne hmem))

theorem Accounting.moves (hplain : grouped image = false) (hs : Serving image kept server)
    (h : Accounting kept server) (hm : Moves image server server') : Accounting kept server' := by
  cases hm with
  | counts loop clients calls =>
      exact h.silent loop fun call hmem => .inl (calls ▸ hmem)
  | polls polled clients calls =>
      have hgrows := Loop.poll_grows polled
      refine ⟨Loop.poll_presents polled h.presents, fun i hactive hmem => ?_, fun call hmem => ?_⟩
      · have hdrives := Loop.poll_drives polled i
        rw [hdrives.active] at hactive
        rw [hdrives.executionId] at hmem
        exact Loop.poll_accounts polled h.presents (h.slots i hactive hmem)
      · rw [calls] at hmem
        exact (h.calls call hmem).grow hgrows
  | refuses refused clients calls =>
      have hgrows := (Control.submit_opens hplain refused).1
      have hidles := (Control.submit_refuses refused).1
      refine ⟨h.presents.idles hidles, fun i hactive hmem => ?_, fun call hmem => ?_⟩
      · rcases hidles i with hsame | ⟨-, hempty⟩
        · rw [hsame] at hactive hmem
          exact Loop.accounts_same hsame hgrows (h.slots i hactive hmem)
        · rw [hempty] at hactive
          cases hactive
      · rw [calls] at hmem
        exact (h.calls call hmem).grow hgrows
  | attaches place descriptor free loop clients calls =>
      refine h.silent loop fun call hmem => ?_
      rw [calls] at hmem
      rcases List.mem_cons.mp hmem with rfl | hold
      · exact .inr nofun
      · exact .inl hold
  | drops place descriptor connected loop clients calls =>
      refine h.silent loop fun call hmem => ?_
      rcases calls with hcalls | ⟨packet, hcalls⟩
      · rw [hcalls] at hmem
        rcases List.mem_cons.mp hmem with rfl | hold
        · exact .inr nofun
        · exact .inl hold
      · rw [hcalls] at hmem
        rcases List.mem_cons.mp hmem with rfl | hmem
        · exact .inr nofun
        rcases List.mem_cons.mp hmem with rfl | hold
        · exact .inr nofun
        · exact .inl hold
  | @admits bound place descriptor executionId packet connected submitted clients calls =>
      obtain ⟨hgrows, hopens⟩ := Control.submit_opens hplain submitted
      obtain ⟨i, hadmits, -⟩ := Control.submit_admits submitted
      refine ⟨Control.submit_presents hplain submitted h.presents, fun j hactive hmem => ?_,
        fun call hmem => ?_⟩
      · by_cases hj : j = i
        · -- the slot was free before, so that it is the one that was filled anew
          rw [hj] at hactive ⊢
          have hchanged : server'.loop.slots i ≠ server.loop.slots i := by
            intro hsame
            rw [hsame, hadmits.free] at hactive
            cases hactive
          rcases hopens with hslots | ⟨k, slot, hslot, hslots⟩
          · exact absurd (congrFun hslots i) hchanged
          · by_cases hk : i = k
            · subst hk
              have hself : server'.loop.slots i = slot := by rw [hslots, Function.update_self]
              rw [← hself] at hslot
              exact Loop.opening_accounts hplain hslot (not_not.mp hadmits.fresh)
            · rw [hslots, Function.update_of_ne hk] at hchanged
              exact absurd rfl hchanged
        · have hsame := hadmits.others j hj
          rw [hsame] at hactive hmem
          exact Loop.accounts_same hsame hgrows (h.slots j hactive hmem)
      · rw [calls] at hmem
        rcases List.mem_cons.mp hmem with rfl | hold
        · trivial
        · exact (h.calls call hold).grow hgrows
  | abandons place descriptor executionId running loop clients calls =>
      refine h.silent loop fun call hmem => ?_
      rw [calls] at hmem
      rcases List.mem_cons.mp hmem with rfl | hold
      · exact .inr nofun
      · exact .inl hold
  | finishes place executionId released clients calls =>
      obtain ⟨hadmitted, hid⟩ := calls.submitted
      obtain ⟨hfreed, hgrows⟩ : Accounting kept { server with loop := server'.loop } ∧
          server.loop.Grows server'.loop.toShared := h.frees hs released fun _ _ hmem => hmem
      refine ⟨hfreed.presents, hfreed.slots, fun call hmem => ?_⟩
      have hreported : ∀ {packet : Bytes} (count : Int),
          Control.collect executionId Protocol.maxPacketSize server.loop = .ok packet →
          (ClientCall.result place executionId packet count).Reported server'.loop.toShared :=
        fun count hcollect => (h.collected hs hadmitted hid hcollect count).grow hgrows
      have hold : ∀ call ∈ server.calls, call.Reported server'.loop.toShared :=
        fun call hmem => (h.calls call hmem).grow hgrows
      generalize server'.calls = later at calls hmem
      cases calls with
      | gone abandoned =>
          rcases List.mem_cons.mp hmem with rfl | hmem
          · trivial
          · exact hold call hmem
      | sent descriptor packet running collected =>
          simp only [List.mem_cons] at hmem
          rcases hmem with rfl | rfl | rfl | hmem
          · trivial
          · trivial
          · exact hreported _ collected
          · exact hold call hmem
      | lost descriptor packet count running collected short =>
          simp only [List.mem_cons] at hmem
          rcases hmem with rfl | rfl | rfl | hmem
          · trivial
          · trivial
          · exact hreported count collected
          · exact hold call hmem

end ControlServer

namespace HermasHost

variable {image : Image} {bound : Nat} {host : HermasHost}

open ControlServer (Accounting Serving)

theorem Shifts.accounting {before behind : List UInt64 × ControlServer}
    (hplain : grouped image = false) (hs : Serving image before.1 before.2)
    (hshift : Shifts image before behind) (h : Accounting before.1 before.2) :
    Accounting behind.1 behind.2 := by
  cases hshift with
  | moves moved => exact h.moves hplain hs moved
  | @registers kept server registry =>
      refine ⟨h.presents, fun i hactive hmem => ?_, h.calls⟩
      have haccounts : (server.loop.view i).Accounts := h.slots i hactive hmem
      exact haccounts.spared (Shared.Grows.refl server.loop.toShared) ⟨rfl, rfl, rfl, rfl⟩
  | @reaps kept rest server executionId loop taken released =>
      refine (h.frees hs released fun id hne hmem hkept => ?_).1
      rcases List.mem_cons.mp (taken.mem_iff.mp hkept) with hsame | hleft
      · exact hne hsame
      · exact hmem hleft

/-- The executions of a host that has opened are its own. -/
theorem opened_accounting {workflowId : UInt32} {imageFingerprint : UInt64} {files : StateFiles}
    (h : openHost image workflowId imageFingerprint files = .ok host) :
    Accounting host.recovered host.control := by
  obtain ⟨_, _, _, loop, -, -, -, -, hrestored, -, hcontrol, -⟩ := openHost_ok h
  rw [hcontrol]
  refine ⟨hrestored.presents, fun i hactive hmem => ?_, fun call hmem => ?_⟩
  · exact absurd ((hrestored.runs _).mp ⟨i, hactive, rfl⟩) hmem
  · cases hmem

theorem accounting_reachable (hplain : grouped image = false) (h : (system image).Reach host) :
    Accounting host.recovered host.control := by
  induction h with
  | init hinit =>
      obtain ⟨workflowId, imageFingerprint, files, hopen⟩ := hinit
      exact opened_accounting hopen
  | step hbefore _ hstep ih =>
      obtain ⟨floor, hkept⟩ := kept_reachable hbefore
      have hranges := (step_follows hkept hstep).ranges
      exact hranges.keeps (P := fun owned => Accounting owned.1 owned.2)
        (fun hs hshift hp => hshift.accounting hplain hs hp) hkept.serving hkept.once ih

/-- **A result that is there can be sent.** On an image without groups, whatever clients and apps do
and whatever apps are registered, no step of the control server ends in a state error: an
execution that is complete has a result that a packet holds. -/
theorem results_sendable (hplain : grouped image = false) (h : (system image).Reach host)
    (registration : RegistrationServer) (controlAnswers : ControlAnswers) (server : ControlServer) :
    (host.withRegistration registration).control.step image bound controlAnswers ≠
      some (.stateError, server) := by
  obtain ⟨floor, hkept⟩ := kept_reachable h
  have hpresents := (accounting_reachable hplain h).presents
  exact ControlServer.step_stateError hplain (hkept.serving.withRegistry registration.registry)
    hpresents controlAnswers

set_option maxRecDepth 20000 in
theorem results_sendable_oneAction : ∃ host, (system oneAction).Reach host ∧
    ∀ server, (host.withRegistration host.registration).control.step oneAction 10
      appAnswers.first.control ≠ some (.stateError, server) := by
  obtain ⟨opened, host, -, -, hreach, -⟩ := @reach_fresh oneAction 10
    [appRegisters, clientSubmits] (fun _ => true) (by decide +kernel)
  exact ⟨host, hreach, fun server => results_sendable (by decide +kernel) hreach
    host.registration appAnswers.first.control server⟩

end HermasHost

end Hermas.Daemon
