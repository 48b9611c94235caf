import Hermas.Daemon.Drops
import Hermas.Daemon.HermasHost
import Hermas.Daemon.Presentable
import Mathlib.Data.List.GetD

/-!
# Runs of the host

Between two steps of the host every execution has one owner: the client that submitted it,
or the host, which took up its compensation when it opened. The host gives its own free
one by one, and the list it keeps of them is at every moment the list of those that are
left. The registration server finds in the registry what it put there, less what the loop
has dropped.
-/

namespace Hermas.Saga

/-! ## Whose compensation is taken up -/

theorem recoverPlan_executionId {image : Image} {tokens : Bytes} {recovery : Recovery}
    {plan : Execution} (h : recoverPlan image tokens recovery = .ok plan) :
    plan.executionId = recovery.execution.executionId := by
  unfold recoverPlan at h
  simp only at h
  split at h
  · cases h
  split at h
  · cases h
  split at h
  · cases h
    rfl
  split at h
  · cases h
  unfold Except.map at h
  split at h
  · cases h
  · cases h
    rfl

theorem recover_executionId {image : Image} {imageFingerprint executionId : UInt64}
    {workflowId : UInt32} {journal tokens : Bytes} {plan : Execution}
    (h : recover image imageFingerprint journal tokens executionId workflowId = .ok plan) :
    plan.executionId = executionId := by
  obtain ⟨origin, recovery, hload, hrecovers, hplan⟩ := recover_ok h
  obtain ⟨-, -, hsame⟩ := loaded_loadSteps rfl hload
  rw [recoverPlan_executionId hplan, hrecovers.executionId, hsame.executionId]

theorem reconcilePlan_executionId (summary : Log.Summary) (state : Reconciliation)
    (execution : Execution) :
    (reconcilePlan summary state execution).2.executionId = execution.executionId := by
  unfold reconcilePlan
  split
  · rfl
  split
  · rfl
  simp only
  split
  · rfl
  split
  · rfl
  split
  · rfl
  split
  · rfl
  split
  · rfl
  · rfl

theorem reconcile_executionId (execution : Execution) (sagaLog : Bytes) :
    (reconcile execution sagaLog).2.executionId = execution.executionId := by
  unfold reconcile
  split
  · rfl
  split
  · rfl
  split
  · rfl
  · exact reconcilePlan_executionId _ _ _

end Hermas.Saga

/-- The next execution id lies above all that the journal knows. -/
theorem Hermas.Journal.fileOpen_known {bytes : Bytes} {writer : Writer} {summary : Summary}
    (h : fileOpen bytes = .ok (writer, summary)) :
    ∀ r ∈ journalRecords bytes, r.executionId < summary.nextExecutionId := by
  unfold fileOpen at h
  split at h
  · cases h
  split at h
  · cases h
  rename_i found hscan
  unfold Writer.init at h
  split at h
  · cases h
  cases h
  obtain ⟨-, st, hfold, rfl⟩ := scan_ok.mp hscan
  exact (tracks_scan hfold).1.known

namespace Hermas.Daemon

open Loop (Takes PollItem Event)
open ControlServer (Serving Recorded Numbered Moved admissions answers)
open Registry (Dropped)
open Relation (ReflTransGen)

namespace ControlServer

variable {image : Image} {bound : Nat} {server server' : ControlServer} {kept : List UInt64}

/-- All that was admitted lies above a floor, and so will be all that is admitted later. -/
structure Above (floor : UInt64) (server : ControlServer) : Prop where
  next : floor ≤ server.loop.minimumExecutionId
  admitted : ∀ executionId ∈ admissions server.calls, floor ≤ executionId

theorem Above.moves {floor : UInt64} (hn : Numbered server) (h : Above floor server)
    (hm : Moves image server server') : Above floor server' := by
  have hkeep : server'.loop.minimumExecutionId = server.loop.minimumExecutionId →
      admissions server'.calls = admissions server.calls → Above floor server' := by
    intro hfloor hadmissions
    exact ⟨hfloor ▸ h.next, hadmissions ▸ h.admitted⟩
  cases hm with
  | counts loop clients calls => exact hkeep (by rw [loop]) (by rw [calls])
  | polls polled clients calls => exact hkeep (Loop.poll_floor polled) (by rw [calls])
  | refuses refused clients calls =>
      exact hkeep (Control.submit_refuses refused).2 (by rw [calls])
  | attaches place descriptor free loop clients calls =>
      exact hkeep (by rw [loop]) (by rw [calls]; rfl)
  | drops place descriptor connected loop clients calls =>
      refine hkeep (by rw [loop]) ?_
      rcases calls with hcalls | ⟨packet, hcalls⟩ <;> rw [hcalls] <;> rfl
  | admits place descriptor executionId packet connected submitted clients calls =>
      obtain ⟨i, hadmits, -⟩ := Control.submit_admits submitted
      have hmoved : Numbered server' := hn.admits hadmits clients calls
      have hid : floor ≤ executionId := UInt64.le_trans h.next (hadmits.floor hn.floor)
      have hmem : executionId ∈ admissions server'.calls := by
        rw [calls]
        exact List.mem_cons_self
      refine ⟨UInt64.le_trans hid (UInt64.le_of_lt (hmoved.below executionId hmem)),
        fun id hadmitted => ?_⟩
      rw [calls] at hadmitted
      rcases List.mem_cons.mp hadmitted with rfl | hold
      · exact hid
      · exact h.admitted id hold
  | abandons place descriptor executionId running loop clients calls =>
      exact hkeep (by rw [loop]) (by rw [calls]; rfl)
  | finishes place executionId released clients calls =>
      obtain ⟨i, -, hfloor⟩ := Loop.release_ok released
      exact hkeep hfloor calls.admissions

theorem above_moved {floor : UInt64} (hs : Serving image kept server) (hn : Numbered server)
    (h : Above floor server) (hm : Moved image server server') : Above floor server' := by
  induction hm with
  | refl => exact h
  | tail hbefore hstep ih => exact ih.moves (numbered_moved hs hn hbefore) hstep

/-- The registry changed under the loop; nothing else did. -/
theorem Serving.withRegistry (h : Serving image kept server) (registry : Registry) :
    Serving image kept { server with loop := { server.loop with registry } } :=
  h.sameRuns ⟨h.loop.standing, h.loop.nonzero, h.loop.distinct⟩ (fun _ => Iff.rfl) rfl

end ControlServer

/-- No connection is open in a registry that has just been set up. -/
theorem Registry.connectionAt_init (image : Image) (index : Nat) :
    (Registry.init image).connectionAt index = none := by
  unfold Registry.connectionAt Registry.init
  rw [List.getElem?_map]
  cases image.tables.contracts[index]? <;> rfl

theorem RegistrationServer.Inv.dropped {initial registry : Registry} {server : RegistrationServer}
    (h : RegistrationServer.Inv initial server) (hd : Dropped server.registry registry) :
    RegistrationServer.Inv initial { server with registry } :=
  hd.keeps (P := fun registry => RegistrationServer.Inv initial { server with registry })
    (fun _ appId actionId hinv => hinv.drop appId actionId) h

namespace HermasHost

variable {image : Image} {bound : Nat} {floor : UInt64} {host host' : HermasHost}
  {kept : List UInt64}

/-- What happens to the control server of a host and to the executions that the host owns: the server
makes a move of its own, the registry is changed, or an execution of the host is given free. -/
inductive Shifts (image : Image) : List UInt64 × ControlServer → List UInt64 × ControlServer → Prop
  | moves {kept : List UInt64} {server server' : ControlServer}
      (moved : ControlServer.Moves image server server') : Shifts image (kept, server) (kept, server')
  | registers {kept : List UInt64} {server : ControlServer} (registry : Registry) :
      Shifts image (kept, server) (kept, { server with loop := { server.loop with registry } })
  | reaps {kept rest : List UInt64} {server : ControlServer} {executionId : UInt64} {loop : Loop}
      (taken : kept.Perm (executionId :: rest))
      (released : server.loop.release executionId = some (.ok, loop)) :
      Shifts image (kept, server) (rest, { server with loop })

/-- One after the other. -/
def Ranges (image : Image) : List UInt64 × ControlServer → List UInt64 × ControlServer → Prop :=
  ReflTransGen (Shifts image)

/-- The executions that the host owns, and its control server. -/
def owned (host : HermasHost) : List UInt64 × ControlServer := (host.recovered, host.control)

theorem ranges_moved {server server' : ControlServer} (h : Moved image server server') :
    Ranges image (kept, server) (kept, server') := by
  induction h with
  | refl => exact ReflTransGen.refl
  | tail _ hstep ih => exact ih.tail (.moves hstep)

/-- What holds of a host between two steps. -/
structure Kept (image : Image) (floor : UInt64) (host : HermasHost) : Prop where
  serving : Serving image host.recovered host.control
  once : host.recovered.Nodup
  recorded : Recorded host.control
  numbered : Numbered host.control
  above : ControlServer.Above floor host.control
  registration : RegistrationServer.Inv (Registry.init image) host.registration

theorem Kept.progressed (h : Kept image floor host) (count : Nat) :
    Kept image floor (host.progressed count) :=
  ⟨h.serving, h.once, h.recorded, h.numbered, h.above, h.registration⟩

theorem Kept.withNext (h : Kept image floor host) (nextExecutionId : UInt64) :
    Kept image floor { host with nextExecutionId } :=
  ⟨h.serving, h.once, h.recorded, h.numbered, h.above, h.registration⟩

theorem Kept.withRegistration {registration : RegistrationServer} (h : Kept image floor host)
    (hinv : RegistrationServer.Inv (Registry.init image) registration) :
    Kept image floor (host.withRegistration registration) where
  serving := h.serving.withRegistry registration.registry
  once := h.once
  recorded := h.recorded
  numbered := ⟨h.numbered.floor, h.numbered.increasing, h.numbered.below, h.numbered.once,
    h.numbered.known, h.numbered.running⟩
  above := ⟨h.above.next, h.above.admitted⟩
  registration := hinv

theorem Kept.withControl {control : ControlServer} (h : Kept image floor host)
    (hm : Moved image host.control control) : Kept image floor (host.withControl control) where
  serving := h.serving.moved hm
  once := h.once
  recorded := ControlServer.recorded_moved h.serving h.recorded hm
  numbered := ControlServer.numbered_moved h.serving h.numbered hm
  above := ControlServer.above_moved h.serving h.numbered h.above hm
  registration := by
    have hd : Dropped host.registration.registry control.loop.registry := by
      rw [host.shared]
      exact hm.dropped
    exact h.registration.dropped hd

/-! ## Opening -/

/-- The loop behind a number of compensations that were taken up: it runs these and nothing else. -/
structure Restored (image : Image) (floor : UInt64) (registry : Registry) (loop : Loop)
    (recovered : List UInt64) : Prop where
  sound : loop.Sound image
  runs : ∀ executionId, loop.Runs executionId ↔ executionId ∈ recovered
  once : recovered.Nodup
  floor : loop.minimumExecutionId = floor
  registry : loop.registry = registry
  presents : loop.Presents

theorem recoverFiles_executionId {loop : Loop} {files : StateFiles} {executionId : UInt64}
    {execution : Saga.Execution} (h : recoverFiles image loop files executionId = .ok execution) :
    execution.executionId = executionId := by
  unfold recoverFiles at h
  split at h
  · cases h
  rename_i plan hrecover
  split at h
  · rename_i reconciled hreconcile
    cases h
    have hsame := Saga.reconcile_executionId plan files.sagaLog
    rw [hreconcile] at hsame
    exact hsame.trans (Saga.recover_executionId hrecover)
  · cases h

theorem resumeActive_restored {files : StateFiles} {registry : Registry} {loop loop' : Loop}
    {recovered recovered' : List UInt64} {active : Saga.Log.Active}
    (h : Restored image floor registry loop recovered)
    (hresume : resumeActive image files (loop, recovered) active = .ok (loop', recovered')) :
    Restored image floor registry loop' recovered' := by
  unfold resumeActive at hresume
  simp only at hresume
  split at hresume
  · cases hresume
  split at hresume
  · cases hresume
  · cases hresume
  rename_i execution hrecover
  split at hresume
  · cases hresume
  split at hresume
  · rename_i resumed hcall
    cases hresume
    have hid := recoverFiles_executionId hrecover
    obtain ⟨hfloor, ⟨-, -, i, driver, result, htakes, -⟩ | ⟨hbad, -⟩⟩ := Loop.resumeSaga_cases hcall
    · rw [hid] at htakes
      have hunknown : active.executionId ∉ recovered := by
        intro hmem
        obtain ⟨j, hactive, hsame⟩ := (h.runs _).mpr hmem
        exact Loop.findExecution_none htakes.unknown hactive hsame
      refine ⟨h.sound.resumeSaga hcall, fun id => ?_, ?_, hfloor.trans h.floor,
        (Loop.resumeSaga_registry hcall).trans h.registry, Loop.resumeSaga_presents hcall h.presents⟩
      · rw [Loop.runs_takes htakes, h.runs, List.mem_append, List.mem_singleton]
      · exact List.nodup_append'.mpr ⟨h.once, List.nodup_singleton _, fun id hid hnew => by
          rw [List.mem_singleton] at hnew
          exact hunknown (hnew ▸ hid)⟩
    · exact absurd rfl hbad
  · cases hresume

theorem restored_foldlM {files : StateFiles} {registry : Registry} :
    ∀ (actives : List Saga.Log.Active) {loop loop' : Loop} {recovered recovered' : List UInt64},
      Restored image floor registry loop recovered →
      actives.foldlM (resumeActive image files) (loop, recovered) = .ok (loop', recovered') →
      Restored image floor registry loop' recovered'
  | [], loop, loop', recovered, recovered', h, hfold => by
      cases hfold
      exact h
  | active :: actives, loop, loop', recovered, recovered', h, hfold => by
      rw [List.foldlM_cons] at hfold
      cases hfirst : resumeActive image files (loop, recovered) active with
      | error e =>
          rw [hfirst] at hfold
          cases hfold
      | ok state =>
          rw [hfirst] at hfold
          exact restored_foldlM actives (resumeActive_restored h hfirst) hfold

theorem openState_ok {workflowId : UInt32} {imageFingerprint : UInt64} {files : StateFiles}
    {loop : Loop} {journalSummary : Journal.Summary} {sagaSummary : Saga.Log.Summary}
    (h : openState image workflowId imageFingerprint files =
      .ok (loop, journalSummary, sagaSummary)) :
    Restored image journalSummary.nextExecutionId (Registry.init image) loop [] ∧
      journalSummary.nextExecutionId ≠ 0 ∧
      ∃ journal, Journal.fileOpen files.journal = .ok (journal, journalSummary) := by
  unfold openState at h
  split at h
  · rename_i journal summary results compensation saga hjournal _ _ _
    split at h
    · cases h
    rename_i hnumbers
    simp only [not_or] at hnumbers
    cases h
    refine ⟨⟨⟨fun i => Slot.standing_empty, fun i hactive => ?_, fun i j hactive => ?_⟩,
      fun id => ⟨fun hruns => ?_, fun hmem => ?_⟩, List.nodup_nil, rfl, rfl,
      fun _ => Slot.presents_empty⟩, hnumbers.2.2.2, journal, hjournal⟩
    · cases hactive
    · cases hactive
    · obtain ⟨i, hactive, -⟩ := hruns
      cases hactive
    · cases hmem
  · cases h

/-- What has to have gone well for a host to open. -/
theorem openHost_ok {workflowId : UInt32} {imageFingerprint : UInt64} {files : StateFiles}
    (h : openHost image workflowId imageFingerprint files = .ok host) :
    ∃ registration journal journalSummary loop,
      RegistrationServer.init (Registry.init image) = .ok registration ∧
      Journal.fileOpen files.journal = .ok (journal, journalSummary) ∧
      imageCheck image = .ok ∧ journalSummary.nextExecutionId ≠ 0 ∧
      Restored image journalSummary.nextExecutionId (Registry.init image) loop host.recovered ∧
      host.registration = { registration with registry := loop.registry } ∧
      host.control = ControlServer.init loop ∧
      host.nextExecutionId = journalSummary.nextExecutionId := by
  unfold openHost at h
  split at h
  · cases h
  split at h
  · cases h
  rename_i registration hinit
  split at h
  · rename_i hcheck
    cases hopen : openState image workflowId imageFingerprint files with
    | error e =>
        rw [hopen] at h
        cases h
    | ok opened =>
        obtain ⟨loop, journalSummary, sagaSummary⟩ := opened
        rw [hopen] at h
        obtain ⟨hopened, hnext, journal, hjournal⟩ := openState_ok hopen
        cases hrestore : restoreStartupState image files loop journalSummary sagaSummary with
        | error e =>
            simp only [bind, Except.bind, hrestore] at h
            cases h
        | ok restored =>
            obtain ⟨loop', recovered⟩ := restored
            simp only [bind, Except.bind, hrestore, pure, Except.pure] at h
            cases h
            unfold restoreStartupState at hrestore
            split at hrestore
            · cases hrestore
            rename_i closed count hclose
            have hstart : Restored image journalSummary.nextExecutionId (Registry.init image)
                { loop with journal := closed } [] :=
              ⟨⟨hopened.sound.standing, hopened.sound.nonzero, hopened.sound.distinct⟩, hopened.runs,
                hopened.once, hopened.floor, hopened.registry, hopened.presents⟩
            exact ⟨registration, journal, journalSummary, loop', hinit, hjournal, hcheck, hnext,
              restored_foldlM _ hstart hrestore, rfl, rfl, rfl⟩
  · cases h
  · cases h

/-- **A host that has opened is in order.** Its loop runs the compensations it has taken up and
nothing else. -/
theorem opened_kept {workflowId : UInt32} {imageFingerprint : UInt64} {files : StateFiles}
    (h : openHost image workflowId imageFingerprint files = .ok host) :
    Kept image host.nextExecutionId host := by
  obtain ⟨registration, journal, summary, loop, hinit, -, -, hnext, hrestored, hregistration,
    hcontrol, hfloor⟩ := openHost_ok h
  have hinv : RegistrationServer.Inv (Registry.init image) registration :=
    RegistrationServer.inv_init hinit
  have hregistry : registration.registry = Registry.init image := by
    unfold RegistrationServer.init at hinit
    split at hinit
    · cases hinit
    · cases hinit
      rfl
  refine ⟨?_, hrestored.once, ?_, ?_, ?_, ?_⟩
  · rw [hcontrol]
    refine ⟨hrestored.sound, fun _ => rfl, fun _ ha => ?_, fun _ _ ha => ?_, fun id hruns => ?_,
      fun id hmem => (hrestored.runs id).mpr hmem, fun _ ha => ?_⟩
    · cases ha
    · cases ha
    · exact .inr ((hrestored.runs id).mp hruns)
    · cases ha
  · rw [hcontrol]
    exact ControlServer.recorded_init loop
  · rw [hcontrol]
    exact ControlServer.numbered_init (by rw [hrestored.floor]; exact hnext)
  · rw [hcontrol, hfloor]
    refine ⟨?_, fun id hmem => ?_⟩
    · show summary.nextExecutionId ≤ loop.minimumExecutionId
      rw [hrestored.floor]
      exact UInt64.le_refl _
    · cases hmem
  · have hsame : host.registration = registration := by
      rw [hregistration, hrestored.registry, ← hregistry]
    rw [hsame]
    exact hinv

/-! ## Compensations that are done -/

/-- Taking an id out leaves the others, in another order. -/
theorem takeOut_perm {recovered : List UInt64} {index : Nat} {executionId : UInt64}
    (h : recovered[index]? = some executionId) :
    recovered.Perm (executionId :: takeOut recovered index) := by
  obtain ⟨hlt, hget⟩ := List.getElem?_eq_some_iff.mp h
  let last := recovered.getD (recovered.length - 1) 0
  have hne : recovered.set index last ≠ [] := by
    intro hnil
    have hlength := congrArg List.length hnil
    rw [List.length_set, List.length_nil] at hlength
    omega
  -- the last id now stands at both places, and the second is cut off
  have hlast : (recovered.set index last).getLast hne = last := by
    rw [List.getLast_eq_getElem, List.getElem_set]
    split
    · rfl
    · simp only [List.length_set]
      exact (List.getD_eq_getElem _ _ _).symm
  have hsplit : recovered.set index last = takeOut recovered index ++ [last] := by
    have hcut := (List.dropLast_append_getLast hne).symm
    rwa [hlast] at hcut
  have hset : (recovered.set index last).Perm (last :: recovered.eraseIdx index) :=
    List.set_perm_cons_eraseIdx hlt last
  rw [hsplit] at hset
  have hrest : (takeOut recovered index).Perm (recovered.eraseIdx index) :=
    ((List.perm_append_singleton last _).symm.trans hset).cons_inv
  calc recovered.Perm (recovered[index] :: recovered.eraseIdx index) :=
        (List.getElem_cons_eraseIdx_perm hlt).symm
    List.Perm _ (executionId :: takeOut recovered index) := by
        rw [hget]
        exact hrest.symm.cons _

/-- The slot of an id that the host owns is given free, and the host owns the others only. -/
theorem Serving.reaps {recovered rest : List UInt64} {server : ControlServer} {loop : Loop}
    {executionId : UInt64} (h : Serving image recovered server)
    (hperm : recovered.Perm (executionId :: rest)) (hnodup : recovered.Nodup)
    (hrelease : server.loop.release executionId = some (.ok, loop)) :
    Serving image rest { server with loop } := by
  obtain ⟨i, hfrees, -⟩ := Loop.release_ok hrelease
  have hruns : ∀ id, loop.Runs id ↔ server.loop.Runs id ∧ id ≠ executionId :=
    fun id => Loop.runs_frees h.loop hfrees
  have hmem : executionId ∈ recovered := hperm.mem_iff.mpr List.mem_cons_self
  have hrest : ∀ id ∈ rest, id ∈ recovered ∧ id ≠ executionId := by
    intro id hid
    refine ⟨hperm.mem_iff.mpr (List.mem_cons_of_mem _ hid), fun hsame => ?_⟩
    have hcons := hperm.nodup_iff.mp hnodup
    rw [hsame] at hid
    exact (List.nodup_cons.mp hcons).1 hid
  refine ⟨h.loop.frees hfrees, h.active, fun place ha => ?_, h.own, fun id hr => ?_,
    fun id hid => ?_, fun place ha hid => ?_⟩
  · refine (hruns _).mpr ⟨h.runs place ha, fun hsame => h.apart place ha ?_⟩
    rw [hsame]
    exact hmem
  · obtain ⟨hold, hne⟩ := (hruns id).mp hr
    rcases h.owned id hold with howner | hkept
    · exact .inl howner
    · rcases List.mem_cons.mp (hperm.mem_iff.mp hkept) with hsame | hleft
      · exact absurd hsame hne
      · exact .inr hleft
  · obtain ⟨hkept, hne⟩ := hrest id hid
    exact (hruns id).mpr ⟨h.recovered id hkept, hne⟩
  · exact h.apart place ha (hrest _ hid).1

theorem Shifts.serving {before behind : List UInt64 × ControlServer} (h : Shifts image before behind)
    (hs : Serving image before.1 before.2) (hnodup : before.1.Nodup) :
    Serving image behind.1 behind.2 ∧ behind.1.Nodup := by
  cases h with
  | moves moved => exact ⟨hs.moves moved, hnodup⟩
  | registers registry => exact ⟨hs.withRegistry registry, hnodup⟩
  | reaps taken released =>
      exact ⟨Serving.reaps hs taken hnodup released,
        (List.nodup_cons.mp (taken.nodup_iff.mp hnodup)).2⟩

/-- What every single one of them keeps, while the servers are in order, they keep together. -/
theorem Ranges.keeps {P : List UInt64 × ControlServer → Prop}
    (hstep : ∀ {before behind}, Serving image before.1 before.2 → Shifts image before behind →
      P before → P behind)
    {before behind : List UInt64 × ControlServer} (hs : Serving image before.1 before.2)
    (hnodup : before.1.Nodup) (h : Ranges image before behind) (hp : P before) : P behind := by
  have hall : (Serving image behind.1 behind.2 ∧ behind.1.Nodup) ∧ P behind := by
    induction h with
    | refl => exact ⟨⟨hs, hnodup⟩, hp⟩
    | tail _ hshift ih => exact ⟨hshift.serving ih.1.1 ih.1.2, hstep ih.1.1 hshift ih.2⟩
  exact hall.2

/-- The host is in order, and its control server has only done what it may. -/
structure Follows (image : Image) (floor : UInt64) (host host' : HermasHost) : Prop where
  kept : Kept image floor host'
  ranges : Ranges image host.owned host'.owned

theorem Follows.refl (h : Kept image floor host) : Follows image floor host host :=
  ⟨h, ReflTransGen.refl⟩

theorem Follows.trans {host'' : HermasHost} (h : Follows image floor host host')
    (h' : Follows image floor host' host'') : Follows image floor host host'' :=
  ⟨h'.kept, h.ranges.trans h'.ranges⟩

theorem Follows.progressed (h : Follows image floor host host') (count : Nat) :
    Follows image floor host (host'.progressed count) := ⟨h.kept.progressed count, h.ranges⟩

theorem follows_registration {registration : RegistrationServer} (h : Kept image floor host)
    (hinv : RegistrationServer.Inv (Registry.init image) registration) :
    Follows image floor host (host.withRegistration registration) :=
  ⟨h.withRegistration hinv, .single (.registers registration.registry)⟩

theorem follows_control {control : ControlServer} (h : Kept image floor host)
    (hm : Moved image host.control control) : Follows image floor host (host.withControl control) :=
  ⟨h.withControl hm, ranges_moved hm⟩

/-- **The host gives its own free.** Each of its executions is still active or is given free, so
that nothing can go wrong. -/
theorem reapFrom_follows : ∀ (rounds index : Nat) {host : HermasHost}, Kept image floor host →
    (reapFrom rounds index host).Ensures fun r host' => r = .ok ∧ Follows image floor host host'
  | 0, index, host, h => Call.ensures_done ⟨rfl, Follows.refl h⟩
  | rounds + 1, index, host, h => by
      rw [reapFrom]
      split
      · exact Call.ensures_done ⟨rfl, Follows.refl h⟩
      rename_i executionId hindex
      have hruns := h.serving.recovered executionId (List.mem_of_getElem? hindex)
      have hzero : executionId ≠ 0 := by
        obtain ⟨i, hactive, hid⟩ := hruns
        rw [← hid]
        exact h.serving.loop.nonzero i hactive
      split
      · exact reapFrom_follows rounds (index + 1) h
      · rename_i e hne hresult
        exact absurd (Loop.result_error hruns hzero hresult) hne
      · rename_i frame hresult
        obtain ⟨loop, hrelease⟩ := Loop.release_result hzero hresult
        rw [hrelease]
        have hperm := takeOut_perm hindex
        have hfloor : loop.minimumExecutionId = host.control.loop.minimumExecutionId := by
          obtain ⟨i, -, hfloor⟩ := Loop.release_ok hrelease
          exact hfloor
        let reaped : HermasHost := { host.withControl { host.control with loop } with
          recovered := takeOut host.recovered index }.progressed 1
        have hranges : Ranges image host.owned reaped.owned := .single (.reaps hperm hrelease)
        have hreaped : Follows image floor host reaped := by
          refine ⟨⟨Serving.reaps h.serving hperm h.once hrelease, ?_, h.recorded,
            h.numbered.silent hfloor rfl rfl fun _ ha => ⟨ha, rfl⟩, ⟨?_, h.above.admitted⟩, ?_⟩,
            hranges⟩
          · exact (List.nodup_cons.mp (hperm.nodup_iff.mp h.once)).2
          · show floor ≤ loop.minimumExecutionId
            rw [hfloor]
            exact h.above.next
          · have hregistry : loop.registry = host.registration.registry := by
              rw [host.shared, Loop.release_registry hrelease]
            exact h.registration.dropped (Registry.dropped_same hregistry)
        exact (reapFrom_follows rounds index hreaped.kept).mono fun r host' hr =>
          ⟨hr.1, hreaped.trans hr.2⟩

/-! ## Steps -/

/-- What a call of the host may come to: it never finds its own state wrong. -/
def Goes (image : Image) (floor : UInt64) (host : HermasHost) (r : HostResult) (host' : HermasHost) :
    Prop :=
  r ≠ .stateError ∧ (r = .ok → Follows image floor host host')

theorem goes_ok (h : Follows image floor host host') : Goes image floor host .ok host' :=
  ⟨by decide, fun _ => h⟩

theorem goes_failed {r : HostResult} (hstate : r ≠ .stateError) (hok : r ≠ .ok) :
    Goes image floor host r host' := ⟨hstate, fun h => absurd h hok⟩

theorem Goes.after {host'' : HermasHost} {r : HostResult} (h : Follows image floor host host')
    (hg : Goes image floor host' r host'') : Goes image floor host r host'' :=
  ⟨hg.1, fun hok => h.trans (hg.2 hok)⟩

theorem goes_andThen {call : Call HostResult HermasHost}
    {rest : HermasHost → Call HostResult HermasHost} (hcall : call.Ensures (Goes image floor host))
    (hrest : ∀ host', Kept image floor host' → (rest host').Ensures (Goes image floor host')) :
    (call.andThen rest).Ensures (Goes image floor host) := by
  refine Call.ensures_andThen hcall (fun host' h => ?_) fun _ _ _ h => h
  have hfollows := h.2 rfl
  exact (hrest host' hfollows.kept).mono fun r host'' hg => hg.after hfollows

theorem advanceServers_goes (h : Kept image floor host) (serverAnswers : ServerAnswers) :
    (host.advanceServers image bound serverAnswers).Ensures (Goes image floor host) := by
  obtain ⟨-, hregistration⟩ := h.registration.step serverAnswers.registration
  unfold advanceServers
  split
  · rename_i registration hstep
    rw [hstep] at hregistration
    have hregistered := (follows_registration h hregistration).progressed registration.progress
    simp only
    split
    · exact Call.ensures_done (goes_ok hregistered)
    split
    · exact Call.ensures_none
    · rename_i control hcontrol
      have hmoved : Moved image
          ((host.withRegistration registration).progressed registration.progress).control control :=
        (ControlServer.step_advances hregistered.kept.serving serverAnswers.control _ _ hcontrol).moved
      have hcontrolled := hregistered.trans (follows_control hregistered.kept hmoved)
      have hnext : Follows image floor host ({ (((host.withRegistration registration).progressed
          registration.progress).withControl control) with
            nextExecutionId := control.loop.minimumExecutionId }.progressed control.progress) :=
        ⟨(hcontrolled.kept.withNext _).progressed _, hcontrolled.ranges⟩
      exact (reapFrom_follows _ 0 hnext.kept).mono fun r host' hr =>
        ⟨by rw [hr.1]; decide, fun _ => hnext.trans hr.2⟩
    · exact Call.ensures_report (goes_failed (by decide) (by decide))
  · exact Call.ensures_report (goes_failed (by decide) (by decide))

theorem acceptApp_goes (h : Kept image floor host) (answer : AcceptAnswer) :
    (host.acceptApp answer).Ensures (Goes image floor host) := by
  have haccepted : RegistrationServer.Inv (Registry.init image) (host.registration.accept answer).2 := by
    cases answer with
    | again => exact h.registration
    | failed => exact h.registration
    | client descriptor configured => exact h.registration.attach descriptor configured
  unfold acceptApp
  simp only
  split
  · exact Call.ensures_report (goes_failed (by decide) (by decide))
  · exact Call.ensures_done (goes_ok ((follows_registration h haccepted).progressed 1))

theorem acceptClient_goes (h : Kept image floor host) (answer : AcceptAnswer) :
    (host.acceptClient answer).Ensures (Goes image floor host) := by
  have hmoved : Moved image host.control (host.control.accept answer).2 :=
    ControlServer.accept_moved answer
  unfold acceptClient
  simp only
  split
  · exact Call.ensures_report (goes_failed (by decide) (by decide))
  · exact Call.ensures_done (goes_ok ((follows_control h hmoved).progressed 1))

theorem acceptAll_goes (h : Kept image floor host) (ready : Bool) (hostAnswers : HostAnswers)
    (app control : PollAnswer) :
    (host.acceptAll ready hostAnswers app control).Ensures (Goes image floor host) := by
  unfold acceptAll
  refine goes_andThen (goes_andThen ?_ fun host hkept => ?_) fun host hkept => ?_
  · split
    · exact acceptApp_goes h _
    · exact Call.ensures_done (goes_ok (Follows.refl h))
  · split
    · exact acceptClient_goes hkept _
    · exact Call.ensures_done (goes_ok (Follows.refl hkept))
  · split
    · exact Call.ensures_report (goes_failed (by decide) (by decide))
    · exact Call.ensures_done (goes_ok (Follows.refl hkept))

/-- **A step keeps the host in order**, whatever the sockets answer. -/
theorem step_goes (h : Kept image floor host) (hostAnswers : HostAnswers) :
    (host.step image bound hostAnswers).Ensures (Goes image floor host) := by
  have hstart : Follows image floor host { host with progress := 0 } :=
    ⟨⟨h.serving, h.once, h.recorded, h.numbered, h.above, h.registration⟩, ReflTransGen.refl⟩
  unfold step
  refine Call.Ensures.mono (Q := Goes image floor { host with progress := 0 })
    (goes_andThen (advanceServers_goes hstart.kept hostAnswers.first) fun host hkept => ?_)
    fun r host' hg => hg.after hstart
  split
  · exact Call.ensures_done (goes_ok (Follows.refl hkept))
  · exact Call.ensures_report (goes_failed (by decide) (by decide))
  · exact goes_andThen (acceptAll_goes hkept _ _ _ _) fun host hkept =>
      advanceServers_goes hkept hostAnswers.last

/-! ## Runs -/

/-- The host on an image, from step to step; it opens on any files. -/
def system (image : Image) : System HermasHost HostAnswers where
  Init host := ∃ workflowId imageFingerprint files,
    openHost image workflowId imageFingerprint files = .ok host
  Step host answers host' := ∃ bound, host.step image bound answers = some (.ok, host')

theorem step_follows {hostAnswers : HostAnswers} (h : Kept image floor host)
    (hstep : (system image).Step host hostAnswers host') : Follows image floor host host' := by
  obtain ⟨bound, hstep⟩ := hstep
  exact (step_goes h hostAnswers _ _ hstep).2 rfl

/-- Whatever the host has done, it is in order. -/
theorem follows_reachable {opened : HermasHost} (hopen : Kept image floor opened)
    (h : ((system image).startingAt opened).Reach host) : Follows image floor opened host := by
  induction h with
  | init hinit =>
      have hsame : _ = opened := hinit
      rw [hsame]
      exact Follows.refl hopen
  | step _ _ hstep ih => exact ih.trans (step_follows ih.kept hstep)

theorem kept_reachable (h : (system image).Reach host) : ∃ floor, Kept image floor host := by
  induction h with
  | init hinit =>
      obtain ⟨workflowId, imageFingerprint, files, hopen⟩ := hinit
      exact ⟨_, opened_kept hopen⟩
  | step _ _ hstep ih =>
      obtain ⟨floor, hkept⟩ := ih
      exact ⟨floor, (step_follows hkept hstep).kept⟩

/-! ### One execution of one client -/

/-- The call that writes the result of an execution, and how much of it went out. -/
def sends (executionId : UInt64) (count : Int) : ClientCall → Bool
  | .result _ id _ sent => id == executionId && sent == count
  | _ => false

/-- Nothing happens on any socket. -/
def quiet : ServerAnswers where
  registration := {
    first := fun _ => .again
    poll := some fun _ => ⟨false, false⟩
    received := fun _ => .again
    last := fun _ => .again }
  control := {
    firstPoll := fun _ => {}
    first := fun _ => .again
    poll := some fun _ => ⟨false, false⟩
    received := fun _ => .again
    lastPoll := fun _ => {}
    last := fun _ => .again }

/-- The packet of a frame that can be encoded. -/
def packetOf (frame : Frame) : Bytes :=
  (Protocol.encode frame Protocol.maxPacketSize).toOption.getD []

/-- The app connects, and registers for the only action. -/
def appRegisters : HostAnswers where
  first := quiet
  listeners := .events ⟨false, true⟩ ⟨false, false⟩
  appAccept := .client 5 true
  controlAccept := .again
  last := { quiet with
    registration := { quiet.registration with
      poll := some fun _ => ⟨false, true⟩
      received := fun _ => .packet (packetOf
        { kind := .registerApp, appId := 1, actionId := 1, payload := List.replicate 32 0 })
      last := fun _ => .sent 48 } }

/-- A client connects and submits an execution, whose request is sent. -/
def clientSubmits : HostAnswers where
  first := quiet
  listeners := .events ⟨false, false⟩ ⟨false, true⟩
  appAccept := .again
  controlAccept := .client 6 true
  last := { quiet with
    control := { quiet.control with
      poll := some fun _ => ⟨false, true⟩
      received := fun _ => .packet (packetOf
        { kind := .execute, executionId := 1, sourceType := 1, payload := [1] })
      lastPoll := fun _ => { pollOut := true } } }

/-- The app answers, and the client is sent the result. -/
def appAnswers : HostAnswers where
  first := { quiet with
    control := { quiet.control with
      firstPoll := fun _ => {
        pollIn := true
        received := .packet (packetOf
          { kind := .result, executionId := 1, requestId := 1, appId := 1, actionId := 1
            sourceType := 1, destinationType := 1, outcome := .success, payload := [1] }) }
      first := fun _ => .sent 49 } }
  listeners := .interrupted
  appAccept := .again
  controlAccept := .again
  last := quiet

/-- One step after the other, as long as they go well. -/
def stepAll (image : Image) (bound : Nat) (host : HermasHost) (steps : List HostAnswers) :
    Option HermasHost :=
  steps.foldlM (fun host hostAnswers =>
    match host.step image bound hostAnswers with
    | some (.ok, host) => some host
    | _ => none) host

theorem reach_stepAll {opened : HermasHost} : ∀ (steps : List HostAnswers) {host : HermasHost},
    ((system image).startingAt opened).Reach host → host.stepAll image bound steps = some host' →
      ((system image).startingAt opened).Reach host'
  | [], host, h, hall => by
      cases hall
      exact h
  | hostAnswers :: steps, host, h, hall => by
      simp only [stepAll, List.foldlM_cons, Option.bind_eq_bind, Option.bind_eq_some_iff] at hall
      obtain ⟨next, hnext, hrest⟩ := hall
      split at hnext
      · rename_i hstep
        cases hnext
        exact reach_stepAll steps (.step h trivial ⟨bound, hstep⟩) hrest
      · cases hnext

/-- A host that has opened on empty files, and has gone some steps. -/
theorem reach_fresh {image : Image} {bound : Nat} {steps : List HostAnswers}
    {P : HermasHost → Bool} (h : (openHost image 1 1 {}).toOption.any (fun opened =>
      (opened.stepAll image bound steps).any P) = true) :
    ∃ opened host, openHost image 1 1 {} = .ok opened ∧
      ((system image).startingAt opened).Reach host ∧ (system image).Reach host ∧
      P host = true := by
  simp only [Option.any_eq_true] at h
  obtain ⟨opened, hopen, host, hsteps, hholds⟩ := h
  have hopened : openHost image 1 1 {} = .ok opened := by
    cases hcall : openHost image 1 1 {} with
    | error e => rw [hcall] at hopen; cases hopen
    | ok other => rw [hcall] at hopen; cases hopen; rfl
  have hreach := reach_stepAll steps (.init rfl) hsteps
  exact ⟨opened, host, hopened, hreach, .append (.init ⟨1, 1, {}, hopened⟩) hreach, hholds⟩

/-! ### What holds between two steps -/

/-- **Every execution has one owner.** Whatever clients and apps do, in every state between two
steps of the host the loop runs exactly what some client has submitted or the host took up
itself. No two clients own one execution, no client owns one of the host's, and the host lists
none of its own twice. So no step ever ends in a state error. -/
theorem executions_owned (h : (system image).Reach host) :
    (∀ executionId, host.control.loop.Runs executionId ↔
      (∃ place, (host.control.clients place).admitted = true ∧
        (host.control.clients place).executionId = executionId) ∨ executionId ∈ host.recovered) ∧
    (∀ place other, (host.control.clients place).admitted = true →
      (host.control.clients other).admitted = true →
      (host.control.clients place).executionId = (host.control.clients other).executionId →
        place = other) ∧
    (∀ place, (host.control.clients place).admitted = true →
      (host.control.clients place).executionId ∉ host.recovered) ∧
    host.recovered.Nodup ∧
    ∀ bound hostAnswers host', host.step image bound hostAnswers ≠ some (.stateError, host') := by
  obtain ⟨floor, hkept⟩ := kept_reachable h
  refine ⟨fun executionId => ⟨hkept.serving.owned executionId, ?_⟩, hkept.serving.own,
    hkept.serving.apart, hkept.once, fun bound hostAnswers host' hstep => ?_⟩
  · rintro (⟨place, hadmitted, hid⟩ | hmem)
    · rw [← hid]
      exact hkept.serving.runs place hadmitted
    · exact hkept.serving.recovered executionId hmem
  · exact (step_goes hkept hostAnswers _ _ hstep).1 rfl

set_option maxRecDepth 20000 in
theorem executions_owned_oneAction : ∃ host, (system oneAction).Reach host ∧
    host.control.loop.Runs 1 := by
  obtain ⟨opened, host, -, -, hreach, hrun⟩ := @reach_fresh oneAction 10
    [appRegisters, clientSubmits] (fun host => (host.control.clients ⟨0, by decide⟩).admitted &&
      (host.control.clients ⟨0, by decide⟩).executionId == 1) (by decide +kernel)
  rw [Bool.and_eq_true, beq_iff_eq] at hrun
  exact ⟨host, hreach, ((executions_owned hreach).1 1).mpr (.inl ⟨_, hrun.1, hrun.2⟩)⟩

/-- **Clients are served by the rules.** Every call that the control server made for a client was
allowed at the stage that the client was in. In particular a result is written only to the
descriptor on which its execution was submitted, and an execution is given free only behind its
whole result, or when its client is gone. -/
theorem clients_served (h : (system image).Reach host) {later earlier : List ClientCall}
    {call : ClientCall} (hcalls : host.control.calls = later ++ call :: earlier) :
    ∃ before behind, sessions.stage ClientCall.place call.place earlier = some before ∧
      sessions.next before call = some behind := by
  obtain ⟨floor, hkept⟩ := kept_reachable h
  have hstage := hkept.recorded call.place
  rw [hcalls] at hstage
  exact Monitor.allowed rfl hstage

set_option maxRecDepth 20000 in
theorem clients_served_oneAction : ∃ host place packet earlier before behind,
    (system oneAction).Reach host ∧
    sessions.stage ClientCall.place place earlier = some before ∧
    sessions.next before (.result place 1 packet 49) = some behind := by
  obtain ⟨opened, host, -, -, hreach, hrun⟩ := @reach_fresh oneAction 10
    [appRegisters, clientSubmits, appAnswers]
    (fun host => host.control.calls.any (sends 1 49)) (by decide +kernel)
  obtain ⟨call, hmem, hcall⟩ := List.any_eq_true.mp hrun
  obtain ⟨later, earlier, hcalls⟩ := List.append_of_mem hmem
  obtain ⟨before, behind, hstage, hnext⟩ := clients_served hreach hcalls
  cases call with
  | result place executionId packet sent =>
      rw [sends, Bool.and_eq_true, beq_iff_eq, beq_iff_eq] at hcall
      rw [hcall.1, hcall.2] at hnext
      exact ⟨host, place, packet, earlier, before, behind, hreach, hstage, hnext⟩
  | _ => cases hcall

/-- **No execution id comes twice.** Ids are admitted in increasing order, above all that the
journal knew when the host opened, and each execution has its result written once at most. -/
theorem ids_ascend {workflowId : UInt32} {imageFingerprint : UInt64} {files : StateFiles}
    {opened : HermasHost} (hopen : openHost image workflowId imageFingerprint files = .ok opened)
    (h : ((system image).startingAt opened).Reach host) :
    (admissions host.control.calls).Pairwise (· > ·) ∧
      (∀ executionId ∈ admissions host.control.calls,
        ∀ r ∈ Journal.journalRecords files.journal, r.executionId < executionId) ∧
      (answers host.control.calls).Nodup ∧
      ∀ executionId ∈ answers host.control.calls, executionId ∈ admissions host.control.calls := by
  have hkept := (follows_reachable (opened_kept hopen) h).kept
  refine ⟨hkept.numbered.increasing, fun executionId hmem r hr => ?_, hkept.numbered.once,
    hkept.numbered.known⟩
  obtain ⟨registration, journal, summary, loop, -, hjournal, -, -, -, -, -, hnext⟩ :=
    openHost_ok hopen
  have hknown := Journal.fileOpen_known hjournal r hr
  rw [← hnext] at hknown
  exact UInt64.lt_of_lt_of_le hknown (hkept.above.admitted executionId hmem)

set_option maxRecDepth 20000 in
theorem ids_ascend_oneAction : ∃ host, (system oneAction).Reach host ∧
    (answers host.control.calls).Nodup ∧ 1 ∈ answers host.control.calls ∧
    1 ∈ admissions host.control.calls := by
  obtain ⟨opened, host, hopen, hstart, hreach, hrun⟩ := @reach_fresh oneAction 10
    [appRegisters, clientSubmits, appAnswers]
    (fun host => (answers host.control.calls).contains 1) (by decide +kernel)
  obtain ⟨-, -, honce, hknown⟩ := ids_ascend hopen hstart
  have hanswered : 1 ∈ answers host.control.calls := List.contains_iff_mem.mp hrun
  exact ⟨host, hreach, honce, hanswered, hknown 1 hanswered⟩

/-- **Apps are registered by the rules**, while the loop uses and drops their connections. No two
validated clients wait for one action, and none for an action that has a connection; and every
connection was published behind a registration and its whole acknowledgement. -/
theorem apps_registered (h : (system image).Reach host) :
    (∀ place other, (host.registration.clients place).active →
      (host.registration.clients place).validated →
        host.control.loop.registry.connectionAt (host.registration.clients place).actionIndex = none ∧
          ((host.registration.clients other).active →
            (host.registration.clients other).validated →
              (host.registration.clients place).actionIndex =
                (host.registration.clients other).actionIndex → place = other)) ∧
    (∀ index descriptor, host.control.loop.registry.connectionAt index = some descriptor →
      ∃ place, .publish place index descriptor ∈ host.registration.calls) ∧
    ∀ later place index descriptor earlier,
      host.registration.calls = later ++ .publish place index descriptor :: earlier →
        SocketCall.Acknowledged (Registry.init image) place index descriptor earlier := by
  obtain ⟨floor, hkept⟩ := kept_reachable h
  have hinv := hkept.registration
  rw [← host.shared]
  refine ⟨fun place other hactive hvalidated => ⟨(hinv.attached place hactive).free hvalidated,
    hinv.exclusive place other hactive hvalidated⟩, fun index descriptor hopen => ?_,
    fun later place index descriptor earlier hcalls => ?_⟩
  · rcases hinv.opened index descriptor hopen with hfirst | hpublished
    · rw [Registry.connectionAt_init] at hfirst
      cases hfirst
    · exact hpublished
  · have hjustified := hinv.justified
    rw [hcalls] at hjustified
    exact hjustified.acknowledged

set_option maxRecDepth 20000 in
theorem apps_registered_oneAction : ∃ host place, (system oneAction).Reach host ∧
    .publish place 0 5 ∈ host.registration.calls := by
  obtain ⟨opened, host, -, -, hreach, hrun⟩ := @reach_fresh oneAction 10 [appRegisters]
    (fun host => host.control.loop.registry.connectionAt 0 == some 5) (by decide +kernel)
  obtain ⟨place, hpublished⟩ := (apps_registered hreach).2.1 0 5 (beq_iff_eq.mp hrun)
  exact ⟨host, place, hreach, hpublished⟩

end HermasHost

end Hermas.Daemon
