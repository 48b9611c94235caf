import Hermas.Daemon.Sessions

/-!
# The loop drops connections only

The registry belongs to the registration server, which opens connections in it, and to the
daemon loop, which uses them. The loop can do one thing to the registry: drop the
connection of an action that failed to answer. So whatever the registration server holds of
the registry, and dropping keeps, holds behind everything that the control server does.
-/

namespace Hermas.Daemon

open Loop (PollItem Event)
open Relation (ReflTransGen)

namespace Registry

/-- The registry behind a number of connections that were dropped. -/
def Dropped : Registry → Registry → Prop :=
  ReflTransGen fun registry registry' => ∃ appId actionId, registry' = registry.dropAction appId actionId

variable {registry registry' registry'' : Registry}

theorem Dropped.refl (registry : Registry) : Dropped registry registry := ReflTransGen.refl

theorem Dropped.trans (h : Dropped registry registry') (h' : Dropped registry' registry'') :
    Dropped registry registry'' := ReflTransGen.trans h h'

theorem dropped_same (h : registry' = registry) : Dropped registry registry' := h ▸ Dropped.refl _

theorem dropped_one (registry : Registry) (appId actionId : UInt16) :
    Dropped registry (registry.dropAction appId actionId) := .single ⟨appId, actionId, rfl⟩

/-- What dropping one connection keeps is kept. -/
theorem Dropped.keeps {P : Registry → Prop} (h : Dropped registry registry')
    (hP : ∀ registry appId actionId, P registry → P (registry.dropAction appId actionId))
    (hfirst : P registry) : P registry' := by
  induction h with
  | refl => exact hfirst
  | tail _ hstep ih =>
      obtain ⟨appId, actionId, rfl⟩ := hstep
      exact hP _ appId actionId ih

end Registry

open Registry (Dropped dropped_same dropped_one)

namespace AtSlot

variable {image : Image} {bound : Nat} {w w' : AtSlot} {i : FlowIndex}

/-! ## Grouped slots -/

theorem FlowEnds.dropped {group' : GroupExecution} {record : Journal.Record}
    (h : FlowEnds w i group' record w') : Dropped w.registry w'.registry := by
  obtain ⟨v, u, hcloses, hfinish, rfl⟩ := h
  have hfinished : u.advance.registry = v.registry := (finishGroupTransition_marked hfinish).registry
  rw [hfinished]
  rcases hcloses.registry with hsame | hdropped
  · exact dropped_same hsame
  · rw [hdropped]
    exact dropped_one _ _ _

theorem FlowSent.dropped (h : FlowSent image bound w i w') : Dropped w.registry w'.registry := by
  cases h with
  | same => exact Dropped.refl _
  | disowned missing => exact Dropped.refl _
  | sent grouped found marked => exact Dropped.refl _
  | failed grouped marked ends => exact ends.dropped

theorem FlowReceived.dropped {received : Received} (h : FlowReceived image bound received w i w') :
    Dropped w.registry w'.registry := by
  cases h with
  | same => exact Dropped.refl _
  | lost grouped missing marked ends => exact ends.dropped
  | refused grouped marked ends => exact ends.dropped
  | @unanswered group group₁ group' w' registered packet j result status grouped matched refused
      failed marked ends => exact FlowEnds.dropped (w := w.setGroup group₁) ends
  | accepted grouped found read matched accepted ends => exact ends.dropped

/-! ## Sequential slots -/

theorem SlotSent.dropped (h : SlotSent image w w') : Dropped w.registry w'.registry := by
  cases h with
  | released missing => exact Dropped.refl _
  | waits registered => exact Dropped.refl _
  | sent plain found marked => exact Dropped.refl _
  | compensationSent compensating found marked => exact Dropped.refl _
  | @failed registered _ plain failed =>
      obtain ⟨execution, -, -, hregistry⟩ := failToSend_settled failed
      rw [hregistry]
      exact dropped_one _ _ _
  | @compensationFailed registered _ compensating failed =>
      obtain ⟨driver, log, -, rfl⟩ := failToSendCompensation_ok failed
      exact dropped_one w.registry _ _

theorem RefusedCompensation.dropped (h : RefusedCompensation w w') :
    Dropped w.registry w'.registry := by
  obtain ⟨driver, log, -, rfl⟩ := h
  exact dropped_one w.registry _ _

theorem CompensationReceived.dropped {result : Option Frame}
    (h : CompensationReceived image w result w') : Dropped w.registry w'.registry := by
  cases h with
  | refused refused => exact refused.dropped
  | @unanswered result status driver log w' failed refused =>
      exact RefusedCompensation.dropped (w := w.setSaga driver log) refused
  | accepted accepted settled =>
      rcases settled with ⟨-, rfl⟩ | ⟨-, rfl⟩ | ⟨-, -, rfl⟩ <;> exact Dropped.refl _

theorem SlotReceived.dropped {received : Received} (h : SlotReceived image received w w') :
    Dropped w.registry w'.registry := by
  cases h with
  | same => exact Dropped.refl _
  | lost plain missing lost => exact dropped_same (loseExecution_passes lost).registry
  | compensationLost compensating missing lost =>
      exact dropped_same (loseCompensation_passes lost).registry
  | refused plain refused =>
      obtain ⟨execution, -, -, hregistry⟩ := refuseExecution_settled refused
      rw [hregistry]
      exact dropped_one _ _ _
  | unanswered plain rejected failed refused =>
      obtain ⟨execution, -, -, hregistry⟩ := refuseExecution_settled refused
      rw [hregistry]
      exact dropped_one w.registry _ _
  | accepted plain found read decoded accepted recorded =>
      obtain ⟨requests, count, -, hregistry⟩ := recordResult_settled recorded
      exact dropped_same hregistry
  | compensation compensating found read settled => exact settled.dropped

theorem serveFlow_dropped {event : Event} (h : Loop.serveFlow image bound event i w = some (.ok, w')) :
    Dropped w.registry w'.registry := by
  unfold Loop.serveFlow at h
  split at h
  · cases h
    exact Dropped.refl _
  simp only at h
  split at h
  · exact (sendGroupInvocation_ok h).dropped
  split at h
  · exact (receiveGroupResult_ok h).dropped
  split at h
  · split at h
    · exact (sendGroupInvocation_ok h).dropped
    · exact (receiveGroupResult_ok h).dropped
  · cases h
    exact Dropped.refl _

theorem serveSlot_dropped {event : Event} (h : Loop.serveSlot image event w = some (.ok, w')) :
    Dropped w.registry w'.registry := by
  unfold Loop.serveSlot at h
  split at h
  · exact (sendInvocation_ok h).dropped
  split at h
  · exact (receiveResult_ok h).dropped
  split at h
  · split at h
    · exact (sendInvocation_ok h).dropped
    · exact (receiveResult_ok h).dropped
  · cases h
    exact Dropped.refl _

end AtSlot

namespace Loop

variable {image : Image} {bound : Nat} {loop loop' : Loop} {r : LoopResult}

theorem onSlot_dropped {i : SlotIndex} {call : AtSlot → Call LoopResult AtSlot}
    (hcall : ∀ {w w' : AtSlot}, call w = some (.ok, w') → Dropped w.registry w'.registry)
    (h : loop.onSlot i call = some (.ok, loop')) : Dropped loop.registry loop'.registry := by
  obtain ⟨w, hw, rfl⟩ := onSlot_some h
  exact hcall hw

/-- A poll does nothing to the registry but drop connections. -/
theorem poll_dropped {events : PollItem → Event}
    (h : loop.poll image bound events = some (.ok, loop')) :
    Dropped loop.registry loop'.registry := by
  have heach : ∀ {ι : Type} {body : ι → Loop → Call LoopResult Loop},
      (∀ i {l l' : Loop}, body i l = some (.ok, l') → Dropped l.registry l'.registry) →
      ∀ (is : List ι) {l l' : Loop}, Call.each body is l = some (.ok, l') →
        Dropped l.registry l'.registry :=
    fun hbody is _ _ hcall => Call.each_rel (R := fun l l' : Loop => Dropped l.registry l'.registry)
      (fun _ => Dropped.refl _) Dropped.trans (fun i _ _ hi => hbody i hi) is hcall
  rw [poll_eq] at h
  obtain ⟨begun, hbegin, hserve⟩ := Call.andThen_ok h
  obtain ⟨prepared, reconciled, hprepare, hreconcile, hassign⟩ := beginPoll_stages hbegin
  have hprepares : ∀ {i : SlotIndex} {l l' : Loop}, onSlot i (AtSlot.prepareSlot image) l =
      some (.ok, l') → Dropped l.registry l'.registry := fun hslot =>
    onSlot_dropped (fun hw => dropped_same (AtSlot.prepareSlot_passes hw).registry) hslot
  have hreconciles : ∀ {i : SlotIndex} {l l' : Loop}, onSlot i (AtSlot.reconcileSlot image bound) l =
      some (.ok, l') → Dropped l.registry l'.registry := fun hslot =>
    onSlot_dropped (fun hw => dropped_same (AtSlot.reconcileSlot_passes hw).registry) hslot
  have hfirst := heach (fun _ _ _ hslot => hprepares hslot) _ hprepare
  have hsecond := heach (fun _ _ _ hslot => hreconciles hslot) _ hreconcile
  have hassigned : begun.registry = reconciled.registry := by
    rw [hassign, (assignAvailableActions_same reconciled).shared]
  have hlast : Dropped begun.registry loop'.registry := heach (fun item _ _ hitem => by
    unfold serve at hitem
    split at hitem
    · exact onSlot_dropped AtSlot.serveFlow_dropped hitem
    · exact onSlot_dropped AtSlot.serveSlot_dropped hitem) _ hserve
  rw [hassigned] at hlast
  have hboth : Dropped loop.registry reconciled.registry := hfirst.trans hsecond
  exact hboth.trans hlast

theorem admission_registry {executionId : UInt64} {inputType : UInt16} {input : Bytes}
    (h : loop.admitExecution image bound executionId inputType input = some (r, loop')) :
    loop'.registry = loop.registry := (refilled_admitExecution h).1

theorem release_registry {executionId : UInt64} (h : loop.release executionId = some (r, loop')) :
    loop'.registry = loop.registry := (refilled_release h).1

theorem resumeSaga_registry {execution : Saga.Execution}
    (h : loop.resumeSaga image execution = some (r, loop')) : loop'.registry = loop.registry :=
  (refilled_resumeSaga h).1

end Loop

theorem Control.submit_registry {image : Image} {bound : Nat} {loop loop' : Loop} {packet : Bytes}
    {answer : Except ControlResult UInt64}
    (h : Control.submit image bound packet loop = some (answer, loop')) :
    loop'.registry = loop.registry := by
  unfold Control.submit at h
  split at h
  · cases h
    rfl
  split at h
  · cases h
    rfl
  split at h
  · cases h
  · rename_i hadmit
    cases h
    exact Loop.admission_registry hadmit
  · rename_i hadmit
    cases h
    exact Loop.admission_registry hadmit

namespace ControlServer

variable {image : Image} {server server' : ControlServer}

theorem Moves.dropped (h : Moves image server server') :
    Dropped server.loop.registry server'.loop.registry := by
  cases h with
  | counts loop clients calls => exact dropped_same (by rw [loop])
  | polls polled clients calls => exact Loop.poll_dropped polled
  | refuses refused clients calls => exact dropped_same (Control.submit_registry refused)
  | attaches place descriptor free loop clients calls => exact dropped_same (by rw [loop])
  | drops place descriptor connected loop clients calls => exact dropped_same (by rw [loop])
  | admits place descriptor executionId packet connected submitted clients calls =>
      exact dropped_same (Control.submit_registry submitted)
  | abandons place descriptor executionId running loop clients calls =>
      exact dropped_same (by rw [loop])
  | finishes place executionId released clients calls =>
      exact dropped_same (Loop.release_registry released)

/-- The control server does nothing to the registry but drop connections. -/
theorem Moved.dropped (h : Moved image server server') :
    Dropped server.loop.registry server'.loop.registry := by
  induction h with
  | refl => exact Dropped.refl _
  | tail _ hstep ih => exact ih.trans hstep.dropped

end ControlServer

end Hermas.Daemon
