import Hermas.Base.Reach
import Hermas.Daemon.Loop

/-!
# Runs of the daemon loop

The daemon makes one call after the other: it admits and releases executions,
publishes an app that has registered, and polls. A poll is taken apart here. It
first prepares, reconciles and assigns, and then serves one item after the other;
what holds in front of every item holds in front of and behind every poll.

A poll that fails ends the daemon, so a run goes on behind polls that succeed
only. Every other call may fail, and the run goes on with what it left behind.
-/

namespace Hermas.Daemon

open Loop (PollItem Event)

namespace Loop

variable (image : Image) (bound : Nat)

/-- `hermas_daemon_loop_poll` up to the system call. -/
def beginPoll (loop : Loop) : Call LoopResult Loop :=
  (({ loop with progress := 0 } : Loop).prepareReady image).andThen fun loop =>
    (loop.reconcileMissingActions image bound).andThen fun loop =>
      let loop := loop.assignAvailableActions
      if maxActions < loop.collectItems.length then Call.report .capacityExhausted loop
      else Call.done loop

/-- The flow of an item of a grouped slot. -/
def flowAt (loop : Loop) (item : PollItem) : Option Flow :=
  item.flow.bind fun i => (loop.slots item.slot).group.map fun group => group.flows i

/-- The delivery of an item is in one of the states. -/
def inState (loop : Loop) (item : PollItem) (states : Slot → Bool)
    (flowStates : ExecutionState → Bool) : Bool :=
  (loop.slots item.slot).active &&
    match item.flow with
    | none => states (loop.slots item.slot)
    | some _ => (loop.flowAt item).any fun flow => flow.active && flowStates flow.state

def readyAt (loop : Loop) (item : PollItem) : Bool := loop.inState item Slot.ready (· == .ready)

def preparedAt (loop : Loop) (item : PollItem) : Bool :=
  loop.inState item Slot.prepared (· == .prepared)

def sentAt (loop : Loop) (item : PollItem) : Bool := loop.inState item Slot.sent (· == .sent)

/-- The delivery of an item owns its action. -/
def ownsAt (loop : Loop) (item : PollItem) : Bool :=
  (loop.slots item.slot).active &&
    match item.flow with
    | none => (loop.slots item.slot).group.isNone && (loop.slots item.slot).ownsAction
    | some i => (loop.slots item.slot).group.isSome &&
        ((loop.slots item.slot).groupDeliveries i).ownsAction

/-- The action that the delivery of an item is for. -/
def actionAt (loop : Loop) (item : PollItem) : UInt16 × UInt16 :=
  let slot := loop.slots item.slot
  match item.flow with
  | none => (slot.appId, slot.actionId)
  | some i => ((slot.groupDeliveries i).appId, (slot.groupDeliveries i).actionId)

/-- The connection that serves the delivery of an item. -/
def connectionAt (loop : Loop) (item : PollItem) : Option Nat :=
  (loop.registry.findAction (loop.actionAt item).1 (loop.actionAt item).2).map Prod.fst

end Loop

/-- What the daemon does next. -/
inductive Move where
  | admission (executionId : UInt64) (inputType : UInt16) (input : Bytes)
  | release (executionId : UInt64)
  | resumeSaga (execution : Saga.Execution)
  | publish (index : Nat) (registeredActionId : UInt16)
  | beginPoll
  | serve (event : Event)

/-- The loop and, inside a poll, the items that are still to be served. `connections` numbers the
connections, so that no two have one name.

The other fields are not in the source. A delivery is `outstanding` from its preparation until the
interpreter writes to its flow again, other than to mark it as sent; `sentOn` is then the
connection that its packet was written to. `polled` is the registry as the last poll found it. -/
structure Host extends Loop where
  pending : List PollItem := []
  connections : Nat := 0
  outstanding : PollItem → Bool := fun _ => false
  sentOn : PollItem → Nat := fun _ => 0
  polled : Registry := []

namespace Host

variable (image : Image)

/-- The deliveries that stay outstanding: their flows are as they were, and the one that was served
may have been marked as sent. -/
def stillOutstanding (host : Host) (loop : Loop) (served : Option PollItem) (item : PollItem) :
    Bool :=
  host.outstanding item && (loop.preparedAt item || loop.sentAt item) &&
    (loop.flowAt item == host.flowAt item ||
      (served == some item &&
        loop.flowAt item == (host.flowAt item).map fun flow => { flow with state := .sent }))

/-- A call between two polls, whatever it reports. -/
def between (host : Host) (call : Call LoopResult Loop) : Option Host :=
  if host.pending = [] then
    call.map fun (_, loop) =>
      { host with toLoop := loop, outstanding := host.stillOutstanding loop none }
  else none

/-- The packet of the item's delivery went out to the connection that served it before. -/
def noteSent (host : Host) (item : PollItem) (loop : Loop) : PollItem → Nat :=
  if loop.sentAt item ∧ ¬ host.sentAt item then
    Function.update host.sentOn item ((host.connectionAt item).getD 0)
  else host.sentOn

/-- One move, with a bound on the recursion of the group interpreter. -/
def perform (bound : Nat) (host : Host) : Move → Option Host
  | .admission executionId inputType input =>
      host.between (host.admitExecution image bound executionId inputType input)
  | .release executionId => host.between (host.toLoop.release executionId)
  | .resumeSaga execution => host.between (host.toLoop.resumeSaga image execution)
  | .publish index registeredActionId =>
      if host.pending = [] then
        some { host with
          registry := host.registry.publish index host.connections registeredActionId
          connections := host.connections + 1 }
      else none
  | .beginPoll =>
      if host.pending = [] then
        match host.toLoop.beginPoll image bound with
        | some (.ok, loop) =>
            some { host with
              toLoop := loop
              pending := loop.collectItems
              outstanding := fun item =>
                (loop.preparedAt item || loop.sentAt item) &&
                  (host.outstanding item || host.readyAt item)
              polled := host.registry }
        | _ => none
      else none
  | .serve event =>
      match host.pending with
      | [] => none
      | item :: rest =>
          match host.toLoop.serve image bound item event with
          | some (.ok, loop) =>
              some { host with
                toLoop := loop
                pending := rest
                outstanding := host.stillOutstanding loop (some item)
                sentOn := host.noteSent item loop }
          | _ => none

/-- What a move leaves behind. -/
def Performs (host : Host) (move : Move) (host' : Host) : Prop :=
  ∃ bound, host.perform image bound move = some host'

/-- What `hermas_host_open` sets up before it resumes compensations; the logs may hold anything. -/
structure Opened (host : Host) : Prop where
  supported : imageCheck image = .ok
  slots : host.slots = fun _ => {}
  groupUsed : host.groupUsed = fun _ => false
  registry : host.registry = Registry.init image
  pending : host.pending = []
  history : host.history = []
  outstanding : host.outstanding = fun _ => false
  polled : host.polled = host.registry

/-- A daemon that has just been opened on empty logs. -/
def fresh : Host where
  workflowId := 1
  imageFingerprint := 1
  registry := Registry.init image
  journal := { nextSequence := 1 }
  results := { nextSequence := 1 }
  compensation := { nextSequence := 1 }
  sagaLog := { nextSequence := 1 }
  polled := Registry.init image

/-- One move after the other. -/
def performAll (bound : Nat) (host : Host) (moves : List Move) : Option Host :=
  moves.foldlM (perform image bound) host

/-- The daemon on an image. -/
def system : System Host Move where
  Init := Opened image
  Step := Performs image

end Host

/-! ## Calls on a slot -/

namespace Loop

variable {image : Image} {loop loop' : Loop} {i j : SlotIndex} {r : LoopResult}

@[simp] theorem put_slots_self (loop : Loop) (i : SlotIndex) (w : AtSlot) :
    (loop.put i w).slots i = w.slot := by simp [put]

@[simp] theorem put_slots_of_ne (loop : Loop) (w : AtSlot) (h : j ≠ i) :
    (loop.put i w).slots j = loop.slots j := by simp [put, h]

theorem onSlot_some {call : AtSlot → Call LoopResult AtSlot}
    (h : loop.onSlot i call = some (r, loop')) :
    ∃ w, call (loop.view i) = some (r, w) ∧ loop' = loop.put i w := by
  unfold onSlot at h
  cases hcall : call (loop.view i) with
  | none => rw [hcall] at h; cases h
  | some p => rw [hcall] at h; cases h; exact ⟨p.2, rfl, rfl⟩

/-- Serving an item is a call on its slot. -/
theorem serve_some {bound : Nat} {item : PollItem} {event : Event}
    (h : loop.serve image bound item event = some (r, loop')) :
    ∃ w, loop' = loop.put item.slot w ∧
      ((∃ flow, item.flow = some flow ∧
          serveFlow image bound event flow (loop.view item.slot) = some (r, w)) ∨
        (item.flow = none ∧
          serveSlot image event (loop.view item.slot) = some (r, w))) := by
  unfold serve at h
  cases hflow : item.flow with
  | none =>
      rw [hflow] at h
      obtain ⟨w, hw, rfl⟩ := onSlot_some h
      exact ⟨w, rfl, .inr ⟨rfl, hw⟩⟩
  | some flow =>
      rw [hflow] at h
      obtain ⟨w, hw, rfl⟩ := onSlot_some h
      exact ⟨w, rfl, .inl ⟨flow, rfl, hw⟩⟩

/-- A poll begins, and then serves its items in order. -/
theorem poll_eq (bound : Nat) (events : PollItem → Event) (loop : Loop) :
    loop.poll image bound events = (loop.beginPoll image bound).andThen fun loop =>
      Call.each (fun item => serve image bound item (events item)) loop.collectItems loop := by
  unfold poll beginPoll
  rw [Call.andThen_assoc]
  refine congrArg _ (funext fun loop => ?_)
  rw [Call.andThen_assoc]
  refine congrArg _ (funext fun loop => ?_)
  by_cases hcount : maxActions < loop.assignAvailableActions.collectItems.length
  · simp only [if_pos hcount]
    rfl
  · simp only [if_neg hcount, Call.andThen_done]

end Loop

namespace Host

variable {image : Image} {host host' : Host} {C : Host → Move → Prop}

theorem opened_fresh (h : imageCheck image = .ok) : Opened image (fresh image) :=
  ⟨h, rfl, rfl, rfl, rfl, rfl, rfl, rfl⟩

theorem reachWhere_performAll {bound : Nat} :
    ∀ (moves : List Move) {host : Host}, (system image).ReachWhere C host →
      (∀ move ∈ moves, ∀ host, C host move) →
      host.performAll image bound moves = some host' → (system image).ReachWhere C host'
  | [], host, hr, _, h => by cases h; exact hr
  | move :: moves, host, hr, hC, h => by
      simp only [performAll, List.foldlM_cons, Option.bind_eq_bind, Option.bind_eq_some_iff] at h
      obtain ⟨next, hmove, hrest⟩ := h
      exact reachWhere_performAll moves
        (.step hr (hC move List.mem_cons_self host) ⟨bound, hmove⟩)
        (fun m hm => hC m (List.mem_cons_of_mem _ hm)) hrest

theorem reach_performAll {bound : Nat} (moves : List Move) (h : (system image).Reach host)
    (hmoves : host.performAll image bound moves = some host') : (system image).Reach host' :=
  reachWhere_performAll moves h (fun _ _ _ => trivial) hmoves

/-- What the moves of a poll do to the loop, the poll does. -/
theorem reach_serve {bound : Nat} {events : PollItem → Event} (items : List PollItem) :
    ∀ {host : Host} {loop : Loop}, (system image).Reach host → host.pending = items →
      Call.each (fun item => Loop.serve image bound item (events item)) items host.toLoop =
        some (.ok, loop) →
      ∃ host' : Host, (system image).Reach host' ∧ host'.toLoop = loop ∧ host'.pending = [] := by
  induction items with
  | nil =>
      intro host loop hr hp h
      cases h
      exact ⟨host, hr, rfl, hp⟩
  | cons item rest ih =>
      intro host loop hr hp h
      obtain ⟨loop₁, hserve, hrest⟩ := Call.andThen_ok h
      have hserve : host.toLoop.serve image bound item (events item) = some (.ok, loop₁) := hserve
      have hstep : host.perform image bound (.serve (events item)) =
          some { host with
            toLoop := loop₁
            pending := rest
            outstanding := host.stillOutstanding loop₁ (some item)
            sentOn := host.noteSent item loop₁ } := by
        simp only [perform, hp, hserve]
      exact ih (.step hr trivial ⟨bound, hstep⟩) rfl hrest

/-- **A poll is a run.** Whatever a poll that succeeds leaves behind is reached by the moves that it
is taken apart into. -/
theorem reach_poll {bound : Nat} {events : PollItem → Event} {loop : Loop}
    (hr : (system image).Reach host) (hp : host.pending = [])
    (h : host.toLoop.poll image bound events = some (.ok, loop)) :
    ∃ host' : Host, (system image).Reach host' ∧ host'.toLoop = loop ∧ host'.pending = [] := by
  rw [Loop.poll_eq] at h
  obtain ⟨loop₁, hbegin, hrest⟩ := Call.andThen_ok h
  have hbegin : host.toLoop.beginPoll image bound = some (.ok, loop₁) := hbegin
  have hstep : host.perform image bound .beginPoll =
      some { host with
        toLoop := loop₁
        pending := loop₁.collectItems
        outstanding := fun item =>
          (loop₁.preparedAt item || loop₁.sentAt item) &&
            (host.outstanding item || host.readyAt item)
        polled := host.registry } := by
    simp only [perform, hp, if_true, hbegin]
  exact reach_serve loop₁.collectItems (.step hr trivial ⟨bound, hstep⟩) rfl hrest

end Host

end Hermas.Daemon
