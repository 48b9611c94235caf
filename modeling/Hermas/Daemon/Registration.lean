import Hermas.Daemon.Registry
import Hermas.Protocol.Frame
import Mathlib.Data.List.FinRange
import Mathlib.Logic.Function.Basic

/-!
# How apps register

A client that connects to the daemon's socket gets a place in a table. Its packet names
an app and the fingerprint of a contract; if an action waits for it, the client is
validated, and the acknowledgement is sent as soon as the socket takes it. Only then is
the descriptor published in the registry, from where the daemon loop uses and drops it.

What the sockets answer is given to the operations, and the server keeps a record of the
calls it made, the newest first. The record is not in the source: it is what the
publications are compared with.
-/

namespace Hermas.Daemon

/-- `HERMAS_REGISTRATION_MAX_PENDING` -/
def maxPending : Nat := 80

/-- The size of the packet buffer. -/
def packetCapacity : Nat := Protocol.headerSize + 32

/-- `hermas_registration_server_result` -/
inductive RegistrationResult where
  | ok | invalidArgument | capacityExhausted | acceptError | pollError | stateError
  deriving DecidableEq, Repr

/-- `hermas_registration_client`; no descriptor is -1. -/
structure RegistrationClient where
  fileDescriptor : Option Nat := none
  actionIndex : Nat := 0
  registeredActionId : UInt16 := 0
  active : Bool := false
  validated : Bool := false
  deriving DecidableEq, Repr

/-- A place in the table of clients. -/
abbrev Place := Fin maxPending

/-- A call on the socket of a client, or the publication of its descriptor. -/
inductive SocketCall where
  | attach (place : Place) (descriptor : Nat)
  | receive (place : Place) (packet : Bytes)
  | reject (place : Place) (packet : Bytes)
  | send (place : Place) (packet : Bytes) (sent : Int)
  | close (place : Place)
  | publish (place : Place) (index descriptor : Nat)
  deriving DecidableEq, Repr

/-- `hermas_registration_server`, with the count that a step gives back and the calls so far. -/
structure RegistrationServer where
  registry : Registry
  clients : Place → RegistrationClient
  progress : Nat := 0
  calls : List SocketCall := []

/-- What `send` answers: try again, or the number of bytes, -1 for any other error. -/
inductive SendAnswer where
  | again
  | sent (count : Int)

/-- What `recvmsg` answers; a packet that is larger than the buffer is cut off. -/
inductive ReceiveAnswer where
  | again
  | failed
  | packet (bytes : Bytes)

/-- What `poll` says of one descriptor. -/
structure PollAnswer where
  closed : Bool
  readable : Bool

/-- What the sockets answer during a step. -/
structure StepAnswers where
  first : Place → SendAnswer
  poll : Option (Place → PollAnswer)
  received : Place → ReceiveAnswer
  last : Place → SendAnswer

/-- What `accept4` answers, and whether the new descriptor could be configured. -/
inductive AcceptAnswer where
  | again
  | failed
  | client (descriptor : Nat) (configured : Bool)

namespace Registry

/-- The descriptor of the action at an index. -/
def connectionAt (registry : Registry) (index : Nat) : Option Nat :=
  registry[index]?.bind (·.connection)

/-- The first action that a registration is for. -/
def indexFor (registry : Registry) (registration : Frame) : Option Nat :=
  registry.findIdx? fun action =>
    action.appId == registration.appId && action.contractFingerprint == registration.payload

end Registry

/-- `HERMAS_FRAME_REGISTER_OK` -/
def acknowledgement (appId actionId : UInt16) : Frame := { kind := .registerOk, appId, actionId }

namespace RegistrationServer

/-! ## The operations -/

section Operations

variable (server : RegistrationServer)

def record (call : SocketCall) : RegistrationServer := { server with calls := call :: server.calls }

def progressed : RegistrationServer := { server with progress := server.progress + 1 }

def setClient (place : Place) (client : RegistrationClient) : RegistrationServer :=
  { server with clients := Function.update server.clients place client }

/-- `close_client` -/
def closeClient (place : Place) : RegistrationServer :=
  match (server.clients place).fileDescriptor with
  | some _ => (server.record (.close place)).setClient place {}
  | none => server.setClient place {}

/-- `release_client` -/
def releaseClient (place : Place) : RegistrationServer := server.setClient place {}

/-- `reject_client` -/
def rejectClient (place : Place) : RegistrationServer :=
  match Protocol.encode { kind := .protocolError, outcome := .protocolError } packetCapacity with
  | .ok packet => (server.record (.reject place packet)).closeClient place
  | .error _ => server.closeClient place

/-- `action_is_pending` -/
def actionIsPending (actionIndex : Nat) (except : Place) : Bool :=
  (List.finRange maxPending).any fun place =>
    place != except && (server.clients place).active && (server.clients place).validated &&
      (server.clients place).actionIndex == actionIndex

/-- The part of `receive_registration` behind `recvmsg`. -/
def checkRegistration (place : Place) (packet : Bytes) : RegistrationServer :=
  match Protocol.decode packet with
  | .error _ => (server.rejectClient place).progressed
  | .ok registration =>
      if registration.kind ≠ .registerApp then (server.rejectClient place).progressed
      else
        match server.registry.indexFor registration with
        | none => (server.rejectClient place).progressed
        | some index =>
            if (server.registry.connectionAt index).isSome || server.actionIsPending index place then
              (server.rejectClient place).progressed
            else
              (server.setClient place { server.clients place with
                actionIndex := index
                registeredActionId := registration.actionId
                validated := true }).progressed

/-- `receive_registration` -/
def receiveRegistration (place : Place) : ReceiveAnswer → RegistrationServer
  | .again => server
  | .failed => (server.rejectClient place).progressed
  | .packet packet =>
      if packet.length = 0 ∨ packetCapacity < packet.length then
        (server.rejectClient place).progressed
      else (server.record (.receive place packet)).checkRegistration place packet

/-- The descriptor and the action id of a client go into the registry. -/
def publish (place : Place) : RegistrationServer :=
  let client := server.clients place
  let server := match client.fileDescriptor with
    | some descriptor => server.record (.publish place client.actionIndex descriptor)
    | none => server
  { server with
    registry := server.registry.modify client.actionIndex fun action =>
      { action with
        connection := client.fileDescriptor
        registeredActionId := client.registeredActionId } }

/-- A round of `flush_acknowledgements` -/
def flushClient (place : Place) (answer : SendAnswer) : RegistrationResult × RegistrationServer :=
  let client := server.clients place
  if !client.active || !client.validated then (.ok, server)
  else
    match server.registry[client.actionIndex]? with
    | none => (.stateError, server)
    | some action =>
        if action.connection.isSome then (.stateError, server)
        else
          match Protocol.encode (acknowledgement action.appId client.registeredActionId)
              packetCapacity with
          | .error _ => (.stateError, server)
          | .ok packet =>
              match answer with
              | .again => (.ok, server)
              | .sent count =>
                  let server := server.record (.send place packet count)
                  if count ≠ packet.length then (.ok, (server.closeClient place).progressed)
                  else (.ok, ((server.publish place).releaseClient place).progressed)

/-- The loop of `flush_acknowledgements` -/
def flushPlaces (answers : Place → SendAnswer) :
    List Place → RegistrationServer → RegistrationResult × RegistrationServer
  | [], server => (.ok, server)
  | place :: places, server =>
      match server.flushClient place (answers place) with
      | (.ok, server) => flushPlaces answers places server
      | failed => failed

/-- `flush_acknowledgements` -/
def flushAcknowledgements (answers : Place → SendAnswer) : RegistrationResult × RegistrationServer :=
  flushPlaces answers (List.finRange maxPending) server

/-- What a step does with one client that it polled. -/
def serveClient (polled : PollAnswer) (received : ReceiveAnswer) (place : Place) : RegistrationServer :=
  if polled.closed then (server.closeClient place).progressed
  else if !(server.clients place).validated && polled.readable then
    server.receiveRegistration place received
  else server

/-- `hermas_registration_server_step` -/
def step (answers : StepAnswers) : RegistrationResult × RegistrationServer :=
  match { server with progress := 0 }.flushAcknowledgements answers.first with
  | (.ok, server) =>
      match answers.poll with
      | none => (.pollError, server)
      | some polled =>
          let owners := (List.finRange maxPending).filter fun place => (server.clients place).active
          (owners.foldl (fun server place =>
            server.serveClient (polled place) (answers.received place) place) server)
              |>.flushAcknowledgements answers.last
  | failed => failed

/-- `hermas_registration_server_attach` -/
def attach (descriptor : Nat) (configured : Bool) : RegistrationResult × RegistrationServer :=
  if !configured then (.stateError, server)
  else
    match (List.finRange maxPending).find? fun place => !(server.clients place).active with
    | none => (.capacityExhausted, server)
    | some place =>
        (.ok, (server.record (.attach place descriptor)).setClient place
          { fileDescriptor := some descriptor, active := true })

/-- `hermas_registration_server_accept`; a client that finds no place is closed. -/
def accept : AcceptAnswer → RegistrationResult × RegistrationServer
  | .again => (.ok, server)
  | .failed => (.acceptError, server)
  | .client descriptor configured => server.attach descriptor configured

/-- The daemon loop drops the connection of an action. -/
def drop (appId actionId : UInt16) : RegistrationServer :=
  { server with registry := server.registry.dropAction appId actionId }

end Operations

/-- `hermas_registration_server_init` -/
def init (registry : Registry) : Except RegistrationResult RegistrationServer :=
  if maxPending < registry.length then .error .invalidArgument
  else .ok { registry, clients := fun _ => {} }

/-- What the daemon does with the server, in any order. -/
inductive Operation where
  | attach (descriptor : Nat) (configured : Bool)
  | accept (answer : AcceptAnswer)
  | step (answers : StepAnswers)
  | drop (appId actionId : UInt16)

def perform (server : RegistrationServer) : Operation → RegistrationServer
  | .attach descriptor configured => (server.attach descriptor configured).2
  | .accept answer => (server.accept answer).2
  | .step answers => (server.step answers).2
  | .drop appId actionId => server.drop appId actionId

def run (server : RegistrationServer) (operations : List Operation) : RegistrationServer :=
  operations.foldl perform server

/-! ## What the calls say -/

end RegistrationServer

namespace SocketCall

/-- The client that a call is about. -/
def place : SocketCall → Place
  | attach place _ | receive place _ | reject place _ | send place _ _ | close place
  | publish place _ _ => place

/-- The descriptor at a place, as the calls tell it, and the packets that came in on it. -/
def session (place : Place) : List SocketCall → Option (Nat × List Bytes)
  | [] => none
  | call :: earlier =>
      if call.place = place then
        match call with
        | attach _ descriptor => some (descriptor, [])
        | receive _ packet => (session place earlier).map fun open_ => (open_.1, packet :: open_.2)
        | reject _ _ | send _ _ _ => session place earlier
        | close _ | publish _ _ _ => none
      else session place earlier

/-- A packet registers for the action at an index. -/
structure Registers (registry : Registry) (index : Nat) (packet : Bytes) (registration : Frame) :
    Prop where
  decoded : Protocol.decode packet = .ok registration
  kind : registration.kind = .registerApp
  entry : ∃ action, registry[index]? = some action ∧ action.appId = registration.appId ∧
    action.contractFingerprint = registration.payload

/-- What a publication must have behind it: on the same descriptor a packet that registers for the
action, and as the last call the whole acknowledgement. -/
def Acknowledged (registry : Registry) (place : Place) (index descriptor : Nat)
    (earlier : List SocketCall) : Prop :=
  ∃ packets packet registration answer, session place earlier = some (descriptor, packets) ∧
    packet ∈ packets ∧ Registers registry index packet registration ∧
    Protocol.encode (acknowledgement registration.appId registration.actionId) packetCapacity =
      .ok answer ∧
    earlier.head? = some (.send place answer answer.length)

/-- Every publication among the calls is acknowledged. -/
def Justified (registry : Registry) : List SocketCall → Prop
  | [] => True
  | .publish place index descriptor :: earlier =>
      Acknowledged registry place index descriptor earlier ∧ Justified registry earlier
  | _ :: earlier => Justified registry earlier

theorem Justified.acknowledged {registry : Registry} {place : Place} {index descriptor : Nat}
    {earlier : List SocketCall} : ∀ {later : List SocketCall},
    Justified registry (later ++ .publish place index descriptor :: earlier) →
      Acknowledged registry place index descriptor earlier
  | [], h => h.1
  | .publish _ _ _ :: _, h => Justified.acknowledged h.2
  | .attach _ _ :: later, h | .receive _ _ :: later, h | .reject _ _ :: later, h
  | .send _ _ _ :: later, h | .close _ :: later, h => @Justified.acknowledged _ _ _ _ _ later h

/-- A call about one client says nothing of the session of another. -/
theorem session_of_ne {place : Place} {call : SocketCall} {earlier : List SocketCall}
    (h : call.place ≠ place) : session place (call :: earlier) = session place earlier := by
  rw [session.eq_def]
  exact if_neg h

end SocketCall

namespace Registry

variable {registry : Registry}

/-- What an app registers for. -/
def contract (action : RegisteredAction) : UInt16 × Bytes := (action.appId, action.contractFingerprint)

theorem connectionAt_modify (index j : Nat) (f : RegisteredAction → RegisteredAction) :
    connectionAt (registry.modify index f) j =
      if index = j then registry[j]?.bind fun action => (f action).connection
      else registry.connectionAt j := by
  unfold connectionAt
  rw [List.getElem?_modify]
  split_ifs <;> cases registry[j]? <;> simp [*]

theorem contract_modify (index : Nat) {f : RegisteredAction → RegisteredAction}
    (hf : ∀ action, contract (f action) = contract action) :
    (registry.modify index f).map contract = registry.map contract := by
  refine List.ext_getElem? fun j => ?_
  rw [List.getElem?_map, List.getElem?_map, List.getElem?_modify]
  cases registry[j]? with
  | none => rfl
  | some action =>
      simp only [Option.map_eq_map, Option.map_some]
      split_ifs <;> simp [hf]

theorem contract_dropAction (appId actionId : UInt16) :
    (registry.dropAction appId actionId).map contract = registry.map contract := by
  unfold dropAction
  split
  · rfl
  · exact contract_modify _ fun _ => rfl

/-- A connection that is dropped is closed, and no other one is opened. -/
theorem connectionAt_dropAction (registry : Registry) (appId actionId : UInt16) (j : Nat) :
    connectionAt (registry.dropAction appId actionId) j = none ∨
      connectionAt (registry.dropAction appId actionId) j = registry.connectionAt j := by
  unfold dropAction
  split
  · exact .inr rfl
  · rw [connectionAt_modify]
    split_ifs
    · exact .inl (by cases registry[j]? <;> rfl)
    · exact .inr rfl

end Registry

namespace RegistrationServer

open SocketCall (session Registers Acknowledged Justified)

/-! ## The invariant -/

/-- What a client that holds a place has behind it. -/
structure Attached (initial registry : Registry) (calls : List SocketCall) (place : Place)
    (client : RegistrationClient) : Prop where
  session : ∃ descriptor packets, client.fileDescriptor = some descriptor ∧
    session place calls = some (descriptor, packets) ∧
      (client.validated → ∃ packet ∈ packets, ∃ registration,
        Registers initial client.actionIndex packet registration ∧
          registration.actionId = client.registeredActionId)
  free : client.validated → registry.connectionAt client.actionIndex = none

/-- What holds between two calls of the server that was set up for a registry. -/
structure Inv (initial : Registry) (server : RegistrationServer) : Prop where
  contracts : server.registry.map Registry.contract = initial.map Registry.contract
  attached : ∀ place, (server.clients place).active →
    Attached initial server.registry server.calls place (server.clients place)
  exclusive : ∀ place other, (server.clients place).active → (server.clients place).validated →
    (server.clients other).active → (server.clients other).validated →
      (server.clients place).actionIndex = (server.clients other).actionIndex → place = other
  justified : Justified initial server.calls
  opened : ∀ index descriptor, server.registry.connectionAt index = some descriptor →
    initial.connectionAt index = some descriptor ∨
      ∃ place, .publish place index descriptor ∈ server.calls

variable {initial : Registry} {server : RegistrationServer} {place : Place}

theorem Inv.progressed (h : Inv initial server) : Inv initial server.progressed :=
  ⟨h.contracts, h.attached, h.exclusive, h.justified, h.opened⟩

theorem justified_cons {call : SocketCall} {calls : List SocketCall} (h : Justified initial calls)
    (hcall : ∀ place index descriptor, call ≠ .publish place index descriptor) :
    Justified initial (call :: calls) := by
  cases call with
  | publish place index descriptor => exact absurd rfl (hcall place index descriptor)
  | _ => exact h

/-- A call about a place that leaves its session alone. -/
theorem Inv.record {call : SocketCall} (h : Inv initial server)
    (hcall : ∀ place index descriptor, call ≠ .publish place index descriptor)
    (hsession : session call.place (call :: server.calls) = session call.place server.calls) :
    Inv initial (server.record call) where
  contracts := h.contracts
  attached place hactive := by
    have hplace := h.attached place hactive
    have hsame : session place (call :: server.calls) = session place server.calls := by
      by_cases heq : call.place = place
      · exact heq ▸ hsession
      · exact SocketCall.session_of_ne heq
    exact ⟨by simpa only [RegistrationServer.record, hsame] using hplace.session, hplace.free⟩
  exclusive := h.exclusive
  justified := justified_cons h.justified hcall
  opened index descriptor hopen :=
    (h.opened index descriptor hopen).imp_right fun ⟨place, hmem⟩ => ⟨place, List.mem_cons_of_mem _ hmem⟩

/-- A place changes hands, or its client changes. -/
theorem Inv.setClient {client : RegistrationClient} {calls : List SocketCall}
    (h : Inv initial server) (hsuffix : server.calls <:+ calls) (hjustified : Justified initial calls)
    (hsessions : ∀ other, other ≠ place → session other calls = session other server.calls)
    (hclient : client.active → Attached initial server.registry calls place client)
    (hexclusive : client.active → client.validated → ∀ other, other ≠ place →
      (server.clients other).active → (server.clients other).validated →
        (server.clients other).actionIndex ≠ client.actionIndex) :
    Inv initial { server.setClient place client with calls } where
  contracts := h.contracts
  attached other hactive := by
    simp only [RegistrationServer.setClient] at hactive ⊢
    by_cases hother : other = place
    · subst hother
      rw [Function.update_self] at hactive ⊢
      exact hclient hactive
    · rw [Function.update_of_ne hother] at hactive ⊢
      have hattached := h.attached other hactive
      exact ⟨by rw [hsessions other hother]; exact hattached.session, hattached.free⟩
  exclusive first second := by
    simp only [RegistrationServer.setClient]
    intro hactive hvalidated hactive' hvalidated' hsame
    by_cases hfirst : first = place <;> by_cases hsecond : second = place
    · rw [hfirst, hsecond]
    · subst hfirst
      rw [Function.update_self] at hactive hvalidated hsame
      rw [Function.update_of_ne hsecond] at hactive' hvalidated' hsame
      exact absurd hsame.symm (hexclusive hactive hvalidated second hsecond hactive' hvalidated')
    · subst hsecond
      rw [Function.update_of_ne hfirst] at hactive hvalidated hsame
      rw [Function.update_self] at hactive' hvalidated' hsame
      exact absurd hsame (hexclusive hactive' hvalidated' first hfirst hactive hvalidated)
    · rw [Function.update_of_ne hfirst] at hactive hvalidated hsame
      rw [Function.update_of_ne hsecond] at hactive' hvalidated' hsame
      exact h.exclusive first second hactive hvalidated hactive' hvalidated' hsame
  justified := hjustified
  opened index descriptor hopen := (h.opened index descriptor hopen).imp_right
    fun ⟨other, hmem⟩ => ⟨other, hsuffix.subset hmem⟩

/-! ## What the operations keep -/

theorem Inv.closeClient (h : Inv initial server) (place : Place) :
    Inv initial (server.closeClient place) := by
  unfold RegistrationServer.closeClient
  split
  · exact h.setClient (List.suffix_cons _ _) (justified_cons h.justified (by rintro _ _ _ ⟨⟩))
      (fun other hother => SocketCall.session_of_ne (Ne.symm hother))
      (fun hactive => nomatch hactive) fun hactive => nomatch hactive
  · exact h.setClient (List.suffix_refl _) h.justified (fun _ _ => rfl)
      (fun hactive => nomatch hactive) fun hactive => nomatch hactive

theorem Inv.rejectClient (h : Inv initial server) (place : Place) :
    Inv initial (server.rejectClient place) := by
  unfold RegistrationServer.rejectClient
  split
  · exact (h.record (by rintro _ _ _ ⟨⟩) (by simp [session, SocketCall.place])).closeClient place
  · exact h.closeClient place

theorem actionIsPending_false {actionIndex : Nat}
    (h : server.actionIsPending actionIndex place = false) {other : Place} (hother : other ≠ place)
    (hactive : (server.clients other).active) (hvalidated : (server.clients other).validated) :
    (server.clients other).actionIndex ≠ actionIndex := by
  intro heq
  have hpending : server.actionIsPending actionIndex place = true :=
    List.any_eq_true.mpr ⟨other, List.mem_finRange other, by simp [hother, hactive, hvalidated, heq]⟩
  rw [h] at hpending
  cases hpending

/-- The action that a registration is for is the same one in the registry that the server began
with. -/
theorem entry_of_contracts {registry : Registry} {registration : Frame} {index : Nat}
    (h : registry.map Registry.contract = initial.map Registry.contract)
    (hindex : registry.indexFor registration = some index) : ∃ action, initial[index]? = some action ∧
      action.appId = registration.appId ∧ action.contractFingerprint = registration.payload := by
  obtain ⟨hlt, hmatch, -⟩ := List.findIdx?_eq_some_iff_getElem.mp hindex
  rw [Bool.and_eq_true, beq_iff_eq, beq_iff_eq] at hmatch
  have hentry := congrArg (·[index]?) h
  simp only [List.getElem?_map, List.getElem?_eq_getElem hlt, Option.map_some] at hentry
  obtain ⟨action, haction, hcontract⟩ := Option.map_eq_some_iff.mp hentry.symm
  obtain ⟨happ, hfingerprint⟩ := Prod.mk.inj hcontract
  exact ⟨action, haction, happ.trans hmatch.1, hfingerprint.trans hmatch.2⟩

/-- The packet that came in decides whether the client is validated. -/
theorem Inv.checkRegistration {packet : Bytes} (h : Inv initial server)
    (hactive : (server.clients place).active) {descriptor : Nat} {packets : List Bytes}
    (hdescriptor : (server.clients place).fileDescriptor = some descriptor)
    (hsession : session place server.calls = some (descriptor, packets)) (hmem : packet ∈ packets) :
    Inv initial (server.checkRegistration place packet) := by
  have hreject := (h.rejectClient place).progressed
  unfold RegistrationServer.checkRegistration
  split
  · exact hreject
  rename_i registration hdecoded
  split_ifs with hkind
  · exact hreject
  split
  · exact hreject
  rename_i index hindex
  split_ifs with htaken
  · exact hreject
  rw [Bool.or_eq_true, not_or, Bool.not_eq_true, Bool.not_eq_true, Option.isSome_eq_false_iff,
    Option.isNone_iff_eq_none] at htaken
  obtain ⟨hfree, hpending⟩ := htaken
  have hregisters : Registers initial index packet registration :=
    ⟨hdecoded, not_not.mp hkind, entry_of_contracts h.contracts hindex⟩
  refine Inv.progressed (h.setClient (List.suffix_refl _) h.justified (fun _ _ => rfl)
    (fun _ => ⟨⟨descriptor, packets, hdescriptor, hsession, fun _ => ⟨packet, hmem, registration, hregisters, rfl⟩⟩,
      fun _ => hfree⟩) fun _ _ other hother hother' hvalidated =>
        actionIsPending_false hpending hother hother' hvalidated)

theorem Inv.receiveRegistration (h : Inv initial server) (hactive : (server.clients place).active)
    (hvalidated : (server.clients place).validated = false) (answer : ReceiveAnswer) :
    Inv initial (server.receiveRegistration place answer) := by
  cases answer with
  | again => exact h
  | failed => exact (h.rejectClient place).progressed
  | packet packet =>
      rw [RegistrationServer.receiveRegistration]
      split_ifs with hsize
      · exact (h.rejectClient place).progressed
      -- The packet is the newest one of the session.
      obtain ⟨descriptor, packets, hdescriptor, hsession, -⟩ := (h.attached place hactive).session
      have hreceived : session place (.receive place packet :: server.calls) =
          some (descriptor, packet :: packets) := by
        rw [session, if_pos (show (SocketCall.receive place packet).place = place from rfl), hsession]
        rfl
      have hrecorded : Inv initial (server.record (.receive place packet)) := by
        have hkeep := @Inv.setClient initial server place (server.clients place)
          (.receive place packet :: server.calls) h (List.suffix_cons _ _) (justified_cons h.justified (by rintro _ _ _ ⟨⟩))
          (fun other hother => SocketCall.session_of_ne (Ne.symm hother))
          (fun _ => ⟨⟨descriptor, packet :: packets, hdescriptor, hreceived, fun hbad => by
            rw [hvalidated] at hbad; cases hbad⟩, fun hbad => by rw [hvalidated] at hbad; cases hbad⟩)
          fun _ hbad => by rw [hvalidated] at hbad; cases hbad
        rwa [RegistrationServer.setClient, Function.update_eq_self] at hkeep
      exact hrecorded.checkRegistration hactive hdescriptor hreceived List.mem_cons_self

/-- A client whose acknowledgement was sent is published and leaves its place. -/
theorem Inv.publish (h : Inv initial server) (hactive : (server.clients place).active)
    (hvalidated : (server.clients place).validated) {descriptor : Nat}
    (hdescriptor : (server.clients place).fileDescriptor = some descriptor)
    (hacknowledged : Acknowledged initial place (server.clients place).actionIndex descriptor
      server.calls) :
    Inv initial ((server.publish place).releaseClient place) := by
  have hregistry : ((server.publish place).releaseClient place).registry =
      server.registry.modify (server.clients place).actionIndex fun action =>
        { action with
          connection := some descriptor
          registeredActionId := (server.clients place).registeredActionId } := by
    rw [RegistrationServer.publish, hdescriptor]
    rfl
  have hclients : ((server.publish place).releaseClient place).clients =
      Function.update server.clients place {} := by
    rw [RegistrationServer.publish, hdescriptor]
    rfl
  have hcalls : ((server.publish place).releaseClient place).calls =
      .publish place (server.clients place).actionIndex descriptor :: server.calls := by
    rw [RegistrationServer.publish, hdescriptor]
    rfl
  refine ⟨?_, ?_, ?_, ?_, ?_⟩
  · rw [hregistry, Registry.contract_modify _ fun _ => by rfl]
    exact h.contracts
  · intro other hother
    rw [hclients] at hother ⊢
    by_cases heq : other = place
    · rw [heq, Function.update_self] at hother
      cases hother
    rw [Function.update_of_ne heq] at hother ⊢
    rw [hregistry, hcalls]
    have hattached := h.attached other hother
    refine ⟨?_, fun hvalidated' => ?_⟩
    · rw [SocketCall.session_of_ne (Ne.symm heq)]
      exact hattached.session
    · -- No other client waits for the action that is published.
      have hne : (server.clients place).actionIndex ≠ (server.clients other).actionIndex := fun hsame =>
        heq (h.exclusive other place hother hvalidated' hactive hvalidated hsame.symm)
      rw [Registry.connectionAt_modify, if_neg hne]
      exact hattached.free hvalidated'
  · intro first second
    rw [hclients]
    intro hfirst hvalidFirst hsecond hvalidSecond hsame
    have hne : ∀ {other : Place}, (Function.update server.clients place {} other).active →
        other ≠ place := by
      rintro other hother rfl
      rw [Function.update_self] at hother
      cases hother
    have hfirstNe := hne hfirst
    have hsecondNe := hne hsecond
    rw [Function.update_of_ne hfirstNe] at hfirst hvalidFirst hsame
    rw [Function.update_of_ne hsecondNe] at hsecond hvalidSecond hsame
    exact h.exclusive first second hfirst hvalidFirst hsecond hvalidSecond hsame
  · rw [hcalls]
    exact ⟨hacknowledged, h.justified⟩
  · intro index other hopen
    rw [hregistry, Registry.connectionAt_modify] at hopen
    rw [hcalls]
    split_ifs at hopen with hindex
    · obtain ⟨action, -, hconnection⟩ := Option.bind_eq_some_iff.mp hopen
      obtain rfl := Option.some.inj hconnection
      exact .inr ⟨place, hindex ▸ List.mem_cons_self⟩
    · exact (h.opened index other hopen).imp_right
        fun ⟨holder, hmem⟩ => ⟨holder, List.mem_cons_of_mem _ hmem⟩

/-- The entry that a validated client waits for has the contract it registered. -/
theorem entry_of_registers {registry : Registry} {index : Nat} {packet : Bytes} {registration : Frame}
    (h : registry.map Registry.contract = initial.map Registry.contract)
    (hregisters : Registers initial index packet registration) :
    ∃ action, registry[index]? = some action ∧ action.appId = registration.appId := by
  obtain ⟨action, haction, happ, -⟩ := hregisters.entry
  have hentry := congrArg (·[index]?) h
  simp only [List.getElem?_map, haction, Option.map_some] at hentry
  obtain ⟨action', haction', hcontract⟩ := Option.map_eq_some_iff.mp hentry
  exact ⟨action', haction', (Prod.mk.inj hcontract).1.trans happ⟩

/-- The acknowledgement of a registration can be encoded. -/
theorem encode_acknowledgement {index : Nat} {packet : Bytes} {registration : Frame}
    (h : Registers initial index packet registration) : ∃ answer, Protocol.encode
      (acknowledgement registration.appId registration.actionId) packetCapacity = .ok answer := by
  have hvalid := (Protocol.decode_ok h.decoded).valid
  simp only [Protocol.validateSemantics, h.kind] at hvalid
  split_ifs at hvalid with hids
  refine ⟨_, Protocol.encode_ok.mpr ⟨Nat.zero_le _, ?_, Nat.le_add_right _ _, rfl⟩⟩
  simp [Protocol.validateSemantics, acknowledgement, hids.2.1, hids.2.2.1]

/-- **A round of the flush never finds the table in a bad state.** -/
theorem Inv.flushClient (h : Inv initial server) (place : Place) (answer : SendAnswer) :
    (server.flushClient place answer).1 = .ok ∧ Inv initial (server.flushClient place answer).2 := by
  unfold RegistrationServer.flushClient
  dsimp only
  by_cases hidle : (!(server.clients place).active || !(server.clients place).validated) = true
  · rw [if_pos hidle]
    exact ⟨rfl, h⟩
  rw [if_neg hidle]
  simp only [Bool.or_eq_true, Bool.not_eq_true', not_or, Bool.not_eq_false] at hidle
  obtain ⟨hactive, hvalidated⟩ := hidle
  have hattached := h.attached place hactive
  obtain ⟨descriptor, packets, hdescriptor, hsession, hclaim⟩ := hattached.session
  obtain ⟨packet, hmem, registration, hregisters, haction⟩ := hclaim hvalidated
  obtain ⟨action, hentry, happ⟩ := entry_of_registers h.contracts hregisters
  obtain ⟨answerPacket, hencode⟩ := encode_acknowledgement hregisters
  have hfree := hattached.free hvalidated
  rw [Registry.connectionAt, hentry, Option.bind_some] at hfree
  simp only [hentry, hfree, Option.isSome_none, Bool.false_eq_true, if_false, happ, ← haction, hencode]
  cases answer with
  | again => exact ⟨rfl, h⟩
  | sent count =>
      have hrecorded : Inv initial (server.record (.send place answerPacket count)) :=
        h.record (by rintro _ _ _ ⟨⟩) (by simp [session, SocketCall.place])
      dsimp only
      split_ifs with hwhole
      · exact ⟨rfl, (hrecorded.closeClient place).progressed⟩
      · refine ⟨rfl, (hrecorded.publish hactive hvalidated hdescriptor ?_).progressed⟩
        refine ⟨packets, packet, registration, answerPacket, ?_, hmem, hregisters, hencode, ?_⟩
        · rw [← hsession]
          simp [RegistrationServer.record, session, SocketCall.place]
        · rw [← not_not.mp hwhole]
          rfl

theorem Inv.flushPlaces (answers : Place → SendAnswer) : ∀ (places : List Place)
    {server : RegistrationServer}, Inv initial server →
      (flushPlaces answers places server).1 = .ok ∧ Inv initial (flushPlaces answers places server).2
  | [], _, h => ⟨rfl, h⟩
  | place :: places, server, h => by
      obtain ⟨hok, hnext⟩ := h.flushClient place (answers place)
      rw [RegistrationServer.flushPlaces]
      cases hround : server.flushClient place (answers place) with
      | mk result next =>
          rw [hround] at hok hnext
          dsimp only at hok hnext
          subst hok
          exact hnext.flushPlaces answers places

theorem Inv.serveClient (h : Inv initial server) (hactive : (server.clients place).active)
    (polled : PollAnswer) (received : ReceiveAnswer) :
    Inv initial (server.serveClient polled received place) := by
  unfold RegistrationServer.serveClient
  split_ifs with hclosed hreadable
  · exact (h.closeClient place).progressed
  · rw [Bool.and_eq_true, Bool.not_eq_true'] at hreadable
    exact h.receiveRegistration hactive hreadable.1 received
  · exact h

/-! ## What one client is served does not matter to another -/

section Others

variable {other : Place}

theorem closeClient_of_ne (h : other ≠ place) :
    (server.closeClient place).clients other = server.clients other := by
  unfold RegistrationServer.closeClient
  split <;> exact Function.update_of_ne h _ _

theorem rejectClient_of_ne (h : other ≠ place) :
    (server.rejectClient place).clients other = server.clients other := by
  unfold RegistrationServer.rejectClient
  split <;> exact closeClient_of_ne h

theorem checkRegistration_of_ne (packet : Bytes) (h : other ≠ place) :
    (server.checkRegistration place packet).clients other = server.clients other := by
  unfold RegistrationServer.checkRegistration
  split
  · exact rejectClient_of_ne h
  split_ifs
  · exact rejectClient_of_ne h
  split
  · exact rejectClient_of_ne h
  split_ifs
  · exact rejectClient_of_ne h
  · exact Function.update_of_ne h _ _

theorem serveClient_of_ne (polled : PollAnswer) (received : ReceiveAnswer) (h : other ≠ place) :
    (server.serveClient polled received place).clients other = server.clients other := by
  unfold RegistrationServer.serveClient
  split_ifs
  · exact closeClient_of_ne h
  · cases received with
    | again => rfl
    | failed => exact rejectClient_of_ne h
    | packet packet =>
        rw [receiveRegistration]
        split_ifs
        · exact rejectClient_of_ne h
        · exact checkRegistration_of_ne packet h
  · rfl

end Others

/-- The clients that were polled are served one by one. -/
theorem Inv.serveClients (polled : Place → PollAnswer) (received : Place → ReceiveAnswer) :
    ∀ (owners : List Place) {server : RegistrationServer}, owners.Nodup → Inv initial server →
      (∀ place ∈ owners, (server.clients place).active) →
        Inv initial (owners.foldl (fun server place =>
          server.serveClient (polled place) (received place) place) server)
  | [], _, _, h, _ => h
  | place :: owners, server, hnodup, h, hactive => by
      rw [List.foldl_cons]
      refine Inv.serveClients polled received owners hnodup.of_cons
        (h.serveClient (hactive place List.mem_cons_self) (polled place) (received place))
        fun other hother => ?_
      have hne : other ≠ place := fun heq => (List.nodup_cons.mp hnodup).1 (heq ▸ hother)
      rw [serveClient_of_ne _ _ hne]
      exact hactive other (List.mem_cons_of_mem _ hother)

/-! ## Runs -/

/-- **A step never ends in a state error.** -/
theorem Inv.step (h : Inv initial server) (answers : StepAnswers) :
    (server.step answers).1 ≠ .stateError ∧ Inv initial (server.step answers).2 := by
  have hstart : Inv initial { server with progress := 0 } :=
    ⟨h.contracts, h.attached, h.exclusive, h.justified, h.opened⟩
  obtain ⟨hok, hflushed⟩ := hstart.flushPlaces answers.first (List.finRange maxPending)
  unfold RegistrationServer.step RegistrationServer.flushAcknowledgements
  cases hflush : RegistrationServer.flushPlaces answers.first (List.finRange maxPending)
      { server with progress := 0 } with
  | mk result flushed =>
      rw [hflush] at hok hflushed
      dsimp only at hok hflushed
      subst hok
      dsimp only
      cases answers.poll with
      | none => exact ⟨by simp, hflushed⟩
      | some polled =>
          have hserved := hflushed.serveClients polled answers.received
            ((List.finRange maxPending).filter fun place => (flushed.clients place).active)
            ((List.nodup_finRange _).filter _) fun place hmem => (List.mem_filter.mp hmem).2
          obtain ⟨hlast, hend⟩ := hserved.flushPlaces answers.last (List.finRange maxPending)
          exact ⟨fun hbad => (nomatch hlast.symm.trans hbad), hend⟩

theorem Inv.attach (h : Inv initial server) (descriptor : Nat) (configured : Bool) :
    Inv initial (server.attach descriptor configured).2 := by
  unfold RegistrationServer.attach
  split_ifs
  · exact h
  split
  · exact h
  · rename_i place hplace
    have hsession : session place (.attach place descriptor :: server.calls) = some (descriptor, []) := by
      rw [session, if_pos (show (SocketCall.attach place descriptor).place = place from rfl)]
    exact h.setClient (List.suffix_cons _ _) (justified_cons h.justified (by rintro _ _ _ ⟨⟩))
      (fun other hother => SocketCall.session_of_ne (Ne.symm hother))
      (fun _ => ⟨⟨descriptor, [], rfl, hsession, fun hbad => (nomatch hbad)⟩, fun hbad => (nomatch hbad)⟩)
      fun _ hbad => nomatch hbad

theorem Inv.drop (h : Inv initial server) (appId actionId : UInt16) :
    Inv initial (server.drop appId actionId) where
  contracts := (Registry.contract_dropAction appId actionId).trans h.contracts
  attached place hactive := by
    have hattached := h.attached place hactive
    refine ⟨hattached.session, fun hvalidated => ?_⟩
    rcases server.registry.connectionAt_dropAction appId actionId
      (server.clients place).actionIndex with hnone | hsame
    · exact hnone
    · exact hsame.trans (hattached.free hvalidated)
  exclusive := h.exclusive
  justified := h.justified
  opened index descriptor hopen := by
    rcases server.registry.connectionAt_dropAction appId actionId index with
      hnone | hsame
    · rw [RegistrationServer.drop, hnone] at hopen
      cases hopen
    · exact h.opened index descriptor (hsame.symm.trans hopen)

theorem Inv.perform (h : Inv initial server) (operation : Operation) :
    Inv initial (server.perform operation) := by
  cases operation with
  | attach descriptor configured => exact h.attach descriptor configured
  | accept answer =>
      cases answer with
      | again => exact h
      | failed => exact h
      | client descriptor configured => exact h.attach descriptor configured
  | step answers => exact (h.step answers).2
  | drop appId actionId => exact h.drop appId actionId

theorem Inv.run (h : Inv initial server) (operations : List Operation) :
    Inv initial (server.run operations) := by
  induction operations generalizing server with
  | nil => exact h
  | cons operation operations ih => exact ih (h.perform operation)

theorem inv_init {registry : Registry} (h : init registry = .ok server) : Inv registry server := by
  unfold init at h
  split_ifs at h
  obtain rfl := Except.ok.inj h
  exact ⟨rfl, fun _ hactive => (nomatch hactive), fun _ _ hactive => (nomatch hactive), trivial,
    fun _ _ hopen => .inl hopen⟩

/-- **Registration is exclusive, in every run.** No step ends in a state error. No two validated
clients wait for one action, and none waits for an action whose descriptor is open. A descriptor is
open only if it was published, and whatever was published had registered for the action on that
descriptor and got its whole acknowledgement. -/
theorem registration_exclusive {registry : Registry} (hinit : init registry = .ok server)
    (operations : List Operation) :
    (∀ answers, ((server.run operations).step answers).1 ≠ .stateError) ∧
    (∀ place other, ((server.run operations).clients place).active →
      ((server.run operations).clients place).validated →
        (server.run operations).registry.connectionAt
            ((server.run operations).clients place).actionIndex = none ∧
          (((server.run operations).clients other).active →
            ((server.run operations).clients other).validated →
              ((server.run operations).clients place).actionIndex =
                ((server.run operations).clients other).actionIndex → place = other)) ∧
    (∀ index descriptor, (server.run operations).registry.connectionAt index = some descriptor →
      registry.connectionAt index = some descriptor ∨
        ∃ place, .publish place index descriptor ∈ (server.run operations).calls) ∧
    ∀ later place index descriptor earlier,
      (server.run operations).calls = later ++ .publish place index descriptor :: earlier →
        Acknowledged registry place index descriptor earlier := by
  have h := (inv_init hinit).run operations
  refine ⟨fun answers => (h.step answers).1, fun place other hactive hvalidated => ⟨?_, ?_⟩, h.opened, ?_⟩
  · exact (h.attached place hactive).free hvalidated
  · exact h.exclusive place other hactive hvalidated
  · intro later place index descriptor earlier hcalls
    have hjustified := h.justified
    rw [hcalls] at hjustified
    exact hjustified.acknowledged

/-- An app that connects twice, and registers on the first connection. -/
def noteRegistry : Registry :=
  [{ appId := 3, actionId := 5, registeredActionId := 5, contractFingerprint := List.replicate 32 9 }]

def noteServer : RegistrationServer := { registry := noteRegistry, clients := fun _ => {} }

def notePacket : Bytes :=
  Protocol.header { kind := .registerApp, appId := 3, actionId := 8, payload := List.replicate 32 9 } ++
    List.replicate 32 9

def noteRun : List Operation :=
  [.attach 7 true, .accept (.client 8 true), .step {
    first := fun _ => .again
    poll := some fun _ => ⟨false, true⟩
    received := fun _ => .packet notePacket
    last := fun _ => .sent 48 }]

theorem registration_exclusive_note :
    ∃ place, .publish place 0 7 ∈ (noteServer.run noteRun).calls := by
  have hinit : init noteRegistry = .ok noteServer := rfl
  have hopen : (noteServer.run noteRun).registry.connectionAt 0 = some 7 := by decide +kernel
  rcases (registration_exclusive hinit noteRun).2.2.1 0 7 hopen with hbefore | hplace
  · cases hbefore
  · exact hplace

end RegistrationServer

end Hermas.Daemon
