import Hermas.Daemon.Executions
import Hermas.Daemon.Registration

/-!
# The control server

A client connects, submits one execution and is sent the result of that execution. The
server has a place for each client, and the daemon loop a slot for each execution; an
execution whose client went away stays on its place without a descriptor, until it is
complete and its slot is given free.

What the sockets answer is given to the operations, and the server keeps a record of
what it did on the sockets of its clients and with their executions, the newest first.
The record is not in the source.
-/

namespace Hermas.Daemon

open Loop (PollItem Event)

/-! ## One packet and the loop -/

/-- `hermas_control_result` -/
inductive ControlResult where
  | ok | invalidArgument | protocolError | admissionError | executionActive | encodeError
  | releaseError
  deriving DecidableEq, Repr

namespace Control

variable (image : Image) (bound : Nat)

/-- `hermas_control_submit`; the id is that of the execution that was admitted. -/
def submit (packet : Bytes) (loop : Loop) : Option (Except ControlResult UInt64 × Loop) :=
  match Protocol.decode packet with
  | .error _ => some (.error .protocolError, loop)
  | .ok request =>
      if request.kind ≠ .execute then some (.error .protocolError, loop)
      else
        match loop.admitExecution image bound request.executionId request.sourceType
          request.payload with
        | none => none
        | some (.ok, loop) => some (.ok request.executionId, loop)
        | some (_, loop) => some (.error .admissionError, loop)

/-- `hermas_control_collect`, into a buffer of the given size. -/
def collect (executionId : UInt64) (packetCapacity : Nat) (loop : Loop) :
    Except ControlResult Bytes :=
  if executionId = 0 then .error .invalidArgument
  else
    match loop.result executionId with
    | .error .executionActive => .error .executionActive
    | .error _ => .error .admissionError
    | .ok result => (Protocol.encode result packetCapacity).mapError fun _ => .encodeError

/-- `hermas_control_release` -/
def release (executionId : UInt64) (loop : Loop) : Option (ControlResult × Loop) :=
  if executionId = 0 then some (.invalidArgument, loop)
  else
    (loop.release executionId).map fun (released, loop) =>
      (match released with
        | .ok => .ok
        | .executionActive => .executionActive
        | _ => .releaseError, loop)

end Control

/-! ## Clients -/

/-- `HERMAS_CONTROL_MAX_CLIENTS` -/
def maxClients : Nat := maxExecutions

/-- `hermas_control_server_result` -/
inductive ControlServerResult where
  | ok | invalidArgument | capacityExhausted | acceptError | pollError | loopError | stateError
  deriving DecidableEq, Repr

instance : Status ControlServerResult := ⟨.ok⟩

/-- `hermas_control_client`; no descriptor is -1. -/
structure ControlClient where
  fileDescriptor : Option Nat := none
  executionId : UInt64 := 0
  active : Bool := false
  admitted : Bool := false
  deriving DecidableEq, Repr

/-- A place in the table of clients. -/
abbrev ClientPlace := Fin maxClients

/-- What the server does with a client: a call on its socket, or the admission or release of its
execution. -/
inductive ClientCall where
  | attach (place : ClientPlace) (descriptor : Nat)
  | admission (place : ClientPlace) (executionId : UInt64) (packet : Bytes)
  | reject (place : ClientPlace) (packet : Bytes)
  | result (place : ClientPlace) (executionId : UInt64) (packet : Bytes) (sent : Int)
  | close (place : ClientPlace)
  | release (place : ClientPlace) (executionId : UInt64)
  deriving DecidableEq, Repr

/-- `hermas_control_server`, with the count that a step gives back and the calls so far. -/
structure ControlServer where
  loop : Loop
  clients : ClientPlace → ControlClient := fun _ => {}
  progress : Nat := 0
  calls : List ClientCall := []

/-- What the sockets answer during a step. -/
structure ControlAnswers where
  firstPoll : PollItem → Event
  first : ClientPlace → SendAnswer
  poll : Option (ClientPlace → PollAnswer)
  received : ClientPlace → ReceiveAnswer
  lastPoll : PollItem → Event
  last : ClientPlace → SendAnswer

namespace ControlServer

section Operations

variable (image : Image) (bound : Nat) (server : ControlServer)

def record (call : ClientCall) : ControlServer := { server with calls := call :: server.calls }

def progressed : ControlServer := { server with progress := server.progress + 1 }

def setClient (place : ClientPlace) (client : ControlClient) : ControlServer :=
  { server with clients := Function.update server.clients place client }

/-- `close_descriptor` -/
def closeDescriptor (place : ClientPlace) : ControlServer :=
  match (server.clients place).fileDescriptor with
  | some _ => (server.record (.close place)).setClient place
      { server.clients place with fileDescriptor := none }
  | none => server

/-- `clear_client` -/
def clearClient (place : ClientPlace) : ControlServer :=
  (server.closeDescriptor place).setClient place {}

/-- `advance_loop` -/
def advanceLoop (events : PollItem → Event) : Call ControlServerResult ControlServer :=
  match server.loop.poll image bound events with
  | none => none
  | some (.ok, loop) =>
      Call.done { server with loop, progress := server.progress + loop.progress }
  | some (_, loop) => Call.report .loopError { server with loop }

/-- `reject_client` -/
def rejectClient (place : ClientPlace) : ControlServer :=
  match (server.clients place).fileDescriptor,
      Protocol.encode { kind := .protocolError, outcome := .protocolError }
        Protocol.maxPacketSize with
  | some _, .ok packet => (server.record (.reject place packet)).clearClient place
  | _, _ => server.clearClient place

/-- The part of `receive_execute` behind `recvmsg`. -/
def submitExecute (place : ClientPlace) (packet : Bytes) :
    Call ControlServerResult ControlServer :=
  match Control.submit image bound packet server.loop with
  | none => none
  | some (.error _, loop) =>
      Call.done (({ server with loop }.rejectClient place).progressed)
  | some (.ok executionId, loop) =>
      Call.done (((({ server with loop }.record (.admission place executionId packet)).setClient
        place { server.clients place with executionId, admitted := true })).progressed)

/-- `receive_execute` -/
def receiveExecute (place : ClientPlace) : ReceiveAnswer → Call ControlServerResult ControlServer
  | .again => Call.done server
  | .failed => Call.done (server.clearClient place).progressed
  | .packet packet =>
      if packet.length = 0 ∨ Protocol.maxPacketSize < packet.length then
        Call.done (server.clearClient place).progressed
      else server.submitExecute image bound place packet

/-- The execution of a client is over: its slot is given free, and so is the place. -/
def releaseClient (place : ClientPlace) : Call ControlServerResult ControlServer :=
  let executionId := (server.clients place).executionId
  match Control.release executionId server.loop with
  | none => none
  | some (.ok, loop) =>
      Call.done (({ server with loop }.record (.release place executionId)).clearClient
        place).progressed
  | some (_, loop) => Call.report .stateError { server with loop }

/-- A round of `flush_results` -/
def flushClient (place : ClientPlace) (answer : SendAnswer) :
    Call ControlServerResult ControlServer :=
  let client := server.clients place
  if !client.active || !client.admitted then Call.done server
  else
    match Control.collect client.executionId Protocol.maxPacketSize server.loop with
    | .error .executionActive => Call.done server
    | .error _ => Call.report .stateError server
    | .ok packet =>
        match client.fileDescriptor, answer with
        | none, _ => server.releaseClient place
        | some _, .again => Call.done server
        | some _, .sent count =>
            let server := server.record (.result place client.executionId packet count)
            if count ≠ packet.length then (server.closeDescriptor place).releaseClient place
            else server.releaseClient place

/-- `flush_results` -/
def flushResults (answers : ClientPlace → SendAnswer) : Call ControlServerResult ControlServer :=
  Call.each (fun place server => server.flushClient place (answers place))
    (List.finRange maxClients) server

/-- What a step does with one client that it polled. -/
def serveClient (polled : PollAnswer) (received : ReceiveAnswer) (place : ClientPlace) :
    Call ControlServerResult ControlServer :=
  if polled.readable then
    if (server.clients place).admitted then
      Call.done (server.closeDescriptor place).progressed
    else server.receiveExecute image bound place received
  else if polled.closed then
    if (server.clients place).admitted then
      Call.done (server.closeDescriptor place).progressed
    else Call.done (server.clearClient place).progressed
  else Call.done server

/-- The places whose descriptors are polled. -/
def owners : List ClientPlace :=
  (List.finRange maxClients).filter fun place =>
    (server.clients place).active && (server.clients place).fileDescriptor.isSome

/-- The clients that were polled, one by one. -/
def serveClients (answers : ControlAnswers) : Call ControlServerResult ControlServer :=
  match answers.poll with
  | none => Call.report .pollError server
  | some polled =>
      Call.each (fun place server => server.serveClient image bound (polled place)
        (answers.received place) place) server.owners server

/-- `hermas_control_server_step` -/
def step (answers : ControlAnswers) : Call ControlServerResult ControlServer :=
  (({ server with progress := 0 }.advanceLoop image bound answers.firstPoll).andThen fun server =>
    (server.flushResults answers.first).andThen fun server =>
      (server.serveClients image bound answers).andThen fun server =>
        (server.advanceLoop image bound answers.lastPoll).andThen fun server =>
          server.flushResults answers.last)

/-- `hermas_control_server_attach` -/
def attach (descriptor : Nat) (configured : Bool) : ControlServerResult × ControlServer :=
  if !configured then (.stateError, server)
  else
    match firstIndex fun place => !(server.clients place).active with
    | none => (.capacityExhausted, server)
    | some place =>
        (.ok, (server.record (.attach place descriptor)).setClient place
          { fileDescriptor := some descriptor, active := true })

/-- `hermas_control_server_accept`; a client that finds no place is closed. -/
def accept : AcceptAnswer → ControlServerResult × ControlServer
  | .again => (.ok, server)
  | .failed => (.acceptError, server)
  | .client descriptor configured => server.attach descriptor configured

/-- `hermas_control_server_active` -/
def active : Nat := ((List.finRange maxClients).filter fun place => (server.clients place).active).length

end Operations

/-- `hermas_control_server_init` -/
def init (loop : Loop) : ControlServer := { loop }

end ControlServer

end Hermas.Daemon
