import Hermas.Daemon.Control
import Hermas.Journal.Restart
import Hermas.Result.StoreLog
import Hermas.Saga.Resume

/-!
# The host

The host opens the daemon on what its state directory holds: it closes what was interrupted,
takes up the compensations that were left, and then steps from one poll of its listeners
to the next. In each step apps register first; when every action has its app, the control
server goes on, and the compensations that are done are given free.

The registration server and the daemon loop work on one registry. What the sockets
answer is given to the operations, and the image has been loaded and validated before.
-/

namespace Hermas.Daemon

/-- `hermas_host_result` -/
inductive HostResult where
  | ok | invalidArgument | imageError | stateError | recoveryRequired | socketError
  | registrationError | controlError | pollError | unsupportedGraph
  deriving DecidableEq, Repr

instance : Status HostResult := ⟨.ok⟩

/-- The logs in the state directory. -/
structure StateFiles where
  journal : Bytes := []
  results : Bytes := []
  compensation : Bytes := []
  sagaLog : Bytes := []

/-- `hermas_host`, with the count that a step gives back. -/
structure HermasHost where
  registration : RegistrationServer
  control : ControlServer
  shared : registration.registry = control.loop.registry
  recovered : List UInt64 := []
  nextExecutionId : UInt64
  progress : Nat := 0

/-- What the sockets answer to one round of the servers. -/
structure ServerAnswers where
  registration : StepAnswers
  control : ControlAnswers

/-- What `poll` says of the two listeners. -/
inductive ListenerAnswer where
  | interrupted
  | failed
  | events (app control : PollAnswer)

/-- What the sockets answer during a step of the host. -/
structure HostAnswers where
  first : ServerAnswers
  listeners : ListenerAnswer
  appAccept : AcceptAnswer
  controlAccept : AcceptAnswer
  last : ServerAnswers

namespace HermasHost

/-! ## Opening -/

section Opening

variable (image : Image)

/-- `open_state`, with the loop that is attached to the logs. -/
def openState (workflowId : UInt32) (imageFingerprint : UInt64) (files : StateFiles) :
    Except HostResult (Loop × Journal.Summary × Saga.Log.Summary) :=
  match Journal.fileOpen files.journal, ResultStore.scan files.results,
      Compensation.scan files.compensation, Saga.Log.scan files.sagaLog with
  | .ok (journal, journalSummary), .ok results, .ok compensation, .ok sagaSummary =>
      if results.nextSequence = 0 ∨ compensation.nextSequence = 0 ∨ sagaSummary.nextSequence = 0 ∨
          journalSummary.nextExecutionId = 0 then
        .error .stateError
      else .ok ({
        workflowId
        imageFingerprint
        registry := Registry.init image
        journal
        results := { file := files.results, nextSequence := results.nextSequence }
        compensation := { file := files.compensation, nextSequence := compensation.nextSequence }
        sagaLog := { nextSequence := sagaSummary.nextSequence }
        minimumExecutionId := journalSummary.nextExecutionId }, journalSummary, sagaSummary)
  | _, _, _, _ => .error .stateError

/-- `hermas_saga_recover_files` -/
def recoverFiles (loop : Loop) (files : StateFiles) (executionId : UInt64) :
    Except Saga.Result Saga.Execution :=
  match Saga.recover image loop.imageFingerprint (files.journal ++ loop.journal.written.flatten)
    files.compensation executionId loop.workflowId with
  | .error e => .error e
  | .ok execution =>
      match Saga.reconcile execution files.sagaLog with
      | (.ok, execution) => .ok execution
      | (e, _) => .error e

/-- A round of the loop of `restore_startup_state` -/
def resumeActive (files : StateFiles) (state : Loop × List UInt64) (active : Saga.Log.Active) :
    Except HostResult (Loop × List UInt64) :=
  let (loop, recovered) := state
  if active.workflowId ≠ loop.workflowId ∨ active.imageFingerprint ≠ loop.imageFingerprint then
    .error .stateError
  else
    match recoverFiles image loop files active.executionId with
    | .error .unsafeHistory => .error .recoveryRequired
    | .error _ => .error .stateError
    | .ok execution =>
        if execution.state ≠ .ready ∨ execution.remaining = 0 then .error .stateError
        else
          match loop.resumeSaga image execution with
          | some (.ok, loop) => .ok (loop, recovered ++ [active.executionId])
          | _ => .error .stateError

/-- `restore_startup_state` -/
def restoreStartupState (files : StateFiles) (loop : Loop) (journalSummary : Journal.Summary)
    (sagaSummary : Saga.Log.Summary) : Except HostResult (Loop × List UInt64) :=
  match Journal.fileCloseInterrupted loop.journal journalSummary with
  | .error _ => .error .stateError
  | .ok (journal, _) => sagaSummary.active.foldlM (resumeActive image files) ({ loop with journal }, [])

/-- `hermas_host_open` behind `load_image` and before the listeners. -/
def openHost (workflowId : UInt32) (imageFingerprint : UInt64) (files : StateFiles) :
    Except HostResult HermasHost :=
  if workflowId = 0 then .error .invalidArgument
  else
    match RegistrationServer.init (Registry.init image) with
    | .error _ => .error .registrationError
    | .ok registration =>
        match imageCheck image with
        | .ok => do
            let (loop, journalSummary, sagaSummary) ←
              openState image workflowId imageFingerprint files
            let (loop, recovered) ←
              restoreStartupState image files loop journalSummary sagaSummary
            pure {
              registration := { registration with registry := loop.registry }
              control := ControlServer.init loop
              shared := rfl
              recovered
              nextExecutionId := journalSummary.nextExecutionId }
        | .unsupportedGraph => .error .unsupportedGraph
        | _ => .error .imageError

end Opening

/-! ## Steps -/

section Steps

variable (image : Image) (bound : Nat) (host : HermasHost)

/-- The registration server went on, and with it the registry that the loop works on. -/
def withRegistration (registration : RegistrationServer) : HermasHost :=
  { host with
    registration
    control := { host.control with
      loop := { host.control.loop with registry := registration.registry } }
    shared := rfl }

/-- The control server went on, and with it the registry. -/
def withControl (control : ControlServer) : HermasHost :=
  { host with
    registration := { host.registration with registry := control.loop.registry }
    control
    shared := rfl }

def progressed (count : Nat) : HermasHost := { host with progress := host.progress + count }

/-- `all_actions_registered` -/
def allActionsRegistered : Bool :=
  host.control.loop.registry.all fun action => action.connection.isSome

/-- The last id takes the place of the one that is taken out. -/
def takeOut (recovered : List UInt64) (index : Nat) : List UInt64 :=
  (recovered.set index (recovered.getD (recovered.length - 1) 0)).dropLast

/-- The loop of `reap_recovered`; every round goes on by one index or takes one id out, so the number
of ids bounds its rounds. -/
def reapFrom : Nat → Nat → HermasHost → Call HostResult HermasHost
  | 0, _, host => Call.done host
  | rounds + 1, index, host =>
      match host.recovered[index]? with
      | none => Call.done host
      | some executionId =>
          match host.control.loop.result executionId with
          | .error .executionActive => reapFrom rounds (index + 1) host
          | .error _ => Call.report .stateError host
          | .ok _ =>
              match host.control.loop.release executionId with
              | none => none
              | some (.ok, loop) =>
                  reapFrom rounds index
                    ({ host.withControl { host.control with loop } with
                      recovered := takeOut host.recovered index }.progressed 1)
              | some (_, loop) =>
                  Call.report .stateError (host.withControl { host.control with loop })

/-- `reap_recovered` -/
def reapRecovered : Call HostResult HermasHost := reapFrom host.recovered.length 0 host

/-- `advance_servers` -/
def advanceServers (answers : ServerAnswers) : Call HostResult HermasHost :=
  match host.registration.step answers.registration with
  | (.ok, registration) =>
      let host := (host.withRegistration registration).progressed registration.progress
      if ¬ host.allActionsRegistered then Call.done host
      else
        match host.control.step image bound answers.control with
        | none => none
        | some (.ok, control) =>
            ({ host.withControl control with
              nextExecutionId := control.loop.minimumExecutionId }.progressed
                control.progress).reapRecovered
        | some (_, control) => Call.report .controlError (host.withControl control)
  | (_, registration) => Call.report .registrationError (host.withRegistration registration)

/-- A new app at the listener. -/
def acceptApp (answer : AcceptAnswer) : Call HostResult HermasHost :=
  let (accepted, registration) := host.registration.accept answer
  if accepted ≠ .ok ∧ accepted ≠ .capacityExhausted then
    Call.report .registrationError (host.withRegistration registration)
  else Call.done ((host.withRegistration registration).progressed 1)

/-- A new client at the listener. -/
def acceptClient (answer : AcceptAnswer) : Call HostResult HermasHost :=
  let (accepted, control) := host.control.accept answer
  if accepted ≠ .ok ∧ accepted ≠ .capacityExhausted then
    Call.report .controlError (host.withControl control)
  else Call.done ((host.withControl control).progressed 1)

/-- What a step does with the listeners; the one of the clients is polled only if `ready`. -/
def acceptAll (ready : Bool) (answers : HostAnswers) (app control : PollAnswer) :
    Call HostResult HermasHost :=
  ((if app.readable then host.acceptApp answers.appAccept else Call.done host).andThen fun host =>
    if ready && control.readable then host.acceptClient answers.controlAccept
    else Call.done host).andThen fun host =>
      if app.closed || (ready && control.closed) then Call.report .pollError host else Call.done host

/-- `hermas_host_step` -/
def step (answers : HostAnswers) : Call HostResult HermasHost :=
  ({ host with progress := 0 }.advanceServers image bound answers.first).andThen fun host =>
    match answers.listeners with
    | .interrupted => Call.done host
    | .failed => Call.report .pollError host
    | .events app control =>
        (host.acceptAll host.allActionsRegistered answers app control).andThen fun host =>
          host.advanceServers image bound answers.last

end Steps

end HermasHost

end Hermas.Daemon
