import Hermas.Daemon.Sessions

/-!
# The steps of the control server

Each operation of the server is a sequence of moves. The only way for a step to end in a
state error is a result that no packet can hold; everything else that the server asks the
loop for, it has made sure of before.
-/

namespace Hermas.Daemon

open Loop (DrivesAll Idles Admits Frees PollItem Event)
open Relation (ReflTransGen)

/-! ## Results of the loop -/

namespace Loop

variable {image : Image} {bound : Nat} {loop loop' : Loop} {executionId : UInt64}

/-- What runs and has no result yet is active. -/
theorem result_error {e : LoopResult} (hruns : loop.Runs executionId) (hzero : executionId ≠ 0)
    (h : loop.result executionId = .error e) : e = .executionActive := by
  obtain ⟨i, hfound⟩ := hruns.found
  unfold result at h
  rw [if_neg hzero, hfound] at h
  simp only at h
  split at h
  · cases h; rfl
  · cases hfinal : (loop.view i).finalResult with
    | error e' => rw [hfinal] at h; cases h; rfl
    | ok final => rw [hfinal] at h; cases h

/-- Behind its result, an execution can be given free. -/
theorem release_result {frame : Frame} (hzero : executionId ≠ 0)
    (h : loop.result executionId = .ok frame) :
    ∃ loop', loop.release executionId = some (.ok, loop') := by
  obtain ⟨i, hfound, hcomplete, hsettled, -⟩ := result_ok h
  rw [release, if_neg hzero, hfound]
  simp only [hcomplete, hsettled]
  exact ⟨_, rfl⟩

end Loop

namespace Control

variable {image : Image} {bound : Nat} {loop loop' : Loop} {executionId : UInt64}

/-- An execution that runs is active, or its result cannot be encoded. -/
theorem collect_error {e : ControlResult} (hruns : loop.Runs executionId) (hzero : executionId ≠ 0)
    (h : collect executionId Protocol.maxPacketSize loop = .error e) :
    e = .executionActive ∨ ∃ frame, loop.result executionId = .ok frame ∧
      ∀ packet, Protocol.encode frame Protocol.maxPacketSize ≠ .ok packet := by
  unfold collect at h
  rw [if_neg hzero] at h
  split at h
  · cases h
    exact .inl rfl
  · rename_i failed hne hresult
    exact absurd (Loop.result_error hruns hzero hresult) hne
  · rename_i frame hresult
    refine .inr ⟨frame, hresult, fun packet hencode => ?_⟩
    rw [hencode] at h
    cases h

end Control

namespace ControlServer

/-! ## Operations -/

variable {image : Image} {bound : Nat} {server server' : ControlServer} {kept : List UInt64}
  {place : ClientPlace}

theorem Moves.moved (h : Moves image server server') : Moved image server server' := .single h

theorem Moved.refl (server : ControlServer) : Moved image server server := ReflTransGen.refl

theorem Moved.trans {server'' : ControlServer} (h : Moved image server server')
    (h' : Moved image server' server'') : Moved image server server'' := ReflTransGen.trans h h'

/-- The count that a step gives back is nobody's business. -/
theorem moved_progress (progress : Nat) : Moved image server { server with progress } :=
  Moves.moved (.counts rfl rfl rfl)

/-- A complete execution whose result does not fit a packet. -/
def Stuck (server : ControlServer) : Prop :=
  ∃ place frame, (server.clients place).admitted = true ∧
    server.loop.result (server.clients place).executionId = .ok frame ∧
      ∀ packet, Protocol.encode frame Protocol.maxPacketSize ≠ .ok packet

/-- The loop fails a poll on the way. -/
def FailsPoll (image : Image) (bound : Nat) (server : ControlServer) : Prop :=
  ∃ between events r loop, Moved image server between ∧
    between.loop.poll image bound events = some (r, loop) ∧ r ≠ .ok

/-- A step that ends well is a sequence of moves; it may fail where the loop fails, at the poll of
the clients, or at a result that does not fit. -/
def Advances (image : Image) (bound : Nat) (answers : ControlAnswers) (server : ControlServer)
    (r : ControlServerResult) (server' : ControlServer) : Prop :=
  (r = .ok ∧ Moved image server server') ∨ (r = .stateError ∧ Moved image server server' ∧ server'.Stuck) ∨
    (r = .pollError ∧ answers.poll = none) ∨ (r = .loopError ∧ FailsPoll image bound server)

variable {answers : ControlAnswers}

theorem Advances.after {server'' : ControlServer} {r : ControlServerResult}
    (h : Moved image server server') (ha : Advances image bound answers server' r server'') :
    Advances image bound answers server r server'' := by
  rcases ha with ⟨hok, hmoved⟩ | ⟨hstate, hmoved, hstuck⟩ | hpoll |
    ⟨hloop, between, events, s, loop, hbetween, hfails⟩
  · exact .inl ⟨hok, h.trans hmoved⟩
  · exact .inr (.inl ⟨hstate, h.trans hmoved, hstuck⟩)
  · exact .inr (.inr (.inl hpoll))
  · exact .inr (.inr (.inr ⟨hloop, between, events, s, loop, h.trans hbetween, hfails⟩))

theorem Advances.moved (h : Advances image bound answers server .ok server') :
    Moved image server server' := by
  rcases h with ⟨-, hmoved⟩ | ⟨hbad, -⟩ | ⟨hbad, -⟩ | ⟨hbad, -⟩
  · exact hmoved
  · cases hbad
  · cases hbad
  · cases hbad

/-- One call behind another. -/
theorem advances_andThen {call : Call ControlServerResult ControlServer}
    {rest : ControlServer → Call ControlServerResult ControlServer}
    (hfirst : call.Ensures (Advances image bound answers server))
    (hrest : ∀ server', Moved image server server' →
      (rest server').Ensures (Advances image bound answers server')) :
    (call.andThen rest).Ensures (Advances image bound answers server) := by
  refine Call.ensures_andThen hfirst (fun server' hok => ?_) fun r server' _ h => h
  have hmoved := Advances.moved hok
  exact (hrest server' hmoved).mono fun r server'' h => h.after hmoved

theorem advanceLoop_advances (events : PollItem → Event) :
    (server.advanceLoop image bound events).Ensures (Advances image bound answers server) := by
  intro r server' hcall
  unfold advanceLoop at hcall
  split at hcall
  · cases hcall
  · rename_i loop hpoll
    cases hcall
    exact .inl ⟨rfl, Moves.moved (.polls hpoll rfl rfl)⟩
  · rename_i failed loop hfailed hpoll
    cases hcall
    refine .inr (.inr (.inr ⟨rfl, server, events, failed, loop, Moved.refl server, hpoll, ?_⟩))
    exact fun hok => hfailed hok

/-! ### Sockets -/

@[simp] theorem closeDescriptor_loop (server : ControlServer) (place : ClientPlace) :
    (server.closeDescriptor place).loop = server.loop := by
  unfold closeDescriptor
  split <;> rfl

theorem closeDescriptor_clients (server : ControlServer) (place : ClientPlace) :
    (server.closeDescriptor place).clients = Function.update server.clients place
      { server.clients place with fileDescriptor := none } := by
  unfold closeDescriptor
  split
  · rfl
  · rename_i hnone
    have hsame : { server.clients place with fileDescriptor := none } = server.clients place := by
      rw [← hnone]
    rw [hsame, Function.update_eq_self]

theorem closeDescriptor_calls {descriptor : Nat}
    (h : (server.clients place).fileDescriptor = some descriptor) :
    (server.closeDescriptor place).calls = .close place :: server.calls := by
  unfold closeDescriptor
  rw [h]
  rfl

@[simp] theorem clearClient_loop (server : ControlServer) (place : ClientPlace) :
    (server.clearClient place).loop = server.loop := closeDescriptor_loop server place

@[simp] theorem clearClient_clients (server : ControlServer) (place : ClientPlace) :
    (server.clearClient place).clients = Function.update server.clients place {} := by
  show Function.update (server.closeDescriptor place).clients place {} = _
  rw [closeDescriptor_clients, Function.update_idem]

theorem clearClient_calls {descriptor : Nat}
    (h : (server.clients place).fileDescriptor = some descriptor) :
    (server.clearClient place).calls = .close place :: server.calls := closeDescriptor_calls h

theorem clearClient_calls_none (h : (server.clients place).fileDescriptor = none) :
    (server.clearClient place).calls = server.calls := by
  show (server.closeDescriptor place).calls = server.calls
  unfold closeDescriptor
  rw [h]

/-- A client that has submitted nothing is dropped. -/
theorem clearClient_moves {descriptor : Nat}
    (h : (server.clients place).session = .connected descriptor) :
    Moves image server (server.clearClient place) :=
  .drops place descriptor h (clearClient_loop server place) (clearClient_clients server place)
    (.inl (clearClient_calls (session_connected h).2))

theorem rejectClient_moves {descriptor : Nat}
    (h : (server.clients place).session = .connected descriptor) :
    Moves image server (server.rejectClient place) := by
  have hopen := (session_connected h).2
  unfold rejectClient
  rw [hopen]
  split
  · rename_i _ packet _ _
    refine .drops place descriptor h ?_ ?_ (.inr ⟨packet, ?_⟩)
    · rw [clearClient_loop]
      rfl
    · rw [clearClient_clients]
      rfl
    · exact clearClient_calls hopen
  · exact clearClient_moves h

/-- A client goes away while its execution is running. -/
theorem closeDescriptor_moves {descriptor : Nat} {executionId : UInt64}
    (h : (server.clients place).session = .running descriptor executionId) :
    Moves image server (server.closeDescriptor place) :=
  .abandons place descriptor executionId h (closeDescriptor_loop server place)
    (closeDescriptor_clients server place) (closeDescriptor_calls (session_running h).2.1)

/-! ### Results -/

/-- The session of a client that has submitted an execution. -/
theorem session_of_admitted {client : ControlClient} (h : client.admitted = true) :
    client.session = match client.fileDescriptor with
      | some descriptor => .running descriptor client.executionId
      | none => .abandoned client.executionId := by
  unfold ControlClient.session
  rw [h]
  cases client.fileDescriptor <;> rfl

/-- The slot of an execution with a result is given free, and so is the place of its client. -/
theorem releaseClient_done {frame : Frame} (hzero : (server.clients place).executionId ≠ 0)
    (h : server.loop.result (server.clients place).executionId = .ok frame) :
    ∃ server', server.releaseClient place = Call.done server' ∧
      server.loop.release (server.clients place).executionId = some (.ok, server'.loop) ∧
      server'.clients = Function.update server.clients place {} ∧
      server'.calls = match (server.clients place).fileDescriptor with
        | some _ => .close place :: .release place (server.clients place).executionId :: server.calls
        | none => .release place (server.clients place).executionId :: server.calls := by
  obtain ⟨loop', hrelease⟩ := Loop.release_result hzero h
  have hcontrol : Control.release (server.clients place).executionId server.loop =
      some (.ok, loop') := by
    unfold Control.release
    rw [if_neg hzero, hrelease]
    rfl
  let released : ControlServer := { server with loop := loop' }.record
    (.release place (server.clients place).executionId)
  refine ⟨(released.clearClient place).progressed, ?_, ?_, ?_, ?_⟩
  · unfold releaseClient
    simp only [hcontrol]
    rfl
  · show server.loop.release _ = some (.ok, (released.clearClient place).loop)
    rw [clearClient_loop]
    exact hrelease
  · exact clearClient_clients released place
  · cases hdescriptor : (server.clients place).fileDescriptor with
    | none => exact @clearClient_calls_none released place hdescriptor
    | some descriptor => exact @clearClient_calls released place descriptor hdescriptor

/-- **A round of the flush** leaves a client alone whose execution is active, and hands over the
result of one that is complete. -/
theorem flushClient_advances (h : Serving image kept server) (answer : SendAnswer) :
    (server.flushClient place answer).Ensures (Advances image bound answers server) := by
  have hstay : Advances image bound answers server .ok server := .inl ⟨rfl, Moved.refl server⟩
  unfold flushClient
  simp only
  split
  · exact Call.ensures_done hstay
  rename_i hbusy
  rw [Bool.or_eq_true, not_or, Bool.not_eq_true', Bool.not_eq_true', Bool.not_eq_false,
    Bool.not_eq_false] at hbusy
  obtain ⟨-, hadmitted⟩ := hbusy
  have hruns := h.runs place hadmitted
  have hzero : (server.clients place).executionId ≠ 0 := by
    obtain ⟨i, hactive, hid⟩ := hruns
    rw [← hid]
    exact h.loop.nonzero i hactive
  split
  · exact Call.ensures_done hstay
  · rename_i e hne hcollect
    refine Call.ensures_report (.inr (.inl ⟨rfl, Moved.refl server, ?_⟩))
    rcases Control.collect_error hruns hzero hcollect with hactive | ⟨frame, hresult, hlarge⟩
    · exact absurd hactive hne
    · exact ⟨place, frame, hadmitted, hresult, hlarge⟩
  · rename_i packet hcollect
    obtain ⟨frame, hresult, -⟩ := Control.collect_ok hcollect
    have hsession := session_of_admitted hadmitted
    split
    · -- nobody is left to tell
      rename_i hgone
      rw [hgone] at hsession
      obtain ⟨server', hdone, hrelease, hclients, hcalls⟩ := releaseClient_done hzero hresult
      rw [hdone]
      refine Call.ensures_done (.inl ⟨rfl, Moves.moved (.finishes place _ hrelease hclients ?_)⟩)
      rw [hcalls, hgone]
      exact .gone hsession
    · exact Call.ensures_done hstay
    · rename_i descriptor count hopen
      rw [hopen] at hsession
      split
      · rename_i hshort
        -- the result did not go out in full, and the descriptor is closed first
        let broken := (server.record
          (.result place (server.clients place).executionId packet count)).closeDescriptor place
        have hloop : broken.loop = server.loop := closeDescriptor_loop _ _
        have hclients : broken.clients = Function.update server.clients place
            { server.clients place with fileDescriptor := none } := closeDescriptor_clients _ _
        have hself : broken.clients place = { server.clients place with fileDescriptor := none } := by
          rw [hclients, Function.update_self]
        have hcalls : broken.calls = .close place ::
            .result place (server.clients place).executionId packet count :: server.calls :=
          closeDescriptor_calls hopen
        obtain ⟨server', hdone, hrelease, hclients', hcalls'⟩ :=
          @releaseClient_done broken place frame (by rw [hself]; exact hzero)
            (by rw [hself, hloop]; exact hresult)
        rw [hself] at hrelease hcalls'
        rw [hloop] at hrelease
        have hdone' : (((server.record (.result place (server.clients place).executionId packet
            count)).closeDescriptor place).releaseClient place) = Call.done server' := hdone
        rw [hdone']
        refine Call.ensures_done
          (.inl ⟨rfl, Moves.moved (.finishes place _ hrelease ?_ ?_)⟩)
        · rw [hclients', hclients, Function.update_idem]
        · rw [hcalls', hcalls]
          exact .lost descriptor packet count hsession hcollect hshort
      · rename_i hfull
        obtain ⟨server', hdone, hrelease, hclients, hcalls⟩ :=
          @releaseClient_done (server.record
            (.result place (server.clients place).executionId packet count)) place frame hzero hresult
        rw [hdone]
        refine Call.ensures_done
          (.inl ⟨rfl, Moves.moved (.finishes place _ hrelease hclients ?_)⟩)
        have hopen' : ((server.record (.result place (server.clients place).executionId packet
            count)).clients place).fileDescriptor = some descriptor := hopen
        rw [hcalls, hopen', not_not.mp hfull]
        exact .sent descriptor packet hsession hcollect

/-! ### Steps -/

/-- What is done for one client succeeds, and the others notice nothing. -/
structure Serves (image : Image) (server : ControlServer) (place : ClientPlace)
    (r : ControlServerResult) (server' : ControlServer) : Prop where
  ok : r = .ok
  moved : Moved image server server'
  others : ∀ other, other ≠ place → server'.clients other = server.clients other

theorem Serves.progressed (h : Serves image server place .ok server') :
    Serves image server place .ok server'.progressed :=
  ⟨rfl, h.moved.trans (moved_progress _), h.others⟩

theorem clearClient_serves {descriptor : Nat}
    (h : (server.clients place).session = .connected descriptor) :
    Serves image server place .ok (server.clearClient place) where
  ok := rfl
  moved := (clearClient_moves h).moved
  others other hother := by rw [clearClient_clients, Function.update_of_ne hother]

theorem rejectClient_others {other : ClientPlace} (hother : other ≠ place) :
    (server.rejectClient place).clients other = server.clients other := by
  unfold rejectClient
  split
  · rw [clearClient_clients, Function.update_of_ne hother]
    rfl
  · rw [clearClient_clients, Function.update_of_ne hother]

theorem submitExecute_serves {packet : Bytes} {descriptor : Nat}
    (h : (server.clients place).session = .connected descriptor) :
    (server.submitExecute image bound place packet).Ensures (Serves image server place) := by
  intro r server' hcall
  unfold submitExecute at hcall
  split at hcall
  · cases hcall
  · -- the loop may have cleared a slot that it found free
    rename_i e loop hsubmit
    cases hcall
    have hfirst : Moves image server { server with loop } := .refuses hsubmit rfl rfl
    have hsecond : Moves image { server with loop } ({ server with loop }.rejectClient place) :=
      rejectClient_moves h
    exact Serves.progressed
      ⟨rfl, hfirst.moved.trans hsecond.moved, fun other hother => rejectClient_others hother⟩
  · rename_i executionId loop hsubmit
    cases hcall
    refine Serves.progressed ⟨rfl, ?_, fun other hother => Function.update_of_ne hother _ _⟩
    exact Moves.moved (.admits place descriptor executionId packet h hsubmit rfl rfl)

theorem receiveExecute_serves {descriptor : Nat} (answer : ReceiveAnswer)
    (h : (server.clients place).session = .connected descriptor) :
    (server.receiveExecute image bound place answer).Ensures (Serves image server place) := by
  cases answer with
  | again => exact Call.ensures_done ⟨rfl, Moved.refl server, fun _ _ => rfl⟩
  | failed => exact Call.ensures_done (clearClient_serves h).progressed
  | packet packet =>
      rw [receiveExecute]
      split
      · exact Call.ensures_done (clearClient_serves h).progressed
      · exact submitExecute_serves h

theorem serveClient_serves {descriptor : Nat} (polled : PollAnswer) (received : ReceiveAnswer)
    (hopen : (server.clients place).fileDescriptor = some descriptor) :
    (server.serveClient image bound polled received place).Ensures (Serves image server place) := by
  have hclosed : (server.clients place).admitted = true →
      Serves image server place .ok (server.closeDescriptor place).progressed := by
    intro hadmitted
    have hsession := session_of_admitted hadmitted
    rw [hopen] at hsession
    refine Serves.progressed ⟨rfl, (closeDescriptor_moves hsession).moved, fun other hother => ?_⟩
    rw [closeDescriptor_clients, Function.update_of_ne hother]
  have hconnected : ¬ (server.clients place).admitted = true →
      (server.clients place).session = .connected descriptor := by
    intro hfresh
    unfold ControlClient.session
    rw [Bool.not_eq_true] at hfresh
    rw [hfresh, hopen]
  unfold serveClient
  split
  · split
    · rename_i hadmitted
      exact Call.ensures_done (hclosed hadmitted)
    · rename_i hfresh
      exact receiveExecute_serves received (hconnected hfresh)
  · split
    · split
      · rename_i hadmitted
        exact Call.ensures_done (hclosed hadmitted)
      · rename_i hfresh
        exact Call.ensures_done (clearClient_serves (hconnected hfresh)).progressed
    · exact Call.ensures_done ⟨rfl, Moved.refl server, fun _ _ => rfl⟩

/-- The clients that were polled are served one after the other. Each still has the descriptor that
it was polled for, because nobody else touches its place. -/
theorem serveClients_advances (answers : ControlAnswers) :
    (server.serveClients image bound answers).Ensures (Advances image bound answers server) := by
  unfold serveClients
  split
  · rename_i hpoll
    exact Call.ensures_report (.inr (.inr (.inl ⟨rfl, hpoll⟩)))
  rename_i polled _
  let I (places : List ClientPlace) (s : ControlServer) : Prop :=
    Moved image server s ∧ places.Nodup ∧ ∀ place ∈ places, (s.clients place).fileDescriptor.isSome
  refine @Call.ensures_each _ _ _ _ _ _ I (Advances image bound answers server) (fun place places s hI => ?_)
    (fun s hI => .inl ⟨rfl, hI.1⟩) _ server ⟨Moved.refl server, ?_, fun place hmem => ?_⟩
  · obtain ⟨hmoved, hnodup, hopen⟩ := hI
    obtain ⟨descriptor, hdescriptor⟩ := Option.isSome_iff_exists.mp (hopen place List.mem_cons_self)
    refine (serveClient_serves _ _ hdescriptor).mono fun r s' hserves => .inl ⟨hserves.ok, ?_, ?_, ?_⟩
    · exact hmoved.trans hserves.moved
    · exact (List.nodup_cons.mp hnodup).2
    · intro other hother
      have hne : other ≠ place := by
        intro hsame
        rw [hsame] at hother
        exact (List.nodup_cons.mp hnodup).1 hother
      rw [hserves.others other hne]
      exact hopen other (List.mem_cons_of_mem _ hother)
  · exact (List.nodup_finRange _).filter _
  · have hpolled := (List.mem_filter.mp hmem).2
    rw [Bool.and_eq_true] at hpolled
    exact hpolled.2

theorem flushResults_advances (h : Serving image kept server) (sends : ClientPlace → SendAnswer) :
    (server.flushResults sends).Ensures (Advances image bound answers server) := by
  let I (_ : List ClientPlace) (s : ControlServer) : Prop := Moved image server s
  refine @Call.ensures_each _ _ _ _ _ _ I (Advances image bound answers server) (fun place places s hI => ?_)
    (fun s hI => .inl ⟨rfl, hI⟩) _ server (Moved.refl server)
  have hround : (s.flushClient place (sends place)).Ensures (Advances image bound answers s) :=
    flushClient_advances (h.moved hI) (sends place)
  refine hround.mono fun r s' hadvances => ?_
  have hall := hadvances.after hI
  by_cases hok : r = .ok
  · subst hok
    exact .inl ⟨rfl, hall.moved⟩
  · exact .inr ⟨hok, hall⟩

/-- **A step of the control server** is a sequence of moves, unless the loop, the poll or a result
that does not fit a packet ends it. -/
theorem step_advances (h : Serving image kept server) (answers : ControlAnswers) :
    (server.step image bound answers).Ensures (Advances image bound answers server) := by
  have hstart : Moved image server { server with progress := 0 } := moved_progress 0
  unfold step
  refine Call.Ensures.mono (Q := Advances image bound answers { server with progress := 0 })
    (advances_andThen (advanceLoop_advances answers.firstPoll) fun s₁ h₁ => ?_)
    fun r s hadvances => hadvances.after hstart
  have hs₁ := (h.moved hstart).moved h₁
  refine advances_andThen (flushResults_advances hs₁ answers.first) fun s₂ h₂ => ?_
  refine advances_andThen (serveClients_advances answers) fun s₃ h₃ => ?_
  refine advances_andThen (advanceLoop_advances answers.lastPoll) fun s₄ h₄ => ?_
  exact flushResults_advances (((hs₁.moved h₂).moved h₃).moved h₄) answers.last

/-- A client that is accepted finds a place that is free. -/
theorem accept_moved (answer : AcceptAnswer) : Moved image server (server.accept answer).2 := by
  cases answer with
  | again => exact Moved.refl server
  | failed => exact Moved.refl server
  | client descriptor configured =>
      show Moved image server (server.attach descriptor configured).2
      unfold attach
      split
      · exact Moved.refl server
      split
      · exact Moved.refl server
      · rename_i place hplace
        have hfree := firstIndex_some hplace
        exact Moves.moved (.attaches place descriptor (by simpa using hfree) rfl rfl rfl)

end ControlServer

end Hermas.Daemon
