import Hermas.Base.Monitor
import Hermas.Daemon.Control

/-!
# Clients and their executions

Whatever the control server does comes down to a few moves: the loop runs on, a client
is attached, refused, admitted or left alone with its execution, and an execution that is
complete is handed to its client and given free. Each operation is a sequence of such
moves, and what holds of the server is proved move by move.

Every execution in the loop belongs to one client, or was there before the server. It is
given free only when its result was sent in full, or when nobody is left to send it to;
and no client sees a result but that of the execution it submitted.
-/

namespace Hermas.Daemon

open Loop (DrivesAll Idles Takes Admits Frees PollItem Event)
open Relation (ReflTransGen)

namespace Loop

variable {image : Image} {bound : Nat} {loop loop' : Loop}

/-- A slot runs the execution. -/
def Runs (loop : Loop) (executionId : UInt64) : Prop :=
  ∃ i, (loop.slots i).active = true ∧ (loop.slots i).executionId = executionId

theorem Runs.drives {executionId : UInt64} (h : loop.Runs executionId)
    (hd : DrivesAll image loop loop') : loop'.Runs executionId := by
  obtain ⟨i, hactive, hid⟩ := h
  exact ⟨i, (hd i).active.trans hactive, (hd i).executionId.trans hid⟩

theorem Runs.of_drives {executionId : UInt64} (h : loop'.Runs executionId)
    (hd : DrivesAll image loop loop') : loop.Runs executionId := by
  obtain ⟨i, hactive, hid⟩ := h
  exact ⟨i, (hd i).active.symm.trans hactive, (hd i).executionId.symm.trans hid⟩

theorem runs_idles {executionId : UInt64} (hi : Idles loop loop') :
    loop'.Runs executionId ↔ loop.Runs executionId := by
  constructor
  · rintro ⟨i, hactive, hid⟩
    rcases hi i with hsame | ⟨-, hempty⟩
    · exact ⟨i, hsame ▸ hactive, hsame ▸ hid⟩
    · rw [hempty] at hactive
      cases hactive
  · rintro ⟨i, hactive, hid⟩
    rcases hi i with hsame | ⟨hfree, -⟩
    · exact ⟨i, hsame ▸ hactive, hsame ▸ hid⟩
    · rw [hfree] at hactive
      cases hactive

theorem runs_takes {executionId other : UInt64} {i : SlotIndex}
    (ha : Takes image loop loop' executionId i) :
    loop'.Runs other ↔ loop.Runs other ∨ other = executionId := by
  constructor
  · rintro ⟨j, hactive, hid⟩
    by_cases hj : j = i
    · rw [hj, ha.runs] at hid
      exact .inr hid.symm
    · rw [ha.others j hj] at hactive hid
      exact .inl ⟨j, hactive, hid⟩
  · rintro (⟨j, hactive, hid⟩ | rfl)
    · have hj : j ≠ i := by
        intro hj
        rw [hj, ha.free] at hactive
        cases hactive
      exact ⟨j, ha.others j hj ▸ hactive, ha.others j hj ▸ hid⟩
    · exact ⟨i, ha.active, ha.runs⟩

theorem runs_frees {executionId other : UInt64} {i : SlotIndex} (hsound : loop.Sound image)
    (hf : Frees loop loop' executionId i) :
    loop'.Runs other ↔ loop.Runs other ∧ other ≠ executionId := by
  obtain ⟨hactive, hid⟩ := findExecution_some hf.found
  constructor
  · rintro ⟨j, hactive', hid'⟩
    have hj : j ≠ i := by
      intro hj
      rw [hj, hf.empty] at hactive'
      cases hactive'
    rw [hf.others j hj] at hactive' hid'
    refine ⟨⟨j, hactive', hid'⟩, fun hsame => hj ?_⟩
    exact hsound.distinct j i hactive' hactive (by rw [hid', hid, hsame])
  · rintro ⟨⟨j, hactive', hid'⟩, hne⟩
    have hj : j ≠ i := by
      intro hj
      rw [hj, hid] at hid'
      exact hne hid'.symm
    exact ⟨j, hf.others j hj ▸ hactive', hf.others j hj ▸ hid'⟩

/-- An execution that a slot runs is found. -/
theorem Runs.found {executionId : UInt64} (h : loop.Runs executionId) :
    ∃ i, loop.findExecution executionId = some i := by
  obtain ⟨i, hactive, hid⟩ := h
  exact firstIndex_isSome (i := i) (by simp [hactive, hid])

theorem assignAvailableActions_floor (loop : Loop) :
    loop.assignAvailableActions.minimumExecutionId = loop.minimumExecutionId := by
  have hslot : ∀ (order : List SlotIndex) (loop : Loop),
      (order.foldl assignSlot loop).minimumExecutionId = loop.minimumExecutionId := by
    intro order
    induction order with
    | nil => intro loop; rfl
    | cons i order ih =>
        intro loop
        rw [List.foldl_cons, ih, assignSlot]
        split <;> rfl
  have hflow : ∀ (i : SlotIndex) (flows : List FlowIndex) (loop : Loop),
      (flows.foldl (assignFlow i) loop).minimumExecutionId = loop.minimumExecutionId := by
    intro i flows
    induction flows with
    | nil => intro loop; rfl
    | cons k flows ih =>
        intro loop
        rw [List.foldl_cons, ih, assignFlow]
        simp only
        split
        · rfl
        · split <;> rfl
  have hflows : ∀ (order : List SlotIndex) (loop : Loop),
      (order.foldl (fun loop i => (List.finRange maxFlows).foldl (assignFlow i) loop)
        loop).minimumExecutionId = loop.minimumExecutionId := by
    intro order
    induction order with
    | nil => intro loop; rfl
    | cons i order ih =>
        intro loop
        rw [List.foldl_cons, ih, hflow]
  exact (hflows _ _).trans (hslot _ _)

/-- A poll admits nothing, and so leaves the floor of the execution ids alone. -/
theorem poll_floor {events : PollItem → Event}
    (h : loop.poll image bound events = some (.ok, loop')) :
    loop'.minimumExecutionId = loop.minimumExecutionId := by
  have hround : ∀ {i : SlotIndex} {call : AtSlot → Call LoopResult AtSlot} {l l' : Loop},
      onSlot i call l = some (.ok, l') → l'.minimumExecutionId = l.minimumExecutionId := by
    intro i call l l' hcall
    obtain ⟨w, -, rfl⟩ := onSlot_some hcall
    rfl
  have heach : ∀ {ι : Type} {body : ι → Loop → Call LoopResult Loop},
      (∀ i {l l' : Loop}, body i l = some (.ok, l') → l'.minimumExecutionId = l.minimumExecutionId) →
      ∀ (is : List ι) {l l' : Loop}, Call.each body is l = some (.ok, l') →
        l'.minimumExecutionId = l.minimumExecutionId :=
    fun hbody is _ _ hcall => Call.each_rel
      (R := fun l l' : Loop => l'.minimumExecutionId = l.minimumExecutionId)
      (fun _ => rfl) (fun h h' => h'.trans h) (fun i _ _ hi => hbody i hi) is hcall
  rw [poll_eq] at h
  obtain ⟨begun, hbegin, hserve⟩ := Call.andThen_ok h
  obtain ⟨prepared, reconciled, hprepare, hreconcile, hassign⟩ := beginPoll_stages hbegin
  have hlast : loop'.minimumExecutionId = begun.minimumExecutionId := by
    refine heach (fun item l l' hitem => ?_) _ hserve
    obtain ⟨w, rfl, -⟩ := serve_some hitem
    rfl
  have hfirst := heach (fun i _ _ hi => hround hi) _ hprepare
  have hsecond := heach (fun i _ _ hi => hround hi) _ hreconcile
  calc loop'.minimumExecutionId = begun.minimumExecutionId := hlast
    _ = reconciled.minimumExecutionId := by rw [hassign, assignAvailableActions_floor]
    _ = prepared.minimumExecutionId := hsecond
    _ = loop.minimumExecutionId := hfirst

/-- A result is there when the execution is complete, and says whose it is. -/
theorem finalResult_ok {w : AtSlot} {frame : Frame} (h : w.finalResult = .ok frame) :
    w.slot.complete = true ∧ frame.kind = .executionResult ∧
      frame.executionId = w.slot.executionId := by
  unfold AtSlot.finalResult at h
  unfold Slot.complete Slot.executionId
  split at h
  · unfold Execution.getResult at h
    split at h
    · cases h
    · rename_i hstate
      cases h
      exact ⟨by simpa using not_not.mp hstate, rfl, rfl⟩
  · unfold GroupExecution.getResult at h
    split at h
    · cases h
    · rename_i hcomplete
      cases h
      exact ⟨not_not.mp hcomplete, rfl, rfl⟩

/-- The loop hands out the result of a slot that is complete and has nothing to compensate. -/
theorem result_ok {executionId : UInt64} {frame : Frame}
    (h : loop.result executionId = .ok frame) :
    ∃ i, loop.findExecution executionId = some i ∧ (loop.slots i).complete = true ∧
      (loop.slots i).compensating = false ∧ (loop.view i).finalResult = .ok frame ∧
      frame.kind = .executionResult ∧ frame.executionId = executionId := by
  unfold result at h
  split at h
  · cases h
  split at h
  · cases h
  rename_i i hfound
  split at h
  · cases h
  rename_i hsettled
  cases hfinal : (loop.view i).finalResult with
  | error e => rw [hfinal] at h; cases h
  | ok final =>
      rw [hfinal] at h
      cases h
      obtain ⟨hcomplete, hkind, hid⟩ := finalResult_ok hfinal
      refine ⟨i, hfound, hcomplete, by simpa using hsettled, hfinal, hkind, ?_⟩
      rw [hid]
      exact (findExecution_some hfound).2

/-- A release that succeeds has given a slot free, and leaves the floor alone. -/
theorem release_ok {executionId : UInt64} (h : loop.release executionId = some (.ok, loop')) :
    ∃ i, Frees loop loop' executionId i ∧ loop'.minimumExecutionId = loop.minimumExecutionId := by
  obtain ⟨hfloor, ⟨-, i, hfrees⟩ | ⟨hbad, -⟩⟩ := release_cases h
  · exact ⟨i, hfrees, hfloor⟩
  · exact absurd rfl hbad

end Loop

/-! ## What the calls say of a client -/

/-- The packet holds a frame of a kind that is about an execution. -/
def holds (kind : FrameKind) (executionId : UInt64) (packet : Bytes) : Bool :=
  (Protocol.decode packet).toOption.any fun frame =>
    frame.kind == kind && frame.executionId == executionId

namespace Control

variable {image : Image} {bound : Nat} {loop loop' : Loop}

/-- A packet is admitted as the execution that it asks for, or no execution is touched. -/
theorem submit_cases {packet : Bytes} {answer : Except ControlResult UInt64}
    (h : submit image bound packet loop = some (answer, loop')) :
    (∃ executionId i, answer = .ok executionId ∧ holds .execute executionId packet = true ∧
        Admits image loop loop' executionId i) ∨
      (∃ e, answer = .error e ∧ Idles loop loop' ∧
        loop'.minimumExecutionId = loop.minimumExecutionId) := by
  unfold submit at h
  split at h
  · cases h
    exact .inr ⟨_, rfl, Idles.refl _, rfl⟩
  rename_i request hdecode
  split at h
  · cases h
    exact .inr ⟨_, rfl, Idles.refl _, rfl⟩
  rename_i hkind
  split at h
  · cases h
  · rename_i admitted hadmit
    cases h
    rcases Loop.admitExecution_cases hadmit with ⟨-, i, hadmits⟩ | ⟨hbad, -⟩
    · refine .inl ⟨request.executionId, i, rfl, ?_, hadmits⟩
      simp [holds, hdecode, Except.toOption, not_not.mp hkind]
    · exact absurd rfl hbad
  · rename_i failed refused hne hadmit
    cases h
    rcases Loop.admitExecution_cases hadmit with ⟨hok, -⟩ | ⟨-, hidles, hfloor⟩
    · exact absurd hok hne
    · exact .inr ⟨_, rfl, hidles, hfloor⟩

/-- The result of an execution, as a packet. -/
theorem collect_ok {executionId : UInt64} {packet : Bytes}
    (h : collect executionId Protocol.maxPacketSize loop = .ok packet) :
    ∃ frame, loop.result executionId = .ok frame ∧
      Protocol.encode frame Protocol.maxPacketSize = .ok packet ∧
      holds .executionResult executionId packet = true := by
  unfold collect at h
  split at h
  · cases h
  split at h
  · cases h
  · cases h
  · rename_i frame hresult
    cases hencode : Protocol.encode frame Protocol.maxPacketSize with
    | error e => rw [hencode] at h; cases h
    | ok encoded =>
        rw [hencode] at h
        cases h
        obtain ⟨i, -, -, -, -, hkind, hid⟩ := Loop.result_ok hresult
        refine ⟨frame, hresult, hencode, ?_⟩
        simp [holds, Protocol.decode_encode hencode, Except.toOption, hkind, hid]

theorem submit_admits {packet : Bytes} {executionId : UInt64}
    (h : submit image bound packet loop = some (.ok executionId, loop')) :
    ∃ i, Admits image loop loop' executionId i ∧ holds .execute executionId packet = true := by
  rcases submit_cases h with ⟨_, i, hid, hholds, hadmits⟩ | ⟨_, herror, -⟩
  · cases hid
    exact ⟨i, hadmits, hholds⟩
  · cases herror

theorem submit_refuses {packet : Bytes} {e : ControlResult}
    (h : submit image bound packet loop = some (.error e, loop')) :
    Idles loop loop' ∧ loop'.minimumExecutionId = loop.minimumExecutionId := by
  rcases submit_cases h with ⟨_, _, hok, -⟩ | ⟨_, -, hidles, hfloor⟩
  · cases hok
  · exact ⟨hidles, hfloor⟩

end Control

/-- The client that a call is about. -/
def ClientCall.place : ClientCall → ClientPlace
  | attach place _ | admission place _ _ | reject place _ | result place _ _ _ | close place
  | release place _ => place

/-- How far the client at a place has come. -/
inductive Session where
  | free
  | connected (descriptor : Nat)
  | refused
  | running (descriptor : Nat) (executionId : UInt64)
  | delivered (executionId : UInt64)
  | broken (executionId : UInt64)
  | abandoned (executionId : UInt64)
  | settled
  deriving DecidableEq, Repr

/-- What may be done for a client next. -/
def Session.next : Session → ClientCall → Option Session
  | .free, .attach _ descriptor => some (.connected descriptor)
  | .connected descriptor, .admission _ executionId packet =>
      if holds .execute executionId packet then some (.running descriptor executionId) else none
  | .connected _, .reject _ _ => some .refused
  | .connected _, .close _ => some .free
  | .refused, .close _ => some .free
  | .running _ executionId, .result _ answered packet sent =>
      -- a packet that was cut short has broken the connection
      if answered = executionId ∧ holds .executionResult executionId packet then
        some (if sent = packet.length then .delivered executionId else .broken executionId)
      else none
  | .running _ executionId, .close _ => some (.abandoned executionId)
  | .broken executionId, .close _ => some (.abandoned executionId)
  | .delivered executionId, .release _ released =>
      if released = executionId then some .settled else none
  | .abandoned executionId, .release _ released =>
      if released = executionId then some .free else none
  | .settled, .close _ => some .free
  | _, _ => none

/-- The calls that the server may make for its clients. -/
def sessions : Monitor Session ClientCall := { start := .free, next := Session.next }

/-- The session that a client is in between two calls of the server. -/
def ControlClient.session (client : ControlClient) : Session :=
  match client.admitted, client.fileDescriptor with
  | true, some descriptor => .running descriptor client.executionId
  | true, none => .abandoned client.executionId
  | false, some descriptor => .connected descriptor
  | false, none => .free

namespace ControlServer

/-! ## Moves -/

/-- How an execution that is complete leaves its client, and the calls behind it. -/
inductive Delivers (server : ControlServer) (place : ClientPlace) (executionId : UInt64) :
    List ClientCall → Prop
  | gone (abandoned : (server.clients place).session = .abandoned executionId) :
      Delivers server place executionId (.release place executionId :: server.calls)
  | sent (descriptor : Nat) (packet : Bytes)
      (running : (server.clients place).session = .running descriptor executionId)
      (collected : Control.collect executionId Protocol.maxPacketSize server.loop = .ok packet) :
      Delivers server place executionId (.close place :: .release place executionId ::
        .result place executionId packet packet.length :: server.calls)
  | lost (descriptor : Nat) (packet : Bytes) (count : Int)
      (running : (server.clients place).session = .running descriptor executionId)
      (collected : Control.collect executionId Protocol.maxPacketSize server.loop = .ok packet)
      (short : count ≠ packet.length) :
      Delivers server place executionId (.release place executionId :: .close place ::
        .result place executionId packet count :: server.calls)

/-- A move of the server: one call on the loop, or one change of a client, with what is recorded. -/
inductive Moves (image : Image) (server server' : ControlServer) : Prop
  | counts (loop : server'.loop = server.loop) (clients : server'.clients = server.clients)
      (calls : server'.calls = server.calls)
  | polls {bound : Nat} {events : PollItem → Event}
      (polled : server.loop.poll image bound events = some (.ok, server'.loop))
      (clients : server'.clients = server.clients) (calls : server'.calls = server.calls)
  | refuses {bound : Nat} {packet : Bytes} {e : ControlResult}
      (refused : Control.submit image bound packet server.loop = some (.error e, server'.loop))
      (clients : server'.clients = server.clients) (calls : server'.calls = server.calls)
  | attaches (place : ClientPlace) (descriptor : Nat)
      (free : (server.clients place).active = false) (loop : server'.loop = server.loop)
      (clients : server'.clients = Function.update server.clients place
        { fileDescriptor := some descriptor, active := true })
      (calls : server'.calls = .attach place descriptor :: server.calls)
  | drops (place : ClientPlace) (descriptor : Nat)
      (connected : (server.clients place).session = .connected descriptor)
      (loop : server'.loop = server.loop)
      (clients : server'.clients = Function.update server.clients place {})
      (calls : server'.calls = .close place :: server.calls ∨
        ∃ packet, server'.calls = .close place :: .reject place packet :: server.calls)
  | admits {bound : Nat} (place : ClientPlace) (descriptor : Nat) (executionId : UInt64)
      (packet : Bytes) (connected : (server.clients place).session = .connected descriptor)
      (submitted : Control.submit image bound packet server.loop =
        some (.ok executionId, server'.loop))
      (clients : server'.clients = Function.update server.clients place
        { server.clients place with executionId, admitted := true })
      (calls : server'.calls = .admission place executionId packet :: server.calls)
  | abandons (place : ClientPlace) (descriptor : Nat) (executionId : UInt64)
      (running : (server.clients place).session = .running descriptor executionId)
      (loop : server'.loop = server.loop)
      (clients : server'.clients = Function.update server.clients place
        { server.clients place with fileDescriptor := none })
      (calls : server'.calls = .close place :: server.calls)
  | finishes (place : ClientPlace) (executionId : UInt64)
      (released : server.loop.release executionId = some (.ok, server'.loop))
      (clients : server'.clients = Function.update server.clients place {})
      (calls : Delivers server place executionId server'.calls)

/-- One move after the other. -/
def Moved (image : Image) : ControlServer → ControlServer → Prop := ReflTransGen (Moves image)

/-! ## Who an execution belongs to -/

variable {image : Image} {bound : Nat} {server server' : ControlServer} {kept : List UInt64}
  {place other : ClientPlace}

/-- Every execution belongs to one client, or is one of those that were there before. -/
structure Serving (image : Image) (kept : List UInt64) (server : ControlServer) : Prop where
  loop : server.loop.Sound image
  active : ∀ place, (server.clients place).active =
    ((server.clients place).admitted || (server.clients place).fileDescriptor.isSome)
  runs : ∀ place, (server.clients place).admitted = true →
    server.loop.Runs (server.clients place).executionId
  own : ∀ place other, (server.clients place).admitted = true →
    (server.clients other).admitted = true →
    (server.clients place).executionId = (server.clients other).executionId → place = other
  owned : ∀ executionId, server.loop.Runs executionId →
    (∃ place, (server.clients place).admitted = true ∧
      (server.clients place).executionId = executionId) ∨ executionId ∈ kept
  recovered : ∀ executionId ∈ kept, server.loop.Runs executionId
  apart : ∀ place, (server.clients place).admitted = true →
    (server.clients place).executionId ∉ kept

theorem session_connected {client : ControlClient} {descriptor : Nat}
    (h : client.session = .connected descriptor) :
    client.admitted = false ∧ client.fileDescriptor = some descriptor := by
  unfold ControlClient.session at h
  split at h <;> cases h
  rename_i hadmitted hdescriptor
  exact ⟨hadmitted, hdescriptor⟩

theorem session_running {client : ControlClient} {descriptor : Nat} {executionId : UInt64}
    (h : client.session = .running descriptor executionId) :
    client.admitted = true ∧ client.fileDescriptor = some descriptor ∧
      client.executionId = executionId := by
  unfold ControlClient.session at h
  split at h <;> cases h
  rename_i hadmitted hdescriptor
  exact ⟨hadmitted, hdescriptor, rfl⟩

theorem session_abandoned {client : ControlClient} {executionId : UInt64}
    (h : client.session = .abandoned executionId) :
    client.admitted = true ∧ client.fileDescriptor = none ∧
      client.executionId = executionId := by
  unfold ControlClient.session at h
  split at h <;> cases h
  rename_i hadmitted hdescriptor
  exact ⟨hadmitted, hdescriptor, rfl⟩

/-- The client that an execution is taken from had submitted it. -/
theorem Delivers.submitted {executionId : UInt64} {calls : List ClientCall}
    (h : Delivers server place executionId calls) :
    (server.clients place).admitted = true ∧ (server.clients place).executionId = executionId := by
  cases h with
  | gone abandoned => exact ⟨(session_abandoned abandoned).1, (session_abandoned abandoned).2.2⟩
  | sent _ _ running _ => exact ⟨(session_running running).1, (session_running running).2.2⟩
  | lost _ _ _ running _ _ => exact ⟨(session_running running).1, (session_running running).2.2⟩

/-- A client without an execution comes, goes or changes; the loop has nothing to do with it. -/
theorem Serving.setClient {client : ControlClient} (h : Serving image kept server)
    (hloop : server'.loop = server.loop)
    (hclients : server'.clients = Function.update server.clients place client)
    (hactive : client.active = (client.admitted || client.fileDescriptor.isSome))
    (hsame : client.admitted = (server.clients place).admitted)
    (hid : client.admitted = true → client.executionId = (server.clients place).executionId) :
    Serving image kept server' := by
  have hother : ∀ other, (server'.clients other).admitted = (server.clients other).admitted ∧
      ((server'.clients other).admitted = true →
        (server'.clients other).executionId = (server.clients other).executionId) := by
    intro other
    rw [hclients]
    by_cases hplace : other = place
    · rw [hplace, Function.update_self]
      exact ⟨hsame, hid⟩
    · rw [Function.update_of_ne hplace]
      exact ⟨rfl, fun _ => rfl⟩
  refine ⟨hloop ▸ h.loop, fun other => ?_, fun other ha => ?_, fun first second ha hb heq => ?_,
    fun executionId hruns => ?_, fun executionId hkept => ?_, fun other ha => ?_⟩
  · rw [hclients]
    by_cases hplace : other = place
    · rw [hplace, Function.update_self]
      exact hactive
    · rw [Function.update_of_ne hplace]
      exact h.active other
  · rw [hloop, (hother other).2 ha]
    exact h.runs other ((hother other).1 ▸ ha)
  · rw [(hother first).2 ha, (hother second).2 hb] at heq
    exact h.own first second ((hother first).1 ▸ ha) ((hother second).1 ▸ hb) heq
  · rw [hloop] at hruns
    rcases h.owned executionId hruns with ⟨other, ha, heq⟩ | hkept
    · have ha' := (hother other).1.trans ha
      exact .inl ⟨other, ha', ((hother other).2 ha').trans heq⟩
    · exact .inr hkept
  · rw [hloop]
    exact h.recovered executionId hkept
  · rw [(hother other).2 ha]
    exact h.apart other ((hother other).1 ▸ ha)

/-- The loop runs what it ran before. -/
theorem Serving.sameRuns (h : Serving image kept server) (hsound : server'.loop.Sound image)
    (hruns : ∀ executionId, server'.loop.Runs executionId ↔ server.loop.Runs executionId)
    (hclients : server'.clients = server.clients) : Serving image kept server' where
  loop := hsound
  active := by
    rw [hclients]
    exact h.active
  runs place ha := by
    rw [hclients] at ha ⊢
    exact (hruns _).mpr (h.runs place ha)
  own := by
    rw [hclients]
    exact h.own
  owned executionId hr := by
    rw [hclients]
    exact h.owned executionId ((hruns _).mp hr)
  recovered executionId hkept := (hruns _).mpr (h.recovered executionId hkept)
  apart := by
    rw [hclients]
    exact h.apart

/-- A client takes up an execution that nobody has. -/
theorem Serving.admits {executionId : UInt64} {i : SlotIndex} (h : Serving image kept server)
    (hloop : Admits image server.loop server'.loop executionId i)
    (hsound : server'.loop.Sound image)
    (hclients : server'.clients = Function.update server.clients place
      { server.clients place with executionId, admitted := true })
    (hactive : (server.clients place).active = true) (hfresh : (server.clients place).admitted = false) :
    Serving image kept server' := by
  have hunknown : ¬ server.loop.Runs executionId := by
    rintro ⟨j, ha, hid⟩
    exact Loop.findExecution_none hloop.unknown ha hid
  have hself : server'.clients place = { server.clients place with executionId, admitted := true } := by
    rw [hclients, Function.update_self]
  have hothers : ∀ other, other ≠ place → server'.clients other = server.clients other := by
    intro other hne
    rw [hclients, Function.update_of_ne hne]
  -- whoever else is admitted has another execution
  have hapart : ∀ other, other ≠ place → (server'.clients other).admitted = true →
      (server'.clients other).executionId ≠ executionId := by
    intro other hne ha hid
    rw [hothers other hne] at ha hid
    exact hunknown (hid ▸ h.runs other ha)
  refine ⟨hsound, fun other => ?_, fun other ha => ?_, fun first second ha hb heq => ?_,
    fun id hruns => ?_, fun id hkept => ?_, fun other ha hkept => ?_⟩
  · by_cases hne : other = place
    · rw [hne, hself]
      simpa using hactive
    · rw [hothers other hne]
      exact h.active other
  · rw [Loop.runs_takes hloop.toTakes]
    by_cases hne : other = place
    · rw [hne, hself]
      exact .inr rfl
    · rw [hothers other hne] at ha ⊢
      exact .inl (h.runs other ha)
  · by_cases hfirst : first = place <;> by_cases hsecond : second = place
    · rw [hfirst, hsecond]
    · rw [hfirst, hself] at heq
      exact absurd heq.symm (hapart second hsecond hb)
    · rw [hsecond, hself] at heq
      exact absurd heq (hapart first hfirst ha)
    · rw [hothers first hfirst] at ha heq
      rw [hothers second hsecond] at hb heq
      exact h.own first second ha hb heq
  · rcases (Loop.runs_takes hloop.toTakes).mp hruns with hold | rfl
    · rcases h.owned id hold with ⟨other, ha, hid⟩ | hkept
      · have hne : other ≠ place := by
          intro hne
          rw [hne, hfresh] at ha
          cases ha
        exact .inl ⟨other, by rw [hothers other hne]; exact ha, by rw [hothers other hne]; exact hid⟩
      · exact .inr hkept
    · exact .inl ⟨place, by rw [hself], by rw [hself]⟩
  · exact (Loop.runs_takes hloop.toTakes).mpr (.inl (h.recovered id hkept))
  · by_cases hne : other = place
    · rw [hne, hself] at hkept
      exact hunknown (h.recovered executionId hkept)
    · rw [hothers other hne] at ha hkept
      exact h.apart other ha hkept

/-- An execution leaves its client, and its slot. -/
theorem Serving.finishes {executionId : UInt64} {i : SlotIndex} (h : Serving image kept server)
    (hloop : Frees server.loop server'.loop executionId i) (hsound : server'.loop.Sound image)
    (hclients : server'.clients = Function.update server.clients place {})
    (hadmitted : (server.clients place).admitted = true)
    (hid : (server.clients place).executionId = executionId) : Serving image kept server' := by
  have hruns : ∀ id, server'.loop.Runs id ↔ server.loop.Runs id ∧ id ≠ executionId :=
    fun id => Loop.runs_frees h.loop hloop
  have hothers : ∀ other, (server'.clients other).admitted = true →
      other ≠ place ∧ server'.clients other = server.clients other := by
    intro other ha
    have hne : other ≠ place := by
      intro hne
      rw [hclients, hne, Function.update_self] at ha
      cases ha
    exact ⟨hne, by rw [hclients, Function.update_of_ne hne]⟩
  refine ⟨hsound, fun other => ?_, fun other ha => ?_, fun first second ha hb heq => ?_,
    fun id hr => ?_, fun id hkept => ?_, fun other ha => ?_⟩
  · by_cases hne : other = place
    · rw [hclients, hne, Function.update_self]
      rfl
    · rw [hclients, Function.update_of_ne hne]
      exact h.active other
  · obtain ⟨hne, hsame⟩ := hothers other ha
    rw [hsame] at ha ⊢
    refine (hruns _).mpr ⟨h.runs other ha, fun heq => hne ?_⟩
    exact h.own other place ha hadmitted (heq.trans hid.symm)
  · have hfirst := (hothers first ha).2
    have hsecond := (hothers second hb).2
    rw [hfirst] at ha heq
    rw [hsecond] at hb heq
    exact h.own first second ha hb heq
  · obtain ⟨hold, hne⟩ := (hruns id).mp hr
    rcases h.owned id hold with ⟨other, ha, heq⟩ | hkept
    · have hother : other ≠ place := fun hother => hne (by rw [← heq, hother, hid])
      have hsame : server'.clients other = server.clients other := by
        rw [hclients, Function.update_of_ne hother]
      exact .inl ⟨other, by rw [hsame]; exact ha, by rw [hsame]; exact heq⟩
    · exact .inr hkept
  · refine (hruns id).mpr ⟨h.recovered id hkept, fun heq => h.apart place hadmitted ?_⟩
    rw [hid, ← heq]
    exact hkept
  · have hsame := (hothers other ha).2
    rw [hsame] at ha ⊢
    exact h.apart other ha

theorem Serving.moves (h : Serving image kept server) (hm : Moves image server server') :
    Serving image kept server' := by
  cases hm with
  | counts loop clients calls =>
      exact h.sameRuns (loop ▸ h.loop) (fun _ => by rw [loop]) clients
  | polls polled clients calls =>
      have hdrives := Loop.poll_drives polled
      exact h.sameRuns (h.loop.drives hdrives) (fun _ => ⟨fun hr => hr.of_drives hdrives,
        fun hr => hr.drives hdrives⟩) clients
  | refuses refused clients calls =>
      obtain ⟨hidles, -⟩ := Control.submit_refuses refused
      exact h.sameRuns (h.loop.idles hidles) (fun _ => Loop.runs_idles hidles) clients
  | attaches place descriptor free loop clients calls =>
      have hfresh : (server.clients place).admitted = false := by
        have hactive := h.active place
        rw [free] at hactive
        cases hadmitted : (server.clients place).admitted
        · rfl
        · rw [hadmitted] at hactive
          cases hactive
      exact h.setClient loop clients rfl hfresh.symm fun ha => by cases ha
  | drops place descriptor connected loop clients calls =>
      exact h.setClient loop clients rfl (session_connected connected).1.symm fun ha => by cases ha
  | admits place descriptor executionId packet connected submitted clients calls =>
      obtain ⟨hfresh, hdescriptor⟩ := session_connected connected
      obtain ⟨i, hadmits, -⟩ := Control.submit_admits submitted
      have hactive : (server.clients place).active = true := by
        rw [h.active place, hdescriptor]
        simp
      exact h.admits hadmits (h.loop.admits hadmits) clients hactive hfresh
  | abandons place descriptor executionId running loop clients calls =>
      obtain ⟨hadmitted, -, -⟩ := session_running running
      refine h.setClient loop clients ?_ rfl fun _ => rfl
      rw [h.active place, hadmitted]
      rfl
  | finishes place executionId released clients calls =>
      obtain ⟨hadmitted, hid⟩ := calls.submitted
      obtain ⟨i, hfrees, -⟩ := Loop.release_ok released
      exact h.finishes hfrees (h.loop.frees hfrees) clients hadmitted hid

theorem Serving.moved (h : Serving image kept server) (hm : Moved image server server') :
    Serving image kept server' := by
  induction hm with
  | refl => exact h
  | tail _ hstep ih => exact ih.moves hstep

/-! ## The record of the calls -/

/-- The calls of each place make the session that its client is in. -/
def Recorded (server : ControlServer) : Prop :=
  ∀ place, sessions.stage ClientCall.place place server.calls =
    some (server.clients place).session

theorem recorded_init (loop : Loop) : Recorded (init loop) := fun _ => Monitor.stage_nil

/-- Calls about one place are behind its client as it is now, and leave all others alone. -/
theorem Recorded.calls (h : Recorded server) {client : ControlClient} (new : List ClientCall)
    (hclients : server'.clients = Function.update server.clients place client)
    (hcalls : server'.calls = new ++ server.calls) (hnew : ∀ call ∈ new, call.place = place)
    (hstage : sessions.stage ClientCall.place place (new ++ server.calls) = some client.session) :
    Recorded server' := by
  intro other
  rw [hcalls, hclients]
  by_cases hother : other = place
  · rw [hother, Function.update_self]
    exact hstage
  · rw [Function.update_of_ne hother]
    have hskip : ∀ new : List ClientCall, (∀ call ∈ new, call.place = place) →
        sessions.stage ClientCall.place other (new ++ server.calls) =
          sessions.stage ClientCall.place other server.calls := by
      intro new
      induction new with
      | nil => intro _; rfl
      | cons call new ih =>
          intro hplace
          have hne : call.place ≠ other := by
            rw [hplace call List.mem_cons_self]
            exact fun hsame => hother hsame.symm
          rw [List.cons_append, Monitor.stage_cons_of_ne hne]
          exact ih fun c hc => hplace c (List.mem_cons_of_mem _ hc)
    rw [hskip new hnew]
    exact h other

/-- The place behind the calls that hand over a result. -/
theorem Recorded.delivers {executionId : UInt64} {calls : List ClientCall} (h : Recorded server)
    (hdelivers : Delivers server place executionId calls) :
    ∃ new, calls = new ++ server.calls ∧ (∀ call ∈ new, call.place = place) ∧
      sessions.stage ClientCall.place place calls = some .free := by
  have hstage := h place
  cases hdelivers with
  | gone abandoned =>
      rw [abandoned] at hstage
      refine ⟨[_], rfl, by simp [ClientCall.place], Monitor.stage_next rfl hstage ?_⟩
      simp [sessions, Session.next]
  | sent descriptor packet running collected =>
      obtain ⟨-, -, -, result⟩ := Control.collect_ok collected
      rw [running] at hstage
      have hresult : sessions.stage ClientCall.place place
          (.result place executionId packet packet.length :: server.calls) =
            some (.delivered executionId) :=
        Monitor.stage_next rfl hstage (by simp [sessions, Session.next, result])
      have hrelease : sessions.stage ClientCall.place place (.release place executionId ::
          .result place executionId packet packet.length :: server.calls) = some .settled :=
        Monitor.stage_next rfl hresult (by simp [sessions, Session.next])
      exact ⟨[_, _, _], rfl, by simp [ClientCall.place], Monitor.stage_next rfl hrelease rfl⟩
  | lost descriptor packet count running collected short =>
      obtain ⟨-, -, -, result⟩ := Control.collect_ok collected
      rw [running] at hstage
      have hresult : sessions.stage ClientCall.place place
          (.result place executionId packet count :: server.calls) =
            some (.broken executionId) :=
        Monitor.stage_next rfl hstage (by simp [sessions, Session.next, result, short])
      have hclose : sessions.stage ClientCall.place place (.close place ::
          .result place executionId packet count :: server.calls) =
            some (.abandoned executionId) := Monitor.stage_next rfl hresult rfl
      refine ⟨[_, _, _], rfl, by simp [ClientCall.place], Monitor.stage_next rfl hclose ?_⟩
      simp [sessions, Session.next]

theorem Recorded.moves (hs : Serving image kept server) (h : Recorded server)
    (hm : Moves image server server') : Recorded server' := by
  have hkeep : server'.clients = server.clients → server'.calls = server.calls →
      Recorded server' := by
    intro clients calls place
    rw [clients, calls]
    exact h place
  cases hm with
  | counts loop clients calls => exact hkeep clients calls
  | polls polled clients calls => exact hkeep clients calls
  | refuses refused clients calls => exact hkeep clients calls
  | attaches place descriptor free loop clients calls =>
      have hstage := h place
      have hfree : (server.clients place).session = .free := by
        have hactive := hs.active place
        rw [free, eq_comm, Bool.or_eq_false_iff] at hactive
        rw [ControlClient.session, hactive.1, Option.isSome_eq_false_iff.mp hactive.2 |>
          Option.isNone_iff_eq_none.mp]
      rw [hfree] at hstage
      exact h.calls [_] clients calls (by simp [ClientCall.place])
        (Monitor.stage_next rfl hstage rfl)
  | drops place descriptor connected loop clients calls =>
      have hstage := h place
      rw [connected] at hstage
      rcases calls with hcalls | ⟨packet, hcalls⟩
      · exact h.calls [_] clients hcalls (by simp [ClientCall.place])
          (Monitor.stage_next rfl hstage rfl)
      · have hrefused : sessions.stage ClientCall.place place
            (.reject place packet :: server.calls) = some .refused :=
          Monitor.stage_next rfl hstage rfl
        exact h.calls [_, _] clients hcalls (by simp [ClientCall.place])
          (Monitor.stage_next rfl hrefused rfl)
  | admits place descriptor executionId packet connected submitted clients calls =>
      have hstage := h place
      obtain ⟨hfresh, hdescriptor⟩ := session_connected connected
      obtain ⟨i, -, hrequest⟩ := Control.submit_admits submitted
      rw [connected] at hstage
      refine h.calls [_] clients calls (by simp [ClientCall.place])
        (Monitor.stage_next rfl hstage ?_)
      simp [sessions, Session.next, hrequest, ControlClient.session, hdescriptor]
  | abandons place descriptor executionId running loop clients calls =>
      have hstage := h place
      obtain ⟨hadmitted, hdescriptor, hid⟩ := session_running running
      rw [running] at hstage
      refine h.calls [_] clients calls (by simp [ClientCall.place])
        (Monitor.stage_next rfl hstage ?_)
      simp [sessions, Session.next, ControlClient.session, hadmitted, hid]
  | finishes place executionId released clients calls =>
      obtain ⟨new, hcalls, hplace, hstage⟩ := h.delivers calls
      refine h.calls new clients hcalls hplace ?_
      rw [← hcalls]
      exact hstage

/-! ## The ids of the executions -/

/-- The executions that were admitted, the newest first. -/
def admissions (calls : List ClientCall) : List UInt64 :=
  calls.filterMap fun call => match call with
    | .admission _ executionId _ => some executionId
    | _ => none

/-- The executions whose results were written to a socket, in part or in full. -/
def answers (calls : List ClientCall) : List UInt64 :=
  calls.filterMap fun call => match call with
    | .result _ executionId _ _ => some executionId
    | _ => none

/-- Ids are admitted in increasing order, and each has its result written once at most. -/
structure Numbered (server : ControlServer) : Prop where
  floor : server.loop.minimumExecutionId ≠ 0
  increasing : (admissions server.calls).Pairwise (· > ·)
  below : ∀ executionId ∈ admissions server.calls, executionId < server.loop.minimumExecutionId
  once : (answers server.calls).Nodup
  known : ∀ executionId ∈ answers server.calls, executionId ∈ admissions server.calls
  running : ∀ place, (server.clients place).admitted = true →
    (server.clients place).executionId ∈ admissions server.calls ∧
      (server.clients place).executionId ∉ answers server.calls

theorem numbered_init {loop : Loop} (hfloor : loop.minimumExecutionId ≠ 0) :
    Numbered (init loop) where
  floor := hfloor
  increasing := List.Pairwise.nil
  below := by
    intro executionId hmem
    cases hmem
  once := List.nodup_nil
  known := by
    intro executionId hmem
    cases hmem
  running := by
    intro place ha
    cases ha

/-- Calls that admit nothing and answer nothing, while clients come and go. -/
theorem Numbered.silent (h : Numbered server)
    (hfloor : server'.loop.minimumExecutionId = server.loop.minimumExecutionId)
    (hadmissions : admissions server'.calls = admissions server.calls)
    (hanswers : answers server'.calls = answers server.calls)
    (hclients : ∀ place, (server'.clients place).admitted = true →
      (server.clients place).admitted = true ∧
        (server'.clients place).executionId = (server.clients place).executionId) :
    Numbered server' where
  floor := by
    rw [hfloor]
    exact h.floor
  increasing := hadmissions ▸ h.increasing
  below executionId hmem := by
    rw [hadmissions] at hmem
    rw [hfloor]
    exact h.below executionId hmem
  once := hanswers ▸ h.once
  known executionId hmem := by
    rw [hanswers] at hmem
    rw [hadmissions]
    exact h.known executionId hmem
  running place ha := by
    obtain ⟨hadmitted, hid⟩ := hclients place ha
    rw [hadmissions, hanswers, hid]
    exact h.running place hadmitted

/-- The clients behind a change of one of them that admits it to nothing new. -/
theorem clients_update {client : ControlClient}
    (hclients : server'.clients = Function.update server.clients place client)
    (hclient : client.admitted = true → (server.clients place).admitted = true ∧
      client.executionId = (server.clients place).executionId) :
    ∀ other, (server'.clients other).admitted = true →
      (server.clients other).admitted = true ∧
        (server'.clients other).executionId = (server.clients other).executionId := by
  intro other ha
  rw [hclients] at ha ⊢
  by_cases hother : other = place
  · rw [hother, Function.update_self] at ha ⊢
    exact hclient ha
  · rw [Function.update_of_ne hother] at ha ⊢
    exact ⟨ha, rfl⟩

/-- The id that a server admits lies above all that it admitted. -/
theorem Numbered.admits {executionId : UInt64} {i : SlotIndex} {packet : Bytes}
    (h : Numbered server) (hloop : Admits image server.loop server'.loop executionId i)
    (hclients : server'.clients = Function.update server.clients place
      { server.clients place with executionId, admitted := true })
    (hcalls : server'.calls = .admission place executionId packet :: server.calls) :
    Numbered server' := by
  have hfloor : server'.loop.minimumExecutionId = executionId + 1 := by
    rw [hloop.raised, if_pos h.floor]
  -- the last id is never admitted, so the floor does not wrap around
  have hlt : executionId.toNat + 1 < 2 ^ 64 := by
    have hlast : executionId.toNat ≠ uint64Max.toNat := fun hsame =>
      hloop.last (UInt64.toNat_inj.mp hsame)
    have hmax : uint64Max.toNat = 2 ^ 64 - 1 := by decide
    have hbound := executionId.toNat_lt
    omega
  have hsucc : (executionId + 1).toNat = executionId.toNat + 1 := by
    rw [UInt64.toNat_add]
    exact Nat.mod_eq_of_lt hlt
  have hadmissions : admissions server'.calls = executionId :: admissions server.calls := by
    rw [hcalls]
    rfl
  have hanswers : answers server'.calls = answers server.calls := by
    rw [hcalls]
    rfl
  have habove : ∀ id ∈ admissions server.calls, id < executionId := by
    intro id hmem
    exact UInt64.lt_of_lt_of_le (h.below id hmem) (hloop.floor h.floor)
  have hnew : executionId ∉ answers server.calls := by
    intro hmem
    exact UInt64.lt_irrefl _ (habove executionId (h.known executionId hmem))
  refine ⟨?_, ?_, fun id hmem => ?_, hanswers ▸ h.once, fun id hmem => ?_, fun other ha => ?_⟩
  · rw [hfloor]
    intro hzero
    rw [hzero] at hsucc
    exact absurd hsucc (by simp)
  · rw [hadmissions]
    exact List.pairwise_cons.mpr ⟨habove, h.increasing⟩
  · rw [hfloor, UInt64.lt_iff_toNat_lt, hsucc]
    rw [hadmissions, List.mem_cons] at hmem
    rcases hmem with rfl | hmem
    · omega
    · have hid := UInt64.lt_iff_toNat_lt.mp (habove id hmem)
      omega
  · rw [hanswers] at hmem
    rw [hadmissions]
    exact List.mem_cons_of_mem _ (h.known id hmem)
  · rw [hadmissions, hanswers]
    by_cases hother : other = place
    · rw [hclients, hother, Function.update_self]
      exact ⟨List.mem_cons_self, hnew⟩
    · rw [hclients, Function.update_of_ne hother] at ha ⊢
      obtain ⟨hmem, hnot⟩ := h.running other ha
      exact ⟨List.mem_cons_of_mem _ hmem, hnot⟩

theorem Delivers.admissions {executionId : UInt64} {calls : List ClientCall}
    (h : Delivers server place executionId calls) :
    ControlServer.admissions calls = ControlServer.admissions server.calls := by
  cases h <;> rfl

theorem Delivers.answers {executionId : UInt64} {calls : List ClientCall}
    (h : Delivers server place executionId calls) :
    ControlServer.answers calls = ControlServer.answers server.calls ∨
      ControlServer.answers calls = executionId :: ControlServer.answers server.calls := by
  cases h
  · exact .inl rfl
  · exact .inr rfl
  · exact .inr rfl

/-- An execution whose result is written has had none written before. -/
theorem Numbered.finishes {executionId : UInt64} (h : Numbered server)
    (hs : Serving image kept server)
    (hfloor : server'.loop.minimumExecutionId = server.loop.minimumExecutionId)
    (hclients : server'.clients = Function.update server.clients place {})
    (hcalls : Delivers server place executionId server'.calls) : Numbered server' := by
  obtain ⟨hadmitted, hid⟩ := hcalls.submitted
  have hothers : ∀ other, (server'.clients other).admitted = true →
      other ≠ place ∧ server'.clients other = server.clients other := by
    intro other ha
    have hne : other ≠ place := by
      intro hne
      rw [hclients, hne, Function.update_self] at ha
      cases ha
    exact ⟨hne, by rw [hclients, Function.update_of_ne hne]⟩
  obtain ⟨hknown, hnew⟩ := h.running place hadmitted
  rw [hid] at hknown hnew
  rcases hcalls.answers with hsame | hcons
  · refine h.silent hfloor hcalls.admissions hsame fun other ha => ?_
    obtain ⟨-, hother⟩ := hothers other ha
    rw [hother] at ha ⊢
    exact ⟨ha, rfl⟩
  · refine ⟨hfloor ▸ h.floor, hcalls.admissions ▸ h.increasing, fun id hmem => ?_, ?_,
      fun id hmem => ?_, fun other ha => ?_⟩
    · rw [hcalls.admissions] at hmem
      rw [hfloor]
      exact h.below id hmem
    · rw [hcons]
      exact List.nodup_cons.mpr ⟨hnew, h.once⟩
    · rw [hcons, List.mem_cons] at hmem
      rw [hcalls.admissions]
      rcases hmem with rfl | hmem
      · exact hknown
      · exact h.known id hmem
    · obtain ⟨hne, hother⟩ := hothers other ha
      rw [hother] at ha ⊢
      rw [hcalls.admissions, hcons, List.mem_cons, not_or]
      obtain ⟨hmem, hnot⟩ := h.running other ha
      exact ⟨hmem, fun hsame => hne (hs.own other place ha hadmitted (hsame.trans hid.symm)), hnot⟩

theorem Numbered.moves (hs : Serving image kept server) (h : Numbered server)
    (hm : Moves image server server') : Numbered server' := by
  have hkeep : server'.clients = server.clients → ∀ place, (server'.clients place).admitted = true →
      (server.clients place).admitted = true ∧
        (server'.clients place).executionId = (server.clients place).executionId := by
    intro hclients place ha
    rw [hclients] at ha ⊢
    exact ⟨ha, rfl⟩
  cases hm with
  | counts loop clients calls =>
      exact h.silent (by rw [loop]) (by rw [calls]) (by rw [calls]) (hkeep clients)
  | polls polled clients calls =>
      exact h.silent (Loop.poll_floor polled) (by rw [calls]) (by rw [calls]) (hkeep clients)
  | refuses refused clients calls =>
      obtain ⟨-, hfloor⟩ := Control.submit_refuses refused
      exact h.silent hfloor (by rw [calls]) (by rw [calls]) (hkeep clients)
  | attaches place descriptor free loop clients calls =>
      refine h.silent (by rw [loop]) (by rw [calls]; rfl) (by rw [calls]; rfl)
        (clients_update clients fun ha => ?_)
      cases ha
  | drops place descriptor connected loop clients calls =>
      refine h.silent (by rw [loop]) ?_ ?_ (clients_update clients fun ha => ?_)
      · rcases calls with hcalls | ⟨packet, hcalls⟩ <;> rw [hcalls] <;> rfl
      · rcases calls with hcalls | ⟨packet, hcalls⟩ <;> rw [hcalls] <;> rfl
      · cases ha
  | admits place descriptor executionId packet connected submitted clients calls =>
      obtain ⟨i, hadmits, -⟩ := Control.submit_admits submitted
      exact h.admits hadmits clients calls
  | abandons place descriptor executionId running loop clients calls =>
      exact h.silent (by rw [loop]) (by rw [calls]; rfl) (by rw [calls]; rfl)
        (clients_update clients fun ha => ⟨ha, rfl⟩)
  | finishes place executionId released clients calls =>
      obtain ⟨i, -, hfloor⟩ := Loop.release_ok released
      exact h.finishes hs hfloor clients calls

/-- What holds of the server and its record before a sequence of moves holds behind it. -/
theorem recorded_moved (hs : Serving image kept server) (h : Recorded server)
    (hm : Moved image server server') : Recorded server' := by
  induction hm with
  | refl => exact h
  | tail hbefore hstep ih => exact ih.moves (hs.moved hbefore) hstep

theorem numbered_moved (hs : Serving image kept server) (h : Numbered server)
    (hm : Moved image server server') : Numbered server' := by
  induction hm with
  | refl => exact h
  | tail hbefore hstep ih => exact ih.moves (hs.moved hbefore) hstep

end ControlServer

end Hermas.Daemon
