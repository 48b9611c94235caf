import Hermas.Base.Simulation
import Hermas.Image.Encode
import Hermas.Image.Graph
import Hermas.Runtime.GroupRun

/-!
# The two interpreters on one image

An image without forks, joins and each regions can be run by either interpreter:
by the sequential one, or by the group interpreter on its first flow alone. Both
follow a value through the dispatches to the same landing; the states stay
related as long as the first landing is one that both accept. The sequential
interpreter counts its deliveries by hand and refuses to overflow, which no way
through the image is long enough to reach.
-/

namespace Hermas

open Image (Edge Node)

/-! ## Landings of one flow -/

section Landings

variable {image : Image}

/-- A value that gets stuck stands in front of a dispatch. -/
theorem landing_stuck {value v : Bytes} {edge e : Edge} {r : RuntimeResult}
    (he : edge ∈ image.tables.edges) (hl : landing image value edge = .stuck e v r) :
    e ∈ image.tables.edges ∧ e.targetKind = 3 ∧ r ≠ .ok := by
  fun_induction landing image value edge with
  | case1 => cases hl
  | case2 edge hk =>
      cases hl
      exact ⟨he, not_not.mp hk, by decide⟩
  | case3 edge hk =>
      cases hl
      exact ⟨he, not_not.mp hk, by decide⟩
  | case4 edge hk t0 t1 t2 t3 r0 r1 r2 r3 rest tag hbad next hfind hok ih =>
      exact ih (Image.mem_of_findCaseEdge hfind) hl
  | case5 edge hk =>
      cases hl
      exact ⟨he, not_not.mp hk, by decide⟩
  | case6 edge hk =>
      cases hl
      exact ⟨he, not_not.mp hk, by decide⟩

/-- A landing is the edge itself, or behind a case of a dispatch downstream of it. -/
theorem landing_downstream (hseq : image.Sequential) {value v : Bytes} {edge e : Edge}
    (he : edge ∈ image.tables.edges) (hl : landing image value edge = .at e v) :
    Relation.ReflTransGen image.Leads edge.targetNode e.targetNode ∧
      (e = edge ∨ e.sourceKind = 5) := by
  fun_induction landing image value edge with
  | case1 => cases hl; exact ⟨.refl, .inl rfl⟩
  | case4 edge hk t0 t1 t2 t3 r0 r1 r2 r3 rest tag hbad next hfind hok ih =>
      have hnext := Image.mem_of_findCaseEdge hfind
      have hcase := List.find?_some hfind
      simp only [Bool.and_eq_true, beq_iff_eq] at hcase
      obtain ⟨hpath, hkind⟩ := ih hnext hl
      have hstep := hseq.leads hnext (.inr (.inr hcase.1.1))
      rw [hcase.1.2] at hstep
      exact ⟨.head hstep hpath, .inr (hkind.elim (fun h => h ▸ hcase.1.1) id)⟩
  | _ => cases hl

end Landings

namespace Execution

variable {image : Image}

/-- The execution in front of a node, with the value it has there. -/
def placed (execution : Execution) (edge : Edge) (value : Bytes) : Execution :=
  { execution with
    value
    valueSourceType := edge.sourceType
    valueDestinationType := edge.targetType
    currentNode := edge.targetNode }

/-- The execution where its value has come to rest. -/
def arrived (execution : Execution) (outcome : Outcome) : Landing → RuntimeResult × Execution
  | .stuck edge value result => (result, execution.placed edge value)
  | .at edge value =>
      if edge.targetKind = 1 then (.ok, { execution.placed edge value with state := .ready })
      else (.ok, { execution.placed edge value with
        terminalOutcome := outcome, state := .complete })

/-- **An entry is the arrival at its landing**, for the sequential interpreter. -/
theorem enterEdge_landing (value : Bytes) (edge : Edge) (outcome : Outcome)
    (execution : Execution) :
    enterEdge image value edge outcome execution =
      execution.arrived outcome (landing image value edge) := by
  fun_induction landing image value edge generalizing execution with
  | case1 value edge hk =>
      unfold enterEdge
      simp only [hk, if_false, arrived]
      rfl
  | case2 edge hk t0 t1 t2 t3 r0 r1 r2 r3 rest tag hbad =>
      unfold enterEdge
      have hkind : edge.targetKind = 3 := not_not.mp hk
      simp only [hkind, show ¬ (3 : UInt8) = 1 by decide, if_false, if_true]
      rw [if_pos hbad]
      rfl
  | case3 edge hk t0 t1 t2 t3 r0 r1 r2 r3 rest tag hbad hfind =>
      unfold enterEdge
      have hkind : edge.targetKind = 3 := not_not.mp hk
      simp only [hkind, show ¬ (3 : UInt8) = 1 by decide, if_false, if_true]
      rw [if_neg hbad]
      simp only [tag] at hfind
      rw [hfind]
      rfl
  | case4 edge hk t0 t1 t2 t3 r0 r1 r2 r3 rest tag hbad next hfind hok ih =>
      unfold enterEdge
      have hkind : edge.targetKind = 3 := not_not.mp hk
      simp only [hkind, show ¬ (3 : UInt8) = 1 by decide, if_false, if_true]
      rw [if_neg hbad]
      simp only [tag] at hfind
      rw [hfind]
      simp only [hok, if_true]
      rw [ih]
      cases landing image rest next <;> rfl
  | case5 edge hk t0 t1 t2 t3 r0 r1 r2 r3 rest tag hbad next hfind hok =>
      unfold enterEdge
      have hkind : edge.targetKind = 3 := not_not.mp hk
      simp only [hkind, show ¬ (3 : UInt8) = 1 by decide, if_false, if_true]
      rw [if_neg hbad]
      simp only [tag] at hfind
      rw [hfind]
      simp only [hok]
      rfl
  | case6 edge hk value hshort =>
      unfold enterEdge
      have hkind : edge.targetKind = 3 := not_not.mp hk
      simp only [hkind, show ¬ (3 : UInt8) = 1 by decide, if_false, if_true]
      rfl

end Execution

namespace GroupExecution

variable {image : Image}

/-- A bound above the length of the value is enough for one flow. -/
theorem enterEdge_returns (hseq : image.Sequential) (i : FlowIndex) (o : Outcome) :
    ∀ (bound : Nat) (edge : Edge) (s : GroupExecution), edge ∈ image.tables.edges →
      (s.flows i).value.length < bound →
      ∃ r s', enterEdge image bound i edge o s = some (r, s') := by
  intro bound
  induction bound with
  | zero => intro edge s _ hlen; omega
  | succ bound ih =>
      intro edge s he hlen
      unfold enterEdge arrive
      rcases hseq.target he with hk | hk | hk
      · exact ⟨_, _, by rw [if_pos hk]; rfl⟩
      · simp only [hk, show ¬ (2 : UInt8) = 1 by decide, show ¬ (2 : UInt8) = 4 by decide,
          show ¬ (2 : UInt8) = 3 by decide, show ¬ (2 : UInt8) = 5 by decide,
          show ¬ (2 : UInt8) = 6 by decide, show ¬ (2 : UInt8) = 7 by decide, if_false, if_true]
        exact ⟨_, _, rfl⟩
      · simp only [hk, show ¬ (3 : UInt8) = 1 by decide, show ¬ (3 : UInt8) = 4 by decide,
          if_false, if_true]
        unfold routeDispatch
        simp only
        split
        · exact ⟨_, _, rfl⟩
        rename_i hshort
        split
        · exact ⟨_, _, rfl⟩
        split
        · exact ⟨_, _, rfl⟩
        rename_i next hnext
        split
        · exact ⟨_, _, rfl⟩
        -- behind the dispatch the value is eight bytes shorter
        refine ih next _ (Image.mem_of_groupFindEdge hnext).1 ?_
        have hvalue : ((s.aim i edge).flows i).value = (s.flows i).value := by simp [aim]
        rw [hvalue] at hshort
        rw [setFlow_flows_self, hvalue, List.length_drop]
        omega

/-- The execution where the value of its only flow has come to rest. -/
def arrived (s : GroupExecution) (i : FlowIndex) (outcome : Outcome) :
    Landing → RuntimeResult × GroupExecution
  | .stuck edge value result => (result, s.landed i edge value)
  | .at edge value =>
      if edge.targetKind = 1 then
        (.ok, (s.landed i edge value).setFlow i fun flow =>
          { flow with state := .ready, active := true })
      else (.ok, (s.landed i edge value).recordTerminal i outcome)

/-- **An entry is the arrival at its landing**, for one flow of the group interpreter. -/
theorem enterEdge_arrived (hseq : image.Sequential) (i : FlowIndex) (o : Outcome) {bound : Nat}
    {edge : Edge} {s : GroupExecution} (he : edge ∈ image.tables.edges)
    (hlen : (s.flows i).value.length < bound) :
    enterEdge image bound i edge o s =
      some (s.arrived i o (landing image (s.flows i).value edge)) := by
  obtain ⟨r, s', henter⟩ := enterEdge_returns hseq i o bound edge s he hlen
  have hlands := enterEdge_landing henter
  rw [henter]
  cases hl : landing image (s.flows i).value edge with
  | stuck e v result =>
      rw [hl] at hlands
      obtain ⟨rfl, -, rfl⟩ := hlands
      rfl
  | «at» e v =>
      rw [hl] at hlands
      obtain ⟨hk, bound', harrive⟩ := hlands
      have hmem := Image.landing_mem he hl
      rcases hseq.target hmem with hkind | hkind | hkind
      · simp only [arrive, hkind, if_true] at harrive
        obtain ⟨rfl, rfl⟩ := Prod.mk.inj (Option.some.inj harrive)
        simp only [arrived, hkind, if_true]
        rfl
      · obtain ⟨rfl, rfl⟩ := arrive_terminal hkind harrive
        simp only [arrived, hkind, show ¬ (2 : UInt8) = 1 by decide, if_false]
      · exact absurd hkind hk

/-- The first flow is the only one. -/
def Alone (s : GroupExecution) : Prop := ∀ i, i ≠ 0 → (s.flows i).active = false

theorem Alone.setFlow {s : GroupExecution} (h : s.Alone) (f : Flow → Flow) :
    (s.setFlow 0 f).Alone := by
  intro i hi
  rw [setFlow_flows_of_ne _ _ hi]
  exact h i hi

/-- The only flow ends the execution. -/
theorem recordTerminal_alone {s : GroupExecution} (h : s.Alone) (hnone : s.pendingOutcome = .none)
    {o : Outcome} (ho : o = .success ∨ o.IsFailure) :
    (s.recordTerminal 0 o).complete = true ∧ (s.recordTerminal 0 o).pendingOutcome = o ∧
      (s.recordTerminal 0 o).pendingFlow = 0 ∧
      (s.recordTerminal 0 o).flows 0 = (s.flows 0).released ∧ (s.recordTerminal 0 o).Alone := by
  have hprec : Outcome.none.precedence < o.precedence := by
    rcases ho with rfl | rfl | rfl | rfl <;> decide
  have hflows : ∀ i, ((s.recordTerminal 0 o).flows i).active = false := by
    intro i
    rw [recordTerminal_flows]
    split
    · rfl
    · rename_i hi
      exact h i fun h0 => hi (.inl h0)
  have hpending : (s.recordTerminal 0 o).pendingOutcome = o := by
    rw [recordTerminal_pendingOutcome, hnone, if_pos hprec]
  refine ⟨?_, hpending, ?_, ?_, fun i _ => hflows i⟩
  · have hidle : ∀ t : GroupExecution, t.flows = (s.recordTerminal 0 o).flows →
        t.pendingOutcome = o → t.maybeComplete.complete = true := by
      intro t ht hto
      have hactive : t.hasActive = false := by
        simp only [hasActive, List.any_eq_false, ht, hflows]
        simp
      have hsent : t.hasSent = false := by
        simp only [hasSent, List.any_eq_false, ht, hflows]
        simp
      unfold maybeComplete
      rcases ho with rfl | rfl | rfl | rfl <;> simp [hto, hactive, hsent]
    unfold recordTerminal at hpending hflows hidle ⊢
    simp only [maybeComplete_flows, maybeComplete_pendingOutcome] at hpending hidle
    exact hidle _ rfl hpending
  · unfold recordTerminal
    rw [maybeComplete_pendingFlow]
    split_ifs <;> simp [recordOutcome, cutOff, setFlow, hnone, hprec]
  · rw [recordTerminal_flows, if_pos (.inl rfl)]

end GroupExecution

/-! ## Operations on one delivery -/

/-- An operation on the only delivery. -/
inductive DeliveryOp where
  | prepare | markSent | markNotSent | markUnknown
  | acceptResult (result : Frame)

/-- What the caller sees: whether the operation succeeded, and the frame it was given. -/
structure Answer where
  ok : Bool
  frame : Option Frame := none
  deriving DecidableEq, Repr

/-- The answer to an operation that reports a status. -/
def Answer.of (r : RuntimeResult) : Answer := { ok := r == .ok }

def Execution.operate (image : Image) (execution : Execution) :
    DeliveryOp → Option (Answer × Execution)
  | .prepare =>
      match execution.prepare image with
      | .error r => some (.of r, execution)
      | .ok (frame, execution) => some ({ ok := true, frame }, execution)
  | .markSent =>
      match execution.markSent with
      | .error r => some (.of r, execution)
      | .ok execution => some (.of .ok, execution)
  | .markNotSent => some (.of (execution.markNotSent image).1, (execution.markNotSent image).2)
  | .markUnknown => some (.of (execution.markUnknown image).1, (execution.markUnknown image).2)
  | .acceptResult result =>
      some (.of (execution.acceptResult image result).1, (execution.acceptResult image result).2)

/-- The same operations on the first flow; nothing, if the bound is too small. -/
def GroupExecution.operate (image : Image) (bound : Nat) (s : GroupExecution) :
    DeliveryOp → Option (Answer × GroupExecution)
  | .prepare =>
      match s.prepare image 0 with
      | .error r => some (.of r, s)
      | .ok (frame, s) => some ({ ok := true, frame }, s)
  | .markSent =>
      match s.markSent 0 with
      | .error r => some (.of r, s)
      | .ok s => some (.of .ok, s)
  | .markNotSent => (s.markNotSent image bound 0).map fun out => (.of out.1, out.2)
  | .markUnknown => (s.markUnknown image bound 0).map fun out => (.of out.1, out.2)
  | .acceptResult result => (s.acceptResult image bound 0 result).map fun out => (.of out.1, out.2)

/-! ## The relation -/

/-- The stations behind a node: every delivery so far was made at one of them. -/
def Way (image : Image) (node : UInt16) (deliveries : Nat) : Prop :=
  ∃ stations : List UInt16, (stations ++ [node]).IsChain (Relation.TransGen image.Leads) ∧
    (∀ v ∈ stations ++ [node], image.IsNode v) ∧ 0 < deliveries ∧ deliveries ≤ stations.length + 1

section Ways

variable {image : Image} {node target : UInt16} {deliveries : Nat}

theorem Way.first (hn : image.IsNode node) : Way image node 1 :=
  ⟨[], by simp, by simpa using hn, by omega, by simp⟩

theorem Way.next (h : Way image node deliveries) (hn : image.IsNode target)
    (hl : Relation.TransGen image.Leads node target) : Way image target (deliveries + 1) := by
  obtain ⟨stations, hchain, hnodes, hpos, hle⟩ := h
  refine ⟨stations ++ [node], ?_, ?_, by omega, by simpa using hle⟩
  · refine List.isChain_append.mpr ⟨hchain, by simp, ?_⟩
    intro u hu v hv
    simp only [List.getLast?_append, List.getLast?_singleton, Option.some_or, Option.mem_def,
      Option.some.injEq, List.head?_cons] at hu hv
    exact hu ▸ hv ▸ hl
  · intro v hv
    rcases List.mem_append.mp hv with hv | hv
    · exact hnodes v hv
    · exact List.mem_singleton.mp hv ▸ hn

/-- No way is long enough to use the request ids up. -/
theorem Way.le (hseq : image.Sequential) (h : Way image node deliveries) : deliveries ≤ 64 := by
  obtain ⟨stations, hchain, hnodes, -, hle⟩ := h
  have hlen := Image.stations_le hseq.acyclic hnodes hchain
  rw [List.length_append, List.length_singleton] at hlen
  have hmax : image.tables.nodes.length ≤ 64 := Image.nodes_le image
  omega

end Ways

/-- Both executions are the same one, with the same room for a value. -/
structure Paired (room : Nat) (e : Execution) (s : GroupExecution) : Prop where
  executionId : s.executionId = e.executionId
  capacity : e.valueCapacity = room
  flowCapacity : (s.flows 0).valueCapacity = room
  alone : s.Alone

/-- How far both executions are. -/
inductive Phase (image : Image) (e : Execution) (s : GroupExecution) : Prop
  /-- The delivery may be made; its request id is still to be given out. -/
  | ready (state : e.state = .ready) (flow : (s.flows 0).state = .ready)
      (active : (s.flows 0).active = true) (unfinished : s.complete = false)
      (pending : s.pendingOutcome = .none) (request : s.nextRequestId = e.requestId)
      (way : Way image e.currentNode e.requestId.toNat)
  /-- The delivery is prepared or sent. -/
  | out (state : e.state = .prepared ∨ e.state = .sent) (flow : (s.flows 0).state = e.state)
      (active : (s.flows 0).active = true) (unfinished : s.complete = false)
      (pending : s.pendingOutcome = .none) (request : (s.flows 0).requestId = e.requestId)
      (next : s.nextRequestId = e.requestId + 1)
      (way : Way image e.currentNode e.requestId.toNat)
  /-- A result got stuck at a dispatch: no operation goes on from there. -/
  | stuck (state : e.state = .sent) (flow : (s.flows 0).state = .sent)
      (active : (s.flows 0).active = true) (unfinished : s.complete = false)
      (dispatch : (image.node e.currentNode).kind = 3)
  | finished (state : e.state = .complete) (complete : s.complete = true)
      (inactive : (s.flows 0).active = false) (flow : s.pendingFlow = 0)
      (outcome : s.pendingOutcome = e.terminalOutcome)
      (typed : Execution.typedOutcome e.terminalOutcome = true → e.valueSourceType ≠ 0)

/-- **The states of both interpreters agree.** -/
structure Agrees (image : Image) (room : Nat) (e : Execution) (s : GroupExecution) : Prop
    extends Paired room e s where
  value : (s.flows 0).value = e.value
  node : (s.flows 0).currentNode = e.currentNode
  source : (s.flows 0).valueSourceType = e.valueSourceType
  destination : (s.flows 0).valueDestinationType = e.valueDestinationType
  phase : Phase image e s

section Arrival

variable {image : Image} {room : Nat} {e : Execution} {s : GroupExecution}

/-- Behind the landing of a result both executions agree again. -/
theorem arrived_agrees (hseq : image.Sequential) (hpair : Paired room e s)
    (hopen : s.complete = false) (hpending : s.pendingOutcome = .none) (value : Bytes)
    {edge : Edge} {o : Outcome} (ho : o = .success ∨ o.IsFailure)
    (he : edge ∈ image.tables.edges)
    (hstuck : edge.targetKind = 3 →
      e.state = .sent ∧ (s.flows 0).state = .sent ∧ (s.flows 0).active = true)
    (htyped : Execution.typedOutcome o = true → edge.sourceKind = 1 ∨ edge.sourceKind = 2)
    (hready : ∀ l v, landing image value edge = .at l v → l.targetKind = 1 →
      s.nextRequestId = e.requestId ∧ Way image l.targetNode e.requestId.toNat) :
    (e.arrived o (landing image value edge)).1 = (s.arrived 0 o (landing image value edge)).1 ∧
      Agrees image room (e.arrived o (landing image value edge)).2
        (s.arrived 0 o (landing image value edge)).2 := by
  cases hl : landing image value edge with
  | stuck l v r =>
      obtain ⟨hmem, hkind, -⟩ := landing_stuck he hl
      have hdispatch : edge.targetKind = 3 := by
        by_contra hne
        rw [GroupExecution.landing_here image value hne] at hl
        cases hl
      obtain ⟨hstate, hflow, hactive⟩ := hstuck hdispatch
      simp only [Execution.arrived, GroupExecution.arrived]
      refine ⟨trivial, ⟨hpair.executionId, hpair.capacity, ?_, hpair.alone.setFlow _⟩,
        ?_, ?_, ?_, ?_, ?_⟩
      · simpa [GroupExecution.landed] using hpair.flowCapacity
      · simp [GroupExecution.landed, Execution.placed]
      · simp [GroupExecution.landed, Execution.placed]
      · simp [GroupExecution.landed, Execution.placed]
      · simp [GroupExecution.landed, Execution.placed]
      · refine .stuck hstate ?_ ?_ hopen (Image.target_dispatch hmem hkind)
        · simpa [GroupExecution.landed] using hflow
        · simpa [GroupExecution.landed] using hactive
  | «at» l v =>
      by_cases hkind : l.targetKind = 1
      · obtain ⟨hnext, hway⟩ := hready l v hl hkind
        simp only [Execution.arrived, GroupExecution.arrived, hkind, if_true]
        refine ⟨trivial, ⟨hpair.executionId, hpair.capacity, ?_, (hpair.alone.setFlow _).setFlow _⟩,
          ?_, ?_, ?_, ?_, ?_⟩
        · simpa [GroupExecution.landed] using hpair.flowCapacity
        · simp [GroupExecution.landed, Execution.placed]
        · simp [GroupExecution.landed, Execution.placed]
        · simp [GroupExecution.landed, Execution.placed]
        · simp [GroupExecution.landed, Execution.placed]
        · exact .ready rfl (by simp) (by simp) hopen hpending hnext hway
      · simp only [Execution.arrived, GroupExecution.arrived, hkind, if_false]
        have halone : (s.landed 0 l v).Alone := hpair.alone.setFlow _
        obtain ⟨hcomplete, houtcome, hfirst, hreleased, hrest⟩ :=
          GroupExecution.recordTerminal_alone halone hpending ho
        have hid := GroupExecution.recordTerminal_executionId (s.landed 0 l v) 0 o
        refine ⟨trivial, ⟨hid.trans hpair.executionId, hpair.capacity, ?_, hrest⟩, ?_, ?_, ?_, ?_, ?_⟩
        · rw [hreleased]
          simpa [GroupExecution.landed, Flow.released] using hpair.flowCapacity
        · rw [hreleased]; simp [GroupExecution.landed, Execution.placed, Flow.released]
        · rw [hreleased]; simp [GroupExecution.landed, Execution.placed, Flow.released]
        · rw [hreleased]; simp [GroupExecution.landed, Execution.placed, Flow.released]
        · rw [hreleased]; simp [GroupExecution.landed, Execution.placed, Flow.released]
        · refine .finished rfl hcomplete (by rw [hreleased]; rfl) hfirst houtcome fun ht => ?_
          refine Image.source_typed (Image.landing_mem he hl) ?_
          rcases (landing_downstream hseq he hl).2 with rfl | hcase
          · rcases htyped ht with h1 | h2
            · exact .inl h1
            · exact .inr (.inl h2)
          · exact .inr (.inr hcase)

end Arrival

/-! ## The simulation -/

section Steps

variable {image : Image} {room bound : Nat} {e : Execution} {s : GroupExecution}

/-- Both interpreters know the same states of a delivery that is not over. -/
theorem Phase.state_iff (h : Phase image e s) (state : ExecutionState) (hne : state ≠ .complete) :
    ((s.flows 0).active = true ∧ (s.flows 0).state = state) ↔ e.state = state := by
  cases h with
  | ready hstate hflow hactive => rw [hactive, hflow, hstate]; simp
  | out hstate hflow hactive => rw [hactive, hflow]; simp
  | stuck hstate hflow hactive => rw [hactive, hflow, hstate]; simp
  | finished hstate _ hinactive =>
      rw [hinactive, hstate]
      constructor
      · rintro ⟨h, -⟩
        cases h
      · intro h
        exact absurd h.symm hne

theorem findEdge_eq {kind : UInt8} (hk : kind < 5) (node : UInt16) :
    image.groupFindEdge kind node 0 = image.findEdge kind node := by
  simp [Image.groupFindEdge, Image.findEdge, hk]

/-- The frame that a ready execution gives out. -/
def invocation (image : Image) (e : Execution) : Frame :=
  { kind := .invoke
    executionId := e.executionId
    requestId := e.requestId
    appId := (image.node e.currentNode).app
    actionId := (image.node e.currentNode).action
    sourceType := e.valueSourceType
    destinationType := e.valueDestinationType
    payload := e.value }

/-- Nothing happens on either side. -/
theorem refused_simulates (h : Agrees image room e s) {op : DeliveryOp} (answer : Answer)
    (hfirst : e.operate image op = some (answer, e))
    (hsecond : s.operate image bound op = some (answer, s)) :
    ∃ answer e' s', e.operate image op = some (answer, e') ∧
      s.operate image bound op = some (answer, s') ∧ Agrees image room e' s' :=
  ⟨answer, e, s, hfirst, hsecond, h⟩

theorem prepare_simulates (h : Agrees image room e s) :
    ∃ answer e' s', e.operate image .prepare = some (answer, e') ∧
      s.operate image bound .prepare = some (answer, s') ∧ Agrees image room e' s' := by
  have hiff := h.phase.state_iff .ready (by decide)
  by_cases hready : e.state = .ready
  · cases h.phase with
    | out hstate => rcases hstate with hstate | hstate <;> rw [hstate] at hready <;> cases hready
    | stuck hstate => rw [hstate] at hready; cases hready
    | finished hstate => rw [hstate] at hready; cases hready
    | ready hstate hflow hactive hopen hpending hrequest hway =>
        have hnonzero : s.nextRequestId ≠ 0 := by
          obtain ⟨-, -, -, hpos, -⟩ := hway
          intro h0
          rw [← hrequest, h0] at hpos
          exact absurd hpos (by decide)
        by_cases hkind : (image.node e.currentNode).kind = 1
        · -- no other flow is active, so no other delivery is out on the action
          have hfree : firstIndex (s.conflicts image 0) = none := by
            refine firstIndex_none.mpr fun i => ?_
            by_cases hi : i = 0
            · simp [GroupExecution.conflicts, hi]
            · simp [GroupExecution.conflicts, h.alone i hi]
          have hfirst : e.prepare image =
              .ok (invocation image e, { e with state := .prepared }) := by
            rw [Execution.prepare, if_neg (by simp [hready]), if_neg (by simp [hkind])]
            rfl
          have hsecond : s.prepare image 0 = .ok (invocation image e,
              { s with nextRequestId := s.nextRequestId + 1 }.setFlow 0 fun flow =>
                { flow with requestId := s.nextRequestId, state := .prepared }) := by
            rw [GroupExecution.prepare, if_neg (by simp [hopen, hactive, hflow]), if_neg hnonzero,
              if_neg (by simp [h.node, hkind]), hfree]
            simp only [invocation, h.executionId, hrequest, h.node, h.source, h.destination, h.value]
          refine ⟨_, _, _, by rw [Execution.operate, hfirst],
            by rw [GroupExecution.operate, hsecond], ?_⟩
          have halone : ({ s with nextRequestId := s.nextRequestId + 1 } : GroupExecution).Alone :=
            h.alone
          refine ⟨⟨h.executionId, h.capacity, ?_, halone.setFlow _⟩, ?_, ?_, ?_, ?_, ?_⟩
          · simpa using h.flowCapacity
          · simpa using h.value
          · simpa using h.node
          · simpa using h.source
          · simpa using h.destination
          · refine .out (.inl rfl) (by simp) (by simpa using hactive) hopen hpending ?_ ?_ hway
            · simp [hrequest]
            · simp [GroupExecution.setFlow, hrequest]
        · refine refused_simulates h (.of .invalidImage) ?_ ?_
          · rw [Execution.operate, Execution.prepare, if_neg (by simp [hready]),
              if_pos (by simp [hkind])]
          · rw [GroupExecution.operate, GroupExecution.prepare,
              if_neg (by simp [hopen, hactive, hflow]), if_neg hnonzero,
              if_pos (by simp [h.node, hkind])]
  · refine refused_simulates h (.of .invalidState) ?_ ?_
    · rw [Execution.operate, Execution.prepare, if_pos hready]
    · rw [GroupExecution.operate, GroupExecution.prepare, if_pos]
      rw [← hiff] at hready
      by_cases hactive : (s.flows 0).active = true
      · exact .inr (.inr fun hflow => hready ⟨hactive, hflow⟩)
      · exact .inr (.inl hactive)

theorem markSent_simulates (h : Agrees image room e s) :
    ∃ answer e' s', e.operate image .markSent = some (answer, e') ∧
      s.operate image bound .markSent = some (answer, s') ∧ Agrees image room e' s' := by
  have hiff := h.phase.state_iff .prepared (by decide)
  by_cases hprepared : e.state = .prepared
  · obtain ⟨hactive, hflow⟩ := hiff.mpr hprepared
    refine ⟨.of .ok, { e with state := .sent }, s.setFlow 0 fun flow => { flow with state := .sent },
      ?_, ?_, ?_⟩
    · rw [Execution.operate, Execution.markSent, if_neg (by simp [hprepared])]
    · rw [GroupExecution.operate, GroupExecution.markSent, if_neg (by simp [hactive, hflow])]
    · refine ⟨⟨h.executionId, h.capacity, ?_, h.alone.setFlow _⟩, ?_, ?_, ?_, ?_, ?_⟩
      · simpa using h.flowCapacity
      · simpa using h.value
      · simpa using h.node
      · simpa using h.source
      · simpa using h.destination
      · cases h.phase with
        | ready hstate => rw [hstate] at hprepared; cases hprepared
        | stuck hstate => rw [hstate] at hprepared; cases hprepared
        | finished hstate => rw [hstate] at hprepared; cases hprepared
        | out _ _ _ hopen hpending hrequest hnext hway =>
            refine .out (.inr rfl) (by simp) (by simpa using hactive) hopen hpending ?_ hnext hway
            simpa using hrequest
  · refine refused_simulates h (.of .invalidState) ?_ ?_
    · rw [Execution.operate, Execution.markSent, if_pos hprepared]
    · rw [GroupExecution.operate, GroupExecution.markSent, if_pos]
      rw [← hiff, not_and_or] at hprepared
      exact hprepared

/-- A delivery that was not sent or is lost ends both executions, or none. -/
theorem deliveryOutcome_agrees (hseq : image.Sequential) (hbound : 0 < bound)
    (h : Agrees image room e s) {required : ExecutionState} {kind : UInt8} {o : Outcome}
    (hrequired : required = .prepared ∨ required = .sent) (hkind : kind = 3 ∨ kind = 4)
    (ho : o = .notSent ∨ o = .unknown) :
    ∃ r e' s', e.finishDeliveryOutcome image required kind o = (r, e') ∧
      s.deliveryOutcome image bound 0 required kind o = some (r, s') ∧ Agrees image room e' s' := by
  have hiff := h.phase.state_iff required
    (by rcases hrequired with rfl | rfl <;> decide)
  have hkind5 : kind < 5 := by rcases hkind with rfl | rfl <;> decide
  by_cases hstate : e.state = required
  · obtain ⟨hactive, hflow⟩ := hiff.mpr hstate
    rw [Execution.finishDeliveryOutcome, GroupExecution.deliveryOutcome,
      if_neg (by simp [hstate]), if_neg (by simp [hactive, hflow]), findEdge_eq hkind5, h.node]
    cases hfind : image.findEdge kind e.currentNode with
    | none => exact ⟨_, e, s, rfl, rfl, h⟩
    | some edge =>
        obtain ⟨he, hsource, -⟩ := Image.mem_of_findEdge hfind
        have hterminal := Image.notSent_unknown_terminal image he (hsource ▸ hkind)
        have haction := Image.findEdge_action (by rcases hkind with rfl | rfl <;> simp) hfind
        have hnot : edge.targetKind ≠ 3 := by rw [hterminal]; decide
        simp only
        rw [Execution.enterEdge_landing,
          GroupExecution.enterEdge_arrived hseq 0 o he (by simpa using hbound)]
        simp only [GroupExecution.setFlow_flows_self]
        cases h.phase with
        | ready hready => rcases hrequired with rfl | rfl <;> rw [hready] at hstate <;> cases hstate
        | finished hover => rcases hrequired with rfl | rfl <;> rw [hover] at hstate <;> cases hstate
        | stuck _ _ _ _ hdispatch => rw [haction] at hdispatch; cases hdispatch
        | out _ _ _ hopen hpending =>
            have hpair : Paired room e (s.setFlow 0 fun flow => { flow with value := [] }) :=
              ⟨h.executionId, h.capacity, by simpa using h.flowCapacity, h.alone.setFlow _⟩
            have harrived := arrived_agrees hseq hpair hopen hpending []
              (o := o) (.inr (ho.elim (fun h => .inr (.inl h)) fun h => .inr (.inr h))) he
              (fun h3 => absurd h3 hnot)
              (fun ht => by rcases ho with rfl | rfl <;> cases ht)
              (fun l v hl hl1 => by
                rw [GroupExecution.landing_here image [] hnot] at hl
                cases hl
                rw [hterminal] at hl1
                cases hl1)
            exact ⟨_, _, _, rfl, congrArg some (Prod.ext harrived.1.symm rfl), harrived.2⟩
  · rw [Execution.finishDeliveryOutcome, GroupExecution.deliveryOutcome, if_pos hstate, if_pos]
    · exact ⟨_, e, s, rfl, rfl, h⟩
    · rw [← hiff, not_and_or] at hstate
      exact hstate

/-- Behind an accepted result both executions go where its value lands. -/
theorem routed_agrees (hseq : image.Sequential) (hbound : room < bound) (h : Agrees image room e s)
    (e₁ : Execution) (value : Bytes) {edge : Edge} {o : Outcome} {deliveries : Nat}
    (hsent : e.state = .sent) (hactive : (s.flows 0).active = true)
    (hflow : (s.flows 0).state = .sent) (hopen : s.complete = false)
    (hpending : s.pendingOutcome = .none) (ho : o = .success ∨ o.IsFailure)
    (he : edge ∈ image.tables.edges) (hkind : edge.sourceKind = 1 ∨ edge.sourceKind = 2)
    (hway : Way image edge.sourceNode deliveries) (hfit : value.length ≤ room)
    (hid : e₁.executionId = e.executionId) (hcapacity : e₁.valueCapacity = e.valueCapacity)
    (hstate : e₁.state = e.state)
    (hnext : edge.targetKind = 1 ∨ edge.targetKind = 3 →
      s.nextRequestId = e₁.requestId ∧ e₁.requestId.toNat = deliveries + 1) :
    ∃ r e' s', e₁.enterEdge image value edge o = (r, e') ∧
      GroupExecution.enterEdge image bound 0 edge o
        (s.setFlow 0 fun flow => { flow with value }) = some (r, s') ∧ Agrees image room e' s' := by
  have hpair : Paired room e₁ (s.setFlow 0 fun flow => { flow with value }) :=
    ⟨h.executionId.trans hid.symm, hcapacity.trans h.capacity, by simpa using h.flowCapacity,
      h.alone.setFlow _⟩
  have harrived := arrived_agrees hseq hpair hopen hpending value (o := o) ho he
    (fun _ => ⟨hstate.trans hsent, by simpa using hflow, by simpa using hactive⟩) (fun _ => hkind)
    fun l v hl hl1 => ?_
  · rw [Execution.enterEdge_landing, GroupExecution.enterEdge_arrived hseq 0 o he
      (by simpa using Nat.lt_of_le_of_lt hfit hbound)]
    simp only [GroupExecution.setFlow_flows_self]
    exact ⟨_, _, _, rfl, congrArg some (Prod.ext harrived.1.symm rfl), harrived.2⟩
  · -- a landing at an action is reached through an action or a dispatch, never a terminal
    have htarget : edge.targetKind = 1 ∨ edge.targetKind = 3 := by
      rcases hseq.target he with h1 | h2 | h3
      · exact .inl h1
      · rw [GroupExecution.landing_here image value (by rw [h2]; decide)] at hl
        cases hl
        rw [h2] at hl1
        cases hl1
      · exact .inr h3
    obtain ⟨hrequest, hcount⟩ := hnext htarget
    obtain ⟨hpath, -⟩ := landing_downstream hseq he hl
    have hstep := hseq.leads he (hkind.elim .inl fun h2 => .inr (.inl h2))
    refine ⟨hrequest, hcount ▸ hway.next (hseq.target_isNode (Image.landing_mem he hl)) ?_⟩
    exact Relation.TransGen.head' hstep hpath

theorem acceptResult_agrees (hseq : image.Sequential) (hroom : room ≤ Protocol.maxPayloadSize)
    (hbound : room < bound) (h : Agrees image room e s) (result : Frame) :
    ∃ r r' e' s', e.acceptResult image result = (r, e') ∧
      s.acceptResult image bound 0 result = some (r', s') ∧ Answer.of r = Answer.of r' ∧
      Agrees image room e' s' := by
  have hiff := h.phase.state_iff .sent (by decide)
  by_cases hsent : e.state = .sent
  swap
  · rw [Execution.acceptResult, GroupExecution.acceptResult, if_pos hsent, if_pos]
    · exact ⟨_, _, e, s, rfl, rfl, rfl, h⟩
    · rw [← hiff, not_and_or] at hsent
      exact hsent
  obtain ⟨hactive, hflow⟩ := hiff.mpr hsent
  have hopenFlow : ¬ (¬ (s.flows 0).active = true ∨ (s.flows 0).state ≠ .sent) := by
    simp [hactive, hflow]
  have hkind5 : Execution.resultKind result.outcome < 5 := by
    unfold Execution.resultKind
    split <;> decide
  have hkind12 : Execution.resultKind result.outcome = 1 ∨
      Execution.resultKind result.outcome = 2 := by
    unfold Execution.resultKind
    split <;> simp
  rw [Execution.acceptResult, GroupExecution.acceptResult, if_neg (by simp [hsent])]
  simp only
  rw [if_neg hopenFlow, findEdge_eq hkind5, h.node, h.executionId]
  cases h.phase with
  | ready hready => rw [hready] at hsent; cases hsent
  | finished hover => rw [hover] at hsent; cases hsent
  | stuck _ _ _ _ hdispatch =>
      -- a dispatch has no exits of a delivery, whatever the frame answers
      have hnone : image.findEdge (Execution.resultKind result.outcome) e.currentNode = none := by
        cases hfind : image.findEdge (Execution.resultKind result.outcome) e.currentNode with
        | none => rfl
        | some edge =>
            have haction := Image.findEdge_action
              (hkind12.elim .inl fun h2 => .inr (.inl h2)) hfind
            rw [haction] at hdispatch
            cases hdispatch
      rw [hnone]
      refine ⟨.unexpectedResult, .unexpectedResult, e, s, ?_, ?_, rfl, h⟩
      · split <;> rfl
      · split <;> rfl
  | out _ _ _ hopen hpending hrequest hnext hway =>
      rw [hrequest]
      by_cases hanswers : Execution.answers image result e.executionId e.requestId e.currentNode
      swap
      · rw [if_pos (by simpa using hanswers), if_pos (by simpa using hanswers)]
        exact ⟨_, _, e, s, rfl, rfl, rfl, h⟩
      rw [if_neg (by simp [hanswers]), if_neg (by simp [hanswers])]
      cases hfind : image.findEdge (Execution.resultKind result.outcome) e.currentNode with
      | none => exact ⟨_, _, e, s, rfl, rfl, rfl, h⟩
      | some edge =>
          obtain ⟨he, hsource, hnode⟩ := Image.mem_of_findEdge hfind
          simp only
          by_cases htype : result.sourceType = edge.sourceType
          swap
          · rw [if_pos htype, if_pos htype]
            exact ⟨_, _, e, s, rfl, rfl, rfl, h⟩
          have hid : e.requestId ≠ uint64Max := by
            intro hmax
            have hle := hway.le hseq
            rw [hmax] at hle
            exact absurd hle (by decide)
          simp only [htype, ne_eq, not_true, if_false, hid, and_false, h.flowCapacity,
            Execution.copyValue]
          by_cases hbad : room < result.payload.length ∨
              ¬ image.validateValue edge.sourceType result.payload = true
          · -- the sequential interpreter has three reasons to refuse the value
            rw [if_pos hbad]
            by_cases hlong : Protocol.maxPayloadSize < result.payload.length
            · rw [if_pos hlong]
              exact ⟨_, _, e, s, rfl, rfl, rfl, h⟩
            rw [if_neg hlong]
            by_cases hvalid : image.validateValue edge.sourceType result.payload = true
            · have hfit : room < result.payload.length := hbad.resolve_right (not_not.mpr hvalid)
              rw [if_neg (by simp [hvalid]), if_pos (by rw [h.capacity]; exact hfit)]
              exact ⟨_, _, e, s, rfl, rfl, rfl, h⟩
            · rw [if_pos hvalid]
              exact ⟨_, _, e, s, rfl, rfl, rfl, h⟩
          rw [if_neg hbad]
          rw [not_or, not_not] at hbad
          obtain ⟨hfit, hvalid⟩ := hbad
          have hlong : ¬ Protocol.maxPayloadSize < result.payload.length := by omega
          rw [if_neg hlong, if_neg (by simp [hvalid]), if_neg (by rw [h.capacity]; exact hfit)]
          have ho : result.outcome = .success ∨ result.outcome.IsFailure := by
            simp only [Execution.answers, Bool.and_eq_true, Bool.or_eq_true, beq_iff_eq] at hanswers
            exact hanswers.2.imp id .inl
          have hcount : (e.requestId + 1).toNat = e.requestId.toNat + 1 := by
            have hle := hway.le hseq
            rw [UInt64.toNat_add]
            exact Nat.mod_eq_of_lt (by simp; omega)
          simp only
          split
          · rename_i htarget
            obtain ⟨r, e', s', hfirst, hsecond, hagrees⟩ := routed_agrees hseq hbound h
              { e with value := result.payload, requestId := e.requestId + 1 } result.payload
              hsent hactive hflow hopen hpending ho he
              (hsource ▸ hkind12) (hnode ▸ hway) (by omega) rfl rfl rfl
              fun _ => ⟨hnext, hcount⟩
            exact ⟨r, r, e', s', hfirst, hsecond, rfl, hagrees⟩
          · rename_i htarget
            obtain ⟨r, e', s', hfirst, hsecond, hagrees⟩ := routed_agrees hseq hbound h
              { e with value := result.payload } result.payload
              hsent hactive hflow hopen hpending ho he
              (hsource ▸ hkind12) (hnode ▸ hway) (by omega) rfl rfl rfl
              fun h13 => absurd h13 htarget
            exact ⟨r, r, e', s', hfirst, hsecond, rfl, hagrees⟩

/-- **The group interpreter simulates the sequential one**, and the other way round. -/
theorem operate_simulates (hseq : image.Sequential) (hroom : room ≤ Protocol.maxPayloadSize)
    (hbound : room < bound) :
    Simulates (Execution.operate image) (GroupExecution.operate image bound)
      (Agrees image room) := by
  have hpos : 0 < bound := by omega
  intro e s op h
  cases op with
  | prepare => exact prepare_simulates h
  | markSent => exact markSent_simulates h
  | markNotSent =>
      obtain ⟨r, e', s', hfirst, hsecond, hagrees⟩ := deliveryOutcome_agrees hseq
        hpos h (.inl rfl) (.inl rfl) (.inl rfl)
      refine ⟨.of r, e', s', ?_, ?_, hagrees⟩
      · simp only [Execution.operate, Execution.markNotSent, hfirst]
      · simp [GroupExecution.operate, GroupExecution.markNotSent, hsecond]
  | markUnknown =>
      obtain ⟨r, e', s', hfirst, hsecond, hagrees⟩ := deliveryOutcome_agrees hseq
        hpos h (.inr rfl) (.inr rfl) (.inr rfl)
      refine ⟨.of r, e', s', ?_, ?_, hagrees⟩
      · simp only [Execution.operate, Execution.markUnknown, hfirst]
      · simp [GroupExecution.operate, GroupExecution.markUnknown, hsecond]
  | acceptResult result =>
      obtain ⟨r, r', e', s', hfirst, hsecond, hanswer, hagrees⟩ :=
        acceptResult_agrees hseq hroom hbound h result
      refine ⟨.of r, e', s', ?_, ?_, hagrees⟩
      · simp only [Execution.operate, hfirst]
      · simp [GroupExecution.operate, hsecond, hanswer]

/-- Executions that agree have the same result, or none yet. -/
theorem getResult_agrees (h : Agrees image room e s) :
    e.getResult.toOption = s.getResult.toOption := by
  cases h.phase with
  | ready hstate _ _ hopen =>
      simp [Execution.getResult, GroupExecution.getResult, hstate, hopen, Except.toOption]
  | out hstate _ _ hopen =>
      rcases hstate with hstate | hstate <;>
        simp [Execution.getResult, GroupExecution.getResult, hstate, hopen, Except.toOption]
  | stuck hstate _ _ hopen =>
      simp [Execution.getResult, GroupExecution.getResult, hstate, hopen, Except.toOption]
  | finished hstate hcomplete _ hflow houtcome htyped =>
      by_cases ht : Execution.typedOutcome e.terminalOutcome = true
      · simp [Execution.getResult, GroupExecution.getResult, hstate, hcomplete, Except.toOption,
          GroupExecution.resultFrame, hflow, houtcome, h.executionId, h.source, h.destination,
          h.value, ht, htyped ht]
      · simp [Execution.getResult, GroupExecution.getResult, hstate, hcomplete, Except.toOption,
          GroupExecution.resultFrame, houtcome, h.executionId, ht]

end Steps

/-! ## Runs -/

namespace Execution

/-- What a caller sees of a run: nothing if the start fails, otherwise the answers to its
operations and the result. -/
def run (image : Image) (executionId : UInt64) (room : Nat) (inputType : UInt16) (input : Bytes)
    (ops : List DeliveryOp) : Option (Option (List Answer × Option Frame)) :=
  match start image executionId room inputType input with
  | .error _ => some none
  | .ok execution =>
      (answersTo (operate image) ops execution).map fun out =>
        some (out.1, out.2.getResult.toOption)

end Execution

namespace GroupExecution

/-- The same of the group interpreter, on storage for eight values. -/
def run (image : Image) (bound : Nat) (executionId : UInt64) (storage room : Nat)
    (inputType : UInt16) (input : Bytes) (ops : List DeliveryOp) :
    Option (Option (List Answer × Option Frame)) :=
  match start image bound executionId storage room inputType input with
  | none => none
  | some (.error _) => some none
  | some (.ok s) =>
      (answersTo (operate image bound) ops s).map fun out => some (out.1, out.2.getResult.toOption)

end GroupExecution

/-- The interpreters give the same answers to the same operations. -/
def InterpretersAgree (image : Image) (executionId : UInt64) (storage room : Nat)
    (inputType : UInt16) (input : Bytes) : Prop :=
  ∀ bound, room < bound → ∀ ops,
    GroupExecution.run image bound executionId storage room inputType input ops =
      Execution.run image executionId room inputType input ops

section Start

variable {image : Image} {executionId : UInt64} {storage room bound : Nat} {input : Bytes}

/-- An accepted image has one edge that the input takes. -/
theorem exists_root (image : Image) : ∃ root, image.findEdge 0 0 = some root := by
  obtain ⟨classes, regions, h⟩ := image.checked
  have hedges := h.edges
  simp only [Image.validateEdges, bind_ok, require_ok] at hedges
  obtain ⟨⟨⟩, -, hone⟩ := hedges
  obtain ⟨root, hroot, hk⟩ := List.countP_pos_iff.mp (Nat.lt_of_lt_of_eq Nat.one_pos hone.symm)
  rw [beq_iff_eq] at hk
  have hnode : root.sourceNode = 0 := by
    cases h.source hroot with
    | input _ node => exact node
    | result kind | undelivered kind => rcases kind with kind | kind <;> rw [kind] at hk <;> cases hk
    | case kind | branch kind | field kind | item kind | collected kind => rw [kind] at hk; cases hk
  cases hfind : image.findEdge 0 0 with
  | some root => exact ⟨root, rfl⟩
  | none =>
      have hno := List.find?_eq_none.mp hfind root hroot
      simp [hk, hnode] at hno

theorem start_eq (hid : executionId ≠ 0) (hroom : room ≤ Protocol.maxPayloadSize)
    (hfit : input.length ≤ room)
    (hcanonical : image.validateValue image.tables.header.inputType input = true) {root : Edge}
    (hroot : image.findEdge 0 0 = some root) :
    Execution.start image executionId room image.tables.header.inputType input =
      if root.targetKind ≠ 1 then .error .invalidImage
      else .ok { (Execution.placed { valueCapacity := room, executionId } root input) with
        state := .ready } := by
  obtain ⟨classes, regions, h⟩ := image.checked
  have htype : image.tables.header.inputType ≠ 0 := by
    have hcounts := h.counts
    simp only [Image.validateCounts, require_ok] at hcounts
    exact hcounts.1
  rw [Execution.start, if_neg (by simp [hid, htype]; omega), if_neg (by simp [hcanonical])]
  simp only [Execution.copyValue, Nat.not_lt.mpr hfit, if_false, hroot]
  split
  · rfl
  · rename_i hk
    rw [not_not] at hk
    have hnot : root.targetKind ≠ 3 := by rw [hk]; decide
    have hland := GroupExecution.landing_here image input hnot
    rw [Execution.enterEdge_landing, hland]
    simp only [Execution.arrived, hk, if_true]
    rfl

theorem groupStart_eq (hseq : image.Sequential) (hid : executionId ≠ 0) (hpos : 0 < room)
    (hroom : room ≤ Protocol.maxPayloadSize) (hstorage : room ≤ storage / maxFlows)
    (hbound : room < bound) (hfit : input.length ≤ room)
    (hcanonical : image.validateValue image.tables.header.inputType input = true) {root : Edge}
    (hroot : image.findEdge 0 0 = some root) :
    GroupExecution.start image bound executionId storage room image.tables.header.inputType input =
      match ((GroupExecution.fresh image executionId room).setFlow 0 fun flow =>
        { flow with value := input }).arrived 0 .none (landing image input root) with
      | (.ok, s) => some (.ok s)
      | (failed, _) => some (.error failed) := by
  obtain ⟨he, -, -⟩ := Image.mem_of_findEdge hroot
  rw [GroupExecution.start, if_neg (by simp [hid]; omega), if_neg (by simp [hcanonical]),
    findEdge_eq (by decide), hroot]
  simp only
  rw [GroupExecution.enterEdge_arrived hseq 0 .none he
    (by simpa using Nat.lt_of_le_of_lt hfit hbound)]
  simp only [GroupExecution.setFlow_flows_self]
  split <;> simp_all

/-- Both interpreters set the first delivery up alike. -/
theorem start_agrees (image : Image) (executionId : UInt64) (room : Nat) (input : Bytes)
    {root : Edge} (hseq : image.Sequential) (he : root ∈ image.tables.edges)
    (hk : root.targetKind = 1) :
    Agrees image room
      { (Execution.placed { valueCapacity := room, executionId } root input) with state := .ready }
      (((GroupExecution.fresh image executionId room).setFlow 0 fun flow =>
        { flow with value := input }).arrived 0 .none (.at root input)).2 := by
  obtain ⟨deadlineMs, deadlineRegions, hfresh⟩ :=
    GroupExecution.fresh_eq image executionId room
  have halone : (GroupExecution.fresh image executionId room).Alone := by
    intro i hi
    simp only [hfresh, Function.update_of_ne hi]
  have hflow : (GroupExecution.fresh image executionId room).flows 0 =
      { valueCapacity := room, active := true } := by
    simp only [hfresh, Function.update_self]
  have hid : (GroupExecution.fresh image executionId room).executionId = executionId := by
    rw [hfresh]
  have hrequest : (GroupExecution.fresh image executionId room).nextRequestId = 1 := by
    rw [hfresh]
  simp only [GroupExecution.arrived, hk, if_true]
  refine ⟨⟨hid, rfl, ?_, ((halone.setFlow _).setFlow _).setFlow _⟩, ?_, ?_, ?_, ?_, ?_⟩
  · simp [GroupExecution.landed, hflow]
  · simp [GroupExecution.landed, Execution.placed]
  · simp [GroupExecution.landed, Execution.placed]
  · simp [GroupExecution.landed, Execution.placed]
  · simp [GroupExecution.landed, Execution.placed]
  · exact .ready rfl (by simp) (by simp) (GroupExecution.fresh_complete image executionId room)
      (GroupExecution.fresh_pendingOutcome image executionId room) hrequest
      (Way.first (hseq.target_isNode he))

end Start

/--
The input can only be started by both interpreters or by none: the first edge
enters an action, or the input does not fit a value buffer, or it gets stuck at a
dispatch.
-/
def StartsAlike (image : Image) (room : Nat) (input : Bytes) : Prop :=
  ∀ root, image.findEdge 0 0 = some root →
    root.targetKind = 1 ∨ room < input.length ∨
      ∃ edge value r, landing image input root = .stuck edge value r

/--
**The interpreters agree exactly when they start alike.** The sequential
interpreter refuses a first edge into a dispatch or a terminal, which the group
interpreter follows.
-/
theorem interpreters_agree_iff {image : Image} (hseq : image.Sequential) {executionId : UInt64}
    (hid : executionId ≠ 0) {storage room : Nat} (hpos : 0 < room)
    (hroom : room ≤ Protocol.maxPayloadSize) (hstorage : room ≤ storage / maxFlows) {input : Bytes}
    (hcanonical : image.validateValue image.tables.header.inputType input = true) :
    InterpretersAgree image executionId storage room image.tables.header.inputType input ↔
      StartsAlike image room input := by
  obtain ⟨root, hroot⟩ := exists_root image
  obtain ⟨he, -, -⟩ := Image.mem_of_findEdge hroot
  have halike : StartsAlike image room input ↔ (root.targetKind = 1 ∨ room < input.length ∨
      ∃ edge value r, landing image input root = .stuck edge value r) := by
    constructor
    · intro h
      exact h root hroot
    · intro h root' hroot'
      rw [hroot] at hroot'
      exact Option.some.inj hroot' ▸ h
  rw [halike]
  by_cases hfit : room < input.length
  · -- neither buffer takes the input
    refine iff_of_true (fun bound _ ops => ?_) (.inr (.inl hfit))
    have hgroup : GroupExecution.start image bound executionId storage room
        image.tables.header.inputType input = some (.error .invalidArgument) := by
      rw [GroupExecution.start, if_pos (.inr (.inr (.inr (.inr hfit))))]
    have hfirst : ∃ r, Execution.start image executionId room image.tables.header.inputType
        input = .error r := by
      unfold Execution.start
      split
      · exact ⟨_, rfl⟩
      · simp [hcanonical, Execution.copyValue, hfit]
    obtain ⟨r, hfirst⟩ := hfirst
    rw [GroupExecution.run, Execution.run, hgroup, hfirst]
  have hfit' := Nat.not_lt.mp hfit
  have hfirst := start_eq hid hroom hfit' hcanonical hroot
  have hsecond := fun bound (hbound : room < bound) =>
    groupStart_eq hseq hid hpos hroom hstorage hbound hfit' hcanonical hroot
  by_cases hk : root.targetKind = 1
  · refine iff_of_true (fun bound hbound ops => ?_) (.inl hk)
    have hnot : root.targetKind ≠ 3 := by rw [hk]; decide
    have hland := GroupExecution.landing_here image input hnot
    have hagrees := start_agrees image executionId room input hseq he hk
    obtain ⟨answers, e', s', hanswers, hanswers', hend⟩ :=
      (operate_simulates hseq hroom hbound).answersTo ops hagrees
    rw [if_neg (by simp [hk])] at hfirst
    have hsecond := hsecond bound hbound
    rw [hland] at hsecond
    simp only [GroupExecution.arrived, hk, if_true] at hsecond hanswers'
    rw [GroupExecution.run, Execution.run, hfirst, hsecond]
    simp only [hanswers, hanswers', Option.map_some, getResult_agrees hend]
  · rw [if_pos hk] at hfirst
    have hnone : ∀ ops, Execution.run image executionId room image.tables.header.inputType input
        ops = some none := by
      intro ops
      rw [Execution.run, hfirst]
    cases hl : landing image input root with
    | stuck edge value r =>
        refine iff_of_true (fun bound hbound ops => ?_) (.inr (.inr ⟨edge, value, r, rfl⟩))
        have hbad := (landing_stuck he hl).2.2
        have hsecond := hsecond bound hbound
        rw [hl] at hsecond
        rw [hnone, GroupExecution.run, hsecond]
        cases r <;> first | exact absurd rfl hbad | rfl
    | «at» edge value =>
        refine iff_of_false (fun hagree => ?_) (by simp [hk, hfit])
        have hsecond := hsecond (room + 1) (by omega)
        rw [hl] at hsecond
        have hrun := hagree (room + 1) (by omega) []
        rw [hnone, GroupExecution.run, hsecond] at hrun
        simp only [GroupExecution.arrived] at hrun
        split_ifs at hrun <;> cases hrun

/-! ## One action, in front of it a dispatch -/

/-- The input goes to the only action. -/
def oneActionLayout : Image.Layout where
  errors := [1]
  contracts := [.of 1]
  types := [Image.boolType]
  nodes := [.action1 1, .terminal 1, .terminal 2, .terminal 3, .terminal 4]
  edges := [.wire 0 0 1 1, .wire 1 1 2 2, .wire 2 1 2 3, .bare 3 1 4, .bare 4 1 5]

set_option maxRecDepth 20000 in
theorem oneAction_valid : (Image.imageValidate oneActionLayout.encode).toOption.isSome = true := by
  decide +kernel

def oneAction : Image := oneActionLayout.image oneAction_valid

set_option maxRecDepth 20000 in
/-- The interpreters agree on the only action. -/
theorem interpreters_agree_oneAction : InterpretersAgree oneAction 1 128 16 1 [1] := by
  refine (interpreters_agree_iff (by decide +kernel) (by decide) (by decide)
    (by decide) (by decide) (by decide +kernel)).mpr fun root hroot => .inl ?_
  have hfirst : oneAction.findEdge 0 0 = some (.wire 0 0 1 1) := by decide +kernel
  rw [hfirst] at hroot
  obtain rfl := Option.some.inj hroot
  rfl

/-- The input is a variant of one case; the dispatch unwraps it for the action. -/
def dispatchRootLayout : Image.Layout where
  inputType := 2
  errors := [1]
  contracts := [.of 1]
  types := [Image.boolType, (2, [8, 0, 1, 0, 0, 0, 0, 0, 3, 0, 0, 0, 0, 0, 0, 0])]
  nodes := [⟨3, 0, 2, 0, 0⟩, .action1 1, .terminal 1, .terminal 2, .terminal 3, .terminal 4]
  edges := [{ Image.Edge.wire 0 0 3 1 with sourceType := 2, targetType := 2 }, .wire 5 1 1 2,
    .wire 1 2 2 3, .wire 2 2 2 4, .bare 3 2 5, .bare 4 2 6]

set_option maxRecDepth 20000 in
theorem dispatchRoot_valid :
    (Image.imageValidate dispatchRootLayout.encode).toOption.isSome = true := by
  decide +kernel

def dispatchRoot : Image := dispatchRootLayout.image dispatchRoot_valid

set_option maxRecDepth 20000 in
/-- The group interpreter starts behind the dispatch, the sequential one refuses. -/
theorem interpreters_differ_dispatchRoot :
    ¬ ∀ (image : Image) (executionId : UInt64) (storage room : Nat) (input : Bytes),
      image.Sequential → executionId ≠ 0 → 0 < room → room ≤ Protocol.maxPayloadSize →
      room ≤ storage / maxFlows →
      image.validateValue image.tables.header.inputType input = true →
      InterpretersAgree image executionId storage room image.tables.header.inputType input := by
  intro h
  have hagree := h dispatchRoot 1 128 16 [0, 0, 0, 0, 0, 0, 0, 0, 1] (by decide +kernel) (by decide)
    (by decide) (by decide) (by decide) (by decide +kernel) 20 (by decide) []
  revert hagree
  decide +kernel

end Hermas
