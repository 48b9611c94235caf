import Hermas.Base.Reach
import Hermas.Runtime.GroupRoute

/-!
# Runs of a group execution

The calls of the group interpreter as the steps of a system. A caller may make
them in any order, on any flow, with any frame, and may go on after a call that
failed, from whatever that call left behind.
-/

namespace Hermas

open Image (Edge Node EachRegion)

/-- A call on a group execution. -/
inductive GroupOp where
  | prepare (i : FlowIndex)
  | markSent (i : FlowIndex)
  | markNotSent (i : FlowIndex)
  | markUnknown (i : FlowIndex)
  | acceptResult (i : FlowIndex) (result : Frame)
  | expireRegion (regionId : UInt8)

namespace GroupExecution

variable (image : Image)

/-- What a call leaves behind. -/
def Performs (s : GroupExecution) (op : GroupOp) (s' : GroupExecution) : Prop :=
  match op with
  | .prepare i => s' = ((s.prepare image i).toOption.map Prod.snd).getD s
  | .markSent i => s' = (s.markSent i).toOption.getD s
  | .markNotSent i => ∃ bound r, s.markNotSent image bound i = some (r, s')
  | .markUnknown i => ∃ bound r, s.markUnknown image bound i = some (r, s')
  | .acceptResult i result => ∃ bound r, s.acceptResult image bound i result = some (r, s')
  | .expireRegion regionId => ∃ bound r, s.expireRegion image bound regionId = some (r, s')

/-- A run starts with a start that succeeded. -/
def Starts (s : GroupExecution) : Prop :=
  ∃ bound executionId capacity stride inputType input,
    start image bound executionId capacity stride inputType input = some (.ok s)

/-- The group interpreter on an image. -/
def system : System GroupExecution GroupOp where
  Init := Starts image
  Step := Performs image

/-- A call with a bound on its recursion. -/
def perform (bound : Nat) (s : GroupExecution) : GroupOp → Option GroupExecution
  | .prepare i => some (((s.prepare image i).toOption.map Prod.snd).getD s)
  | .markSent i => some ((s.markSent i).toOption.getD s)
  | .markNotSent i => (s.markNotSent image bound i).map Prod.snd
  | .markUnknown i => (s.markUnknown image bound i).map Prod.snd
  | .acceptResult i result => (s.acceptResult image bound i result).map Prod.snd
  | .expireRegion regionId => (s.expireRegion image bound regionId).map Prod.snd

/-- Calls in a row, as long as each meets a check. -/
def performAll (check : GroupExecution → GroupOp → Bool) (bound : Nat) :
    List GroupOp → GroupExecution → Option GroupExecution
  | [], s => some s
  | op :: ops, s =>
      if check s op then (s.perform image bound op).bind (performAll check bound ops) else none

theorem performs_of_perform {bound : Nat} {s s' : GroupExecution} {op : GroupOp}
    (h : s.perform image bound op = some s') : Performs image s op s' := by
  cases op with
  | prepare i => exact (Option.some.inj h).symm
  | markSent i => exact (Option.some.inj h).symm
  | markNotSent i | markUnknown i | acceptResult i result | expireRegion regionId =>
      obtain ⟨⟨r, t⟩, hcall, rfl⟩ := Option.map_eq_some_iff.mp h
      exact ⟨bound, r, hcall⟩

/-- Calls that all meet the check make a run that meets what the check implies. -/
theorem reachWhere_performAll {S : System GroupExecution GroupOp}
    {C : GroupExecution → GroupOp → Prop} {check : GroupExecution → GroupOp → Bool}
    (hstep : S.Step = Performs image) (hcheck : ∀ s op, check s op = true → C s op)
    {bound : Nat} :
    ∀ {ops : List GroupOp} {s s' : GroupExecution}, S.ReachWhere C s →
      performAll image check bound ops s = some s' → S.ReachWhere C s' := by
  intro ops
  induction ops with
  | nil => intro s s' hs h; exact Option.some.inj h ▸ hs
  | cons op ops ih =>
      intro s s' hs h
      unfold performAll at h
      split at h
      · rename_i hc
        obtain ⟨t, ht, hrest⟩ := Option.bind_eq_some_iff.mp h
        exact ih (.step hs (hcheck s op hc) (hstep ▸ performs_of_perform image ht)) hrest
      · cases h

/-- A start and calls in a row. -/
def runFrom (check : GroupExecution → GroupOp → Bool) (bound : Nat) (ops : List GroupOp)
    (executionId : UInt64) (capacity stride : Nat) (inputType : UInt16) (input : Bytes) :
    Option GroupExecution :=
  match start image bound executionId capacity stride inputType input with
  | some (.ok s) => performAll image check bound ops s
  | _ => none

theorem reachWhere_runFrom {C : GroupExecution → GroupOp → Prop}
    {check : GroupExecution → GroupOp → Bool} (hcheck : ∀ s op, check s op = true → C s op)
    {bound : Nat} {ops : List GroupOp} {executionId : UInt64} {capacity stride : Nat}
    {inputType : UInt16} {input : Bytes} {s : GroupExecution}
    (h : runFrom image check bound ops executionId capacity stride inputType input = some s) :
    (system image).ReachWhere C s := by
  unfold runFrom at h
  split at h
  · rename_i s₀ hstart
    exact reachWhere_performAll image rfl hcheck
      (.init ⟨bound, executionId, capacity, stride, inputType, input, hstart⟩) h
  · cases h

/-! ## The execution that a start sets up -/

/-- Reading the regions changes the two lists of regions only. -/
theorem foldl_readRegions (regions : List Image.Region) (s : GroupExecution) :
    ∃ deadlines, regions.foldl readRegions s = { s with
      deadlineRegions := deadlines
      eachRegions := s.eachRegions ++ (regions.filter (·.readU8 0 == 2)).map EachRegion.read } := by
  induction regions generalizing s with
  | nil => exact ⟨s.deadlineRegions, by simp⟩
  | cons region regions ih =>
      obtain ⟨deadlines, hrest⟩ := ih (s.readRegions region)
      refine ⟨deadlines, ?_⟩
      rw [List.foldl_cons, hrest]
      unfold readRegions
      by_cases h1 : region.readU8 0 = 1
      · simp [h1]
      by_cases h2 : region.readU8 0 = 2
      · simp [h2]
      · simp [h2, h1]

theorem fresh_eq (executionId : UInt64) (stride : Nat) :
    ∃ deadlineMs deadlineRegions, fresh image executionId stride = {
      executionId
      valueStride := stride
      deadlineMs
      deadlineRegions
      eachRegions := image.eachRegions
      flows := Function.update (fun _ => { valueCapacity := stride }) 0
        { valueCapacity := stride, active := true } } := by
  unfold fresh
  obtain ⟨deadlines, hfold⟩ := foldl_readRegions image.tables.regions
    { executionId
      valueStride := stride
      flows := Function.update (fun _ => { valueCapacity := stride }) 0
        { valueCapacity := stride, active := true } }
  rw [hfold]
  exact ⟨_, _, rfl⟩

@[simp] theorem fresh_pendingOutcome (executionId : UInt64) (stride : Nat) :
    (fresh image executionId stride).pendingOutcome = .none := by
  obtain ⟨_, _, h⟩ := fresh_eq image executionId stride
  rw [h]

@[simp] theorem fresh_complete (executionId : UInt64) (stride : Nat) :
    (fresh image executionId stride).complete = false := by
  obtain ⟨_, _, h⟩ := fresh_eq image executionId stride
  rw [h]

@[simp] theorem fresh_entered (executionId : UInt64) (stride : Nat) :
    (fresh image executionId stride).entered = [] := by
  obtain ⟨_, _, h⟩ := fresh_eq image executionId stride
  rw [h]

/-! ## States of a run -/

/-- A failure outcome has been recorded. -/
def Failed (s : GroupExecution) : Prop := s.pendingOutcome.IsFailure

instance (s : GroupExecution) : Decidable s.Failed := inferInstanceAs (Decidable (_ ∨ _))

/-- The delivery of the flow is out. -/
def Sent (s : GroupExecution) (i : FlowIndex) : Prop :=
  (s.flows i).active = true ∧ (s.flows i).state = .sent

instance (s : GroupExecution) (i : FlowIndex) : Decidable (s.Sent i) :=
  inferInstanceAs (Decidable (_ ∧ _))

theorem hasSent_iff (s : GroupExecution) : s.hasSent = true ↔ ∃ i, s.Sent i := by
  simp [hasSent, Sent]

theorem hasActive_iff (s : GroupExecution) :
    s.hasActive = true ↔ ∃ i, (s.flows i).active = true := by
  simp [hasActive]

theorem failed_iff (s : GroupExecution) : s.Failed ↔
    s.pendingOutcome = .appError ∨ s.pendingOutcome = .notSent ∨ s.pendingOutcome = .unknown :=
  Iff.rfl

/-! ## What recording an outcome leaves out -/

theorem recordTerminal_sent (s : GroupExecution) {i j : FlowIndex} {o : Outcome}
    (hj : j ≠ i) (h : s.Sent j) : (s.recordTerminal i o).flows j = s.flows j := by
  rw [recordTerminal_flows, if_neg]
  rintro (h' | ⟨-, -, h'⟩)
  · exact hj h'
  · exact h' h.2

/-- A failure leaves nothing active but what is sent. -/
theorem recordTerminal_active {s : GroupExecution} {i j : FlowIndex} {o : Outcome}
    (ho : o ≠ .success) (h : ((s.recordTerminal i o).flows j).active = true) :
    j ≠ i ∧ s.Sent j ∧ (s.recordTerminal i o).flows j = s.flows j := by
  rw [recordTerminal_flows] at h ⊢
  split_ifs at h ⊢ with hc
  · simp [Flow.released] at h
  · rw [not_or] at hc
    refine ⟨hc.1, ⟨h, ?_⟩, rfl⟩
    by_contra hs
    exact hc.2 ⟨ho, h, hs⟩

/-- An execution that is completed by the end of a flow has no delivery out. -/
theorem recordTerminal_complete {s : GroupExecution} {i : FlowIndex} {o : Outcome}
    (h : (s.recordTerminal i o).complete = true) :
    s.complete = true ∨ ∀ k, ¬ (s.recordTerminal i o).Sent k := by
  have hmaybe : ∀ t : GroupExecution, t.maybeComplete.complete = true →
      t.complete = true ∨ ∀ k, ¬ t.maybeComplete.Sent k := by
    intro t ht
    unfold maybeComplete at ht ⊢
    split at ht
    · rename_i hdone
      rw [if_pos hdone]
      exact .inr fun k hsent => hdone.2 ((hasActive_iff t).mpr ⟨k, hsent.1⟩)
    rename_i hopen
    split at ht
    · rename_i hdone
      rw [if_neg hopen, if_pos hdone]
      exact .inr fun k hsent => hdone.2.2 ((hasSent_iff t).mpr ⟨k, hsent⟩)
    · exact .inl ht
  have hsame : (if o ≠ .success then (s.recordOutcome i o).cutOff
      else s.recordOutcome i o).complete = s.complete := by
    split_ifs <;> simp only [recordOutcome, cutOff, setFlow] <;> split_ifs <;> rfl
  unfold recordTerminal at h ⊢
  exact (hmaybe _ h).imp_left fun hbefore => hsame ▸ hbefore

/-! ## What a cascade cannot change -/

/-- A delivery that is out stays out, unless a cascade starts from it or it sits on the
coordinator's slot. -/
theorem stable_sent (j : FlowIndex) (flow : Flow) (ha : flow.active = true)
    (hst : flow.state = .sent) :
    Stable (· ≠ j) fun s => s.flows j = flow ∧ s.eachCoordinatorFlow ≠ j where
  free := by
    rintro s i ⟨hf, -⟩ hi rfl
    rw [hf, ha] at hi
    exact Bool.noConfusion hi
  waiting := by
    rintro s i ⟨hf, -⟩ - hi rfl
    rw [hf, hst] at hi
    cases hi
  coordinator := fun s h => h.2
  setFlow := fun s i f h hi => ⟨by rw [setFlow_flows_of_ne _ _ hi.symm]; exact h.1, h.2⟩
  recordTerminal := fun s i o h hi _ => by
    refine ⟨?_, by rw [recordTerminal_coordinator]; exact h.2⟩
    rw [recordTerminal_sent s hi.symm ⟨by rw [h.1]; exact ha, by rw [h.1]; exact hst⟩]
    exact h.1
  maybeComplete := fun s h => by simpa using h
  sameButEach := fun s t h hst hc => ⟨by rw [hst.flows]; exact h.1, hc⟩

/-- Cascades route no failure, so they record none. -/
theorem stable_notFailed : Stable (fun _ => True)
    fun s => s.pendingOutcome = .none ∨ s.pendingOutcome = .success where
  free := fun _ _ _ _ => trivial
  waiting := fun _ _ _ _ _ => trivial
  coordinator := fun _ _ => trivial
  setFlow := fun _ _ _ h _ => h
  recordTerminal := fun s i o h _ ho => by
    rw [recordTerminal_pendingOutcome]
    split_ifs
    · exact ho
    · exact h
  maybeComplete := fun s h => by simpa using h
  sameButEach := fun s t h hst _ => by rw [hst.pendingOutcome]; exact h

/-- A recorded failure outranks everything a cascade records. -/
theorem stable_failed {o : Outcome} (ho : o.IsFailure) : Stable (fun _ => True)
    fun s => s.pendingOutcome = o where
  free := fun _ _ _ _ => trivial
  waiting := fun _ _ _ _ _ => trivial
  coordinator := fun _ _ => trivial
  setFlow := fun _ _ _ h _ => h
  recordTerminal := fun s i o' h _ ho' => by
    rw [recordTerminal_pendingOutcome, if_neg]
    · exact h
    · rw [h]
      rcases ho with rfl | rfl | rfl <;> rcases ho' with rfl | rfl <;> decide
  maybeComplete := fun s h => by simpa using h
  sameButEach := fun s t h hst _ => by rw [hst.pendingOutcome]; exact h

theorem not_failed_iff (s : GroupExecution) (h : s.pendingOutcome ≠ .protocolError) :
    ¬ s.Failed ↔ s.pendingOutcome = .none ∨ s.pendingOutcome = .success := by
  unfold Failed Outcome.IsFailure
  cases hp : s.pendingOutcome <;> simp_all

/-! ## What the calls do -/

/-- Where a result of a flow comes to rest, as the image alone says. -/
def resultLanding (s : GroupExecution) (i : FlowIndex) (result : Frame) : Option Landing :=
  (image.groupFindEdge (Execution.resultKind result.outcome) (s.flows i).currentNode 0).map
    (landing image result.payload)

/-- A flow ends with an outcome; its value and its place in the image may have changed before. -/
def Closes (s : GroupExecution) (i : FlowIndex) (o : Outcome) (s' : GroupExecution) : Prop :=
  ∃ f : Flow → Flow, (∀ flow, (f flow).active = flow.active) ∧
    (∀ flow, (f flow).state = flow.state) ∧ s' = (s.setFlow i f).recordTerminal i o

/-- The flow gets another value or another place in the image, and nothing else. -/
def Relocates (f : Flow → Flow) : Prop :=
  ∀ flow, ∃ value sourceType destinationType node, f flow = { flow with
    value
    valueSourceType := sourceType
    valueDestinationType := destinationType
    currentNode := node }

/-- A flow ends with an outcome, at another place or where it stood. -/
def Retires (s : GroupExecution) (i : FlowIndex) (o : Outcome) (s' : GroupExecution) : Prop :=
  ∃ f, Relocates f ∧ s' = (s.setFlow i f).recordTerminal i o

variable {image : Image} {bound : Nat} {s s' : GroupExecution} {i : FlowIndex}
variable {r : RuntimeResult} {o : Outcome}

theorem Retires.closes (h : s.Retires i o s') : s.Closes i o s' := by
  obtain ⟨f, hf, rfl⟩ := h
  refine ⟨f, fun flow => ?_, fun flow => ?_, rfl⟩
  · obtain ⟨_, _, _, _, heq⟩ := hf flow
    rw [heq]
  · obtain ⟨_, _, _, _, heq⟩ := hf flow
    rw [heq]

theorem prepare_ok {frame : Frame} (h : s.prepare image i = .ok (frame, s')) :
    s.complete = false ∧ (s.flows i).active = true ∧ (s.flows i).state = .ready ∧
      (image.node (s.flows i).currentNode).kind = 1 ∧
      s' = { s with nextRequestId := s.nextRequestId + 1 }.setFlow i fun flow =>
        { flow with requestId := s.nextRequestId, state := .prepared } := by
  unfold prepare at h
  simp only at h
  split at h
  · cases h
  split at h
  · cases h
  split at h
  · cases h
  split at h
  · split at h <;> cases h
  · rename_i hopen _ hkind _ _
    obtain ⟨-, rfl⟩ := Prod.mk.inj (Except.ok.inj h)
    simp only [not_or, Bool.not_eq_true, not_not] at hopen hkind
    exact ⟨hopen.1, by simpa using hopen.2.1, hopen.2.2, hkind, rfl⟩

theorem markSent_ok (h : s.markSent i = .ok s') :
    (s.flows i).active = true ∧ (s.flows i).state = .prepared ∧
      s' = s.setFlow i fun flow => { flow with state := .sent } := by
  unfold markSent at h
  split at h
  · cases h
  · rename_i hopen
    simp only [not_or, not_not] at hopen
    exact ⟨hopen.1, hopen.2, (Except.ok.inj h).symm⟩

theorem performs_prepare (h : Performs image s (.prepare i) s') :
    s' = s ∨ ∃ frame, s.prepare image i = .ok (frame, s') := by
  cases hp : s.prepare image i with
  | error e => simp only [Performs, hp, Except.toOption] at h; exact .inl h
  | ok p =>
      simp only [Performs, hp, Except.toOption] at h
      exact .inr ⟨p.1, by rw [h]; rfl⟩

theorem performs_markSent (h : Performs image s (.markSent i) s') :
    s' = s ∨ s.markSent i = .ok s' := by
  cases hm : s.markSent i with
  | error e => simp only [Performs, hm, Except.toOption] at h; exact .inl h
  | ok t => simp only [Performs, hm, Except.toOption] at h; exact .inr (by rw [h]; rfl)

/-- A flow that ends takes no other flow along that is out, and releases no flow that is sent. -/
theorem Closes.flows (h : s.Closes i o s') (k : FlowIndex) :
    (s'.flows k).active = false ∨ (k ≠ i ∧ s'.flows k = s.flows k) := by
  obtain ⟨f, -, -, rfl⟩ := h
  rw [recordTerminal_flows]
  split_ifs with hreleased
  · exact .inl rfl
  · rw [not_or] at hreleased
    exact .inr ⟨hreleased.1, setFlow_flows_of_ne s f hreleased.1⟩

theorem deliveryOutcome_retires {required : ExecutionState} {kind : UInt8}
    (hkind : kind = 3 ∨ kind = 4)
    (h : deliveryOutcome image bound s i required kind o = some (r, s')) :
    (r ≠ .ok ∧ s' = s) ∨
      (r = .ok ∧ (s.flows i).active = true ∧ (s.flows i).state = required ∧ s.Retires i o s') := by
  unfold deliveryOutcome at h
  split at h
  · obtain ⟨rfl, rfl⟩ := Prod.mk.inj (Option.some.inj h)
    exact .inl ⟨by decide, rfl⟩
  · rename_i hopen
    simp only [not_or, not_not] at hopen
    cases hedge : image.groupFindEdge kind (s.flows i).currentNode 0 with
    | none =>
        rw [hedge] at h
        obtain ⟨rfl, rfl⟩ := Prod.mk.inj (Option.some.inj h)
        exact .inl ⟨by decide, rfl⟩
    | some edge =>
        rw [hedge] at h
        obtain ⟨hmem, hsource, -⟩ := Image.mem_of_groupFindEdge hedge
        have hterminal := Image.notSent_unknown_terminal image hmem (hsource ▸ hkind)
        obtain ⟨rfl, rfl⟩ := enterEdge_terminal hterminal h
        refine .inr ⟨rfl, hopen.1, hopen.2, fun flow => { flow with
          value := []
          valueSourceType := edge.sourceType
          valueDestinationType := edge.targetType
          currentNode := edge.targetNode }, fun flow => ⟨_, _, _, _, rfl⟩, ?_⟩
        simp only [aim, setFlow_setFlow]

/-- A delivery that fails changes nothing, or its flow ends. -/
theorem deliveryOutcome_cases {required : ExecutionState} {kind : UInt8}
    (hkind : kind = 3 ∨ kind = 4)
    (h : deliveryOutcome image bound s i required kind o = some (r, s')) :
    (r ≠ .ok ∧ s' = s) ∨
      (r = .ok ∧ (s.flows i).active = true ∧ (s.flows i).state = required ∧ s.Closes i o s') :=
  (deliveryOutcome_retires hkind h).imp_right fun ⟨hr, hactive, hstate, hretires⟩ =>
    ⟨hr, hactive, hstate, hretires.closes⟩

/-- A delivery that ends leaves the deliveries that are still out as they are. -/
theorem deliveryOutcome_out {required : ExecutionState} {kind : UInt8} (hkind : kind = 3 ∨ kind = 4)
    (h : deliveryOutcome image bound s i required kind o = some (.ok, s')) {k : FlowIndex}
    (hout : (s'.flows k).Out) : k ≠ i ∧ s'.flows k = s.flows k := by
  rcases deliveryOutcome_cases hkind h with ⟨hbad, -⟩ | ⟨-, -, -, hcloses⟩
  · exact absurd rfl hbad
  rcases hcloses.flows k with hreleased | hsame
  · rw [hout.1] at hreleased
    cases hreleased
  · exact hsame

/-- A flow that ends leaves every other delivery sent. -/
theorem Closes.sent (h : s.Closes i o s') {k : FlowIndex} (hk : k ≠ i) (hs : s.Sent k) :
    s'.flows k = s.flows k := by
  obtain ⟨f, -, -, rfl⟩ := h
  have hbefore : (s.setFlow i f).flows k = s.flows k := setFlow_flows_of_ne s f hk
  have hset : (s.setFlow i f).Sent k := by
    unfold Sent
    rw [hbefore]
    exact hs
  rw [recordTerminal_sent _ hk hset, hbefore]

/-- A delivery that ends leaves every other delivery sent. -/
theorem deliveryOutcome_sent {required : ExecutionState} {kind : UInt8}
    (hkind : kind = 3 ∨ kind = 4)
    (h : deliveryOutcome image bound s i required kind o = some (.ok, s')) {k : FlowIndex}
    (hk : k ≠ i) (hs : s.Sent k) : s'.Sent k := by
  rcases deliveryOutcome_cases hkind h with ⟨hbad, -⟩ | ⟨-, -, -, hcloses⟩
  · exact absurd rfl hbad
  · unfold Sent
    rw [hcloses.sent hk hs]
    exact hs

theorem deliveryOutcome_executionId {required : ExecutionState} {kind : UInt8}
    (hkind : kind = 3 ∨ kind = 4)
    (h : deliveryOutcome image bound s i required kind o = some (r, s')) :
    s'.executionId = s.executionId := by
  rcases deliveryOutcome_cases hkind h with ⟨-, rfl⟩ | ⟨-, -, -, f, -, -, rfl⟩
  · rfl
  · rw [recordTerminal_executionId]
    rfl

/-- A result changes nothing, or it is routed to its landing. -/
theorem acceptResult_cases {result : Frame}
    (h : acceptResult image bound s i result = some (r, s')) :
    (r ≠ .ok ∧ s' = s) ∨
      (s.Sent i ∧ (result.outcome = .success ∨ result.outcome = .appError) ∧
        ∃ l, resultLanding image s i result = some l ∧
          LandsWith image i result.outcome s r s' l) := by
  have hsame : ∀ {r₁ : RuntimeResult}, r₁ ≠ .ok → Call.report r₁ s = some (r, s') →
      (r ≠ .ok ∧ s' = s) := by
    intro r₁ hr h
    obtain ⟨rfl, rfl⟩ := Prod.mk.inj (Option.some.inj h)
    exact ⟨hr, rfl⟩
  unfold acceptResult at h
  simp only at h
  split at h
  · exact .inl (hsame (by decide) h)
  rename_i hopen
  split at h
  · exact .inl (hsame (by decide) h)
  rename_i hanswers
  cases hedge : image.groupFindEdge (Execution.resultKind result.outcome)
      (s.flows i).currentNode 0 with
  | none =>
      rw [hedge] at h
      exact .inl (hsame (by decide) h)
  | some edge =>
      rw [hedge] at h
      simp only at h
      split at h
      · exact .inl (hsame (by decide) h)
      split at h
      · exact .inl (hsame (by decide) h)
      simp only [not_or, not_not] at hopen
      have hout : result.outcome = .success ∨ result.outcome = .appError := by
        simp only [Execution.answers, not_not, Bool.and_eq_true, Bool.or_eq_true,
          beq_iff_eq] at hanswers
        exact hanswers.2
      refine .inr ⟨hopen, hout, landing image result.payload edge, ?_, ?_⟩
      · rw [resultLanding, hedge]; rfl
      · have hland := enterEdge_landing h
        rw [setFlow_flows_self] at hland
        cases hl : landing image result.payload edge with
        | stuck e v res => rw [hl] at hland; simpa [LandsWith, landed] using hland
        | «at» e v => rw [hl] at hland; simpa [LandsWith, landed] using hland

/-- The result passes the checks in front of the first write, and takes an edge. -/
structure Takes (image : Image) (s : GroupExecution) (i : FlowIndex) (result : Frame)
    (edge : Edge) : Prop where
  sent : s.Sent i
  answers : Execution.answers image result s.executionId (s.flows i).requestId
    (s.flows i).currentNode = true
  found : image.groupFindEdge (Execution.resultKind result.outcome) (s.flows i).currentNode 0 =
    some edge
  type : result.sourceType = edge.sourceType
  fits : result.payload.length ≤ (s.flows i).valueCapacity
  canonical : image.validateValue result.sourceType result.payload = true

/-- A result that passes the checks is written and routed. -/
theorem acceptResult_takes {result : Frame} {edge : Edge} (h : s.Takes image i result edge)
    (bound : Nat) : s.acceptResult image bound i result =
      enterEdge image bound i edge result.outcome
        (s.setFlow i fun flow => { flow with value := result.payload }) := by
  have hopen : ¬ (¬ (s.flows i).active = true ∨ (s.flows i).state ≠ .sent) := by
    rw [not_or, not_not, not_not]
    exact h.sent
  have hvalue : ¬ ((s.flows i).valueCapacity < result.payload.length ∨
      ¬ image.validateValue result.sourceType result.payload = true) := by
    rw [not_or, not_not, Nat.not_lt]
    exact ⟨h.fits, h.canonical⟩
  simp only [acceptResult, hopen, h.answers, h.found, h.type, not_true, ne_eq, if_false]
  rw [h.type] at hvalue
  rw [if_neg hvalue]

/-- A result that fails a check is reported, and nothing is written. -/
theorem acceptResult_refused {result : Frame} (h : ∀ edge, ¬ s.Takes image i result edge)
    (bound : Nat) : ∃ r, r ≠ .ok ∧ s.acceptResult image bound i result = Call.report r s := by
  unfold acceptResult
  simp only
  split
  · exact ⟨_, RuntimeResult.noConfusion, rfl⟩
  rename_i hopen
  split
  · exact ⟨_, RuntimeResult.noConfusion, rfl⟩
  rename_i hanswers
  split
  · exact ⟨_, RuntimeResult.noConfusion, rfl⟩
  rename_i edge hfound
  split
  · exact ⟨_, RuntimeResult.noConfusion, rfl⟩
  rename_i htype
  split
  · exact ⟨_, RuntimeResult.noConfusion, rfl⟩
  rename_i hvalue
  simp only [not_or, not_not, Nat.not_lt] at hopen hanswers htype hvalue
  exact absurd ⟨hopen, hanswers, hfound, htype, hvalue.1, hvalue.2⟩ (h edge)

/-! ## What is out behind a call -/

/-- What is out was out before, and it is not the flow that a cascade started from. -/
def OutSince (base : GroupExecution) (i : FlowIndex) (P : Set FlowIndex)
    (s : GroupExecution) : Prop :=
  ∀ k ∉ P, (s.flows k).Out → k ≠ i ∧ s.flows k = base.flows k

theorem not_out_of_atRest {flow : Flow} (h : flow.AtRest) : ¬ flow.Out := by
  rintro ⟨hactive, hstate⟩
  rcases h with h | h | h
  · rw [hactive] at h; cases h
  · rw [h] at hstate; simp at hstate
  · rw [h] at hstate; simp at hstate

/-- A cascade sends nothing out: whatever it takes up, it puts down at rest. -/
theorem outSince_cascade (image : Image) (base : GroupExecution) (i : FlowIndex) :
    Cascade image (fun _ => True) (fun _ => True) (OutSince base i) where
  success := trivial
  branch := fun _ _ _ _ => .inl trivial
  free := fun _ _ _ _ _ => trivial
  waiting := fun _ _ _ _ _ _ => trivial
  coordinator := fun _ _ _ _ => trivial
  write := by
    intro P s j f h _ k hk hout
    rw [Set.mem_insert_iff, not_or] at hk
    rw [setFlow_flows_of_ne _ _ hk.1] at hout ⊢
    exact h k hk.2 hout
  settle := by
    intro P s j h hrest k hk hout
    by_cases hkj : k = j
    · subst hkj
      exact absurd hout (not_out_of_atRest hrest)
    · exact h k (by simp [hkj, hk]) hout
  forget := fun _ _ _ k hk => absurd (Set.mem_univ k) hk
  recordTerminal := by
    intro P s j o h _ _ k hk hout
    rw [recordTerminal_flows] at hout ⊢
    split_ifs at hout ⊢ with hreleased
    · exact absurd hout.1 (by simp [Flow.released])
    · exact h k hk hout
  maybeComplete := fun P s h k hk => by simpa using h k hk
  sameButEach := fun P s t h hsame _ k hk => by rw [hsame.flows]; exact h k hk

/-- A result that is accepted sends nothing out, and its delivery is not out any more. -/
theorem acceptResult_out {result : Frame}
    (h : acceptResult image bound s i result = some (.ok, s')) {k : FlowIndex}
    (hout : (s'.flows k).Out) : k ≠ i ∧ s'.flows k = s.flows k := by
  have hcascade := outSince_cascade image s i
  rcases acceptResult_cases h with ⟨hbad, -⟩ | ⟨-, -, l, -, hland⟩
  · exact absurd rfl hbad
  · cases l with
    | stuck e v res => exact absurd rfl hland.2.1
    | «at» e v =>
        obtain ⟨-, inner, harrive⟩ := hland
        have hlanded : OutSince s i (insert i ∅) (s.landed i e v) := by
          intro k hk _
          have hne : k ≠ i := by simpa using hk
          exact ⟨hne, setFlow_flows_of_ne _ _ hne⟩
        have hleaves := arrive_leaves hcascade (enterEdge_leaves hcascade inner) hlanded trivial
          (.inl trivial) _ _ harrive
        exact hleaves.2 rfl k (by simp) hout

/-- A start sends nothing out. -/
theorem starts_out (hs : Starts image s) (k : FlowIndex) : ¬ (s.flows k).Out := by
  obtain ⟨bound, executionId, capacity, stride, inputType, input, hstart⟩ := hs
  have hcascade := outSince_cascade image (fresh image executionId stride) 0
  unfold start at hstart
  split at hstart
  · cases hstart
  split at hstart
  · cases hstart
  split at hstart
  · cases hstart
  rename_i root hroot
  simp only at hstart
  split at hstart
  · cases hstart
  · rename_i s₁ henter
    obtain rfl := Except.ok.inj (Option.some.inj hstart)
    intro hout
    have hstate : ∀ k, ((fresh image executionId stride).flows k).state = .empty := by
      obtain ⟨deadlineMs, deadlineRegions, hfresh⟩ := fresh_eq image executionId stride
      intro k
      rw [hfresh]
      by_cases hk : k = 0
      · subst hk; rfl
      · simp [hk]
    have hbase : OutSince (fresh image executionId stride) 0 (insert 0 ∅)
        ((fresh image executionId stride).setFlow 0 fun flow => { flow with value := input }) := by
      intro k hk hout
      have hne : k ≠ 0 := by simpa using hk
      exact ⟨hne, setFlow_flows_of_ne _ _ hne⟩
    have hleaves := enterEdge_leaves hcascade _ ∅ 0 root .none _
      (Image.mem_of_groupFindEdge hroot).1 hbase trivial (.inl trivial) _ _ henter
    obtain ⟨-, hsame⟩ := hleaves.2 rfl k (by simp) hout
    rw [hsame] at hout
    have hempty := hout.2
    rw [hstate k] at hempty
    simp at hempty
  · cases hstart

/--
A deadline ends flows one by one: deliveries that are out as unknown, and when
there are none in the region, its first flow as not sent.
-/
theorem expireRegion_retires {I : GroupExecution → Prop}
    (hclose : ∀ (s : GroupExecution) (i : FlowIndex) (o : Outcome) (s' : GroupExecution),
      I s → (s.flows i).active = true →
      (o = .unknown ∧ (s.flows i).state = .sent) ∨
        (o = .notSent ∧ (s.flows i).state ≠ .sent ∧ s.complete = false) →
      s.Retires i o s' → I s')
    (hs : I s) {regionId : UInt8} (h : expireRegion image bound s regionId = some (r, s')) :
    I s' := by
  have hid : ∀ (s : GroupExecution) (i : FlowIndex) (o : Outcome),
      s.Retires i o (s.recordTerminal i o) := fun s i o =>
    ⟨id, fun _ => ⟨_, _, _, _, rfl⟩, by simp [setFlow]⟩
  have hsame : ∀ {r₁ : RuntimeResult} {t : GroupExecution},
      some (r₁, t) = some (r, s') → t = s' := fun h => (Prod.mk.inj (Option.some.inj h)).2
  unfold expireRegion at h
  split at h
  · exact hsame h ▸ hs
  rename_i region hregion
  split at h
  · exact hsame h ▸ hs
  rename_i hcomplete
  rw [Bool.not_eq_true] at hcomplete
  split at h
  · -- one round of the loop ends at most one flow
    have hround : ∀ i ∈ List.finRange maxFlows, ∀ t, I t →
        (expireSent image bound region i t).Keeps I := by
      intro i _ t ht
      unfold expireSent
      split
      · intro r₁ u hu
        rcases deliveryOutcome_retires (.inr rfl) hu with ⟨-, rfl⟩ | ⟨-, ha, hst, hc⟩
        · exact ht
        · exact hclose t i .unknown u ht ha (.inl ⟨rfl, hst⟩) hc
      · exact Call.keeps_done ht
    exact Call.keeps_each _ hround s hs r s' h
  rename_i hnone
  split at h
  · exact hsame h ▸ hs
  rename_i i hi
  have hin := firstIndex_some hi
  have hact : (s.flows i).active = true := by
    simp only [flowInRegion, Bool.and_eq_true] at hin
    exact hin.1.1
  have hunsent : (s.flows i).state ≠ .sent := by
    intro hst
    apply hnone
    rw [List.any_eq_true]
    exact ⟨i, List.mem_finRange i, by simp [sentInRegion, hin, hst]⟩
  simp only at h
  split at h
  · rcases deliveryOutcome_retires (.inl rfl) h with ⟨-, rfl⟩ | ⟨-, -, -, hc⟩
    · exact hs
    · exact hclose s i .notSent s' hs hact (.inr ⟨rfl, hunsent, hcomplete⟩) hc
  split at h
  · rename_i edge hedge
    split at h
    · obtain ⟨hmem, hsource, -⟩ := Image.mem_of_groupFindEdge hedge
      have hterminal := Image.notSent_unknown_terminal image hmem (.inl hsource)
      obtain ⟨-, rfl⟩ := enterEdge_terminal hterminal h
      refine hclose s i .notSent _ hs hact (.inr ⟨rfl, hunsent, hcomplete⟩)
        ⟨fun flow => { flow with
          value := []
          valueSourceType := edge.sourceType
          valueDestinationType := edge.targetType
          currentNode := edge.targetNode }, fun _ => ⟨_, _, _, _, rfl⟩, ?_⟩
      simp only [aim, setFlow_setFlow]
    · exact hsame h ▸ hclose s i .notSent _ hs hact (.inr ⟨rfl, hunsent, hcomplete⟩) (hid s i _)
  · exact hsame h ▸ hclose s i .notSent _ hs hact (.inr ⟨rfl, hunsent, hcomplete⟩) (hid s i _)

theorem expireRegion_keeps {I : GroupExecution → Prop}
    (hclose : ∀ (s : GroupExecution) (i : FlowIndex) (o : Outcome) (s' : GroupExecution),
      I s → (s.flows i).active = true →
      (o = .unknown ∧ (s.flows i).state = .sent) ∨
        (o = .notSent ∧ (s.flows i).state ≠ .sent ∧ s.complete = false) →
      s.Closes i o s' → I s')
    (hs : I s) {regionId : UInt8} (h : expireRegion image bound s regionId = some (r, s')) :
    I s' :=
  expireRegion_retires (fun s i o s' hs hactive hcase hretires =>
    hclose s i o s' hs hactive hcase hretires.closes) hs h

/-! ## Invariants of runs -/

section Runs

variable {own : FlowIndex → Prop} {I : GroupExecution → Prop}

/-- A start keeps what holds of the execution it sets up. -/
theorem starts_keeps (h : Stable own I) (hroot : own 0)
    (hfresh : ∀ executionId stride f, I ((fresh image executionId stride).setFlow 0 f))
    (hs : Starts image s) : I s := by
  obtain ⟨bound, executionId, capacity, stride, inputType, input, hstart⟩ := hs
  unfold start at hstart
  split at hstart
  · cases hstart
  split at hstart
  · cases hstart
  split at hstart
  · cases hstart
  rename_i root hroot'
  simp only at hstart
  split at hstart
  · cases hstart
  · rename_i s₁ henter
    obtain rfl := Except.ok.inj (Option.some.inj hstart)
    exact enterEdge_keeps h (Image.mem_of_groupFindEdge hroot').1 (hfresh executionId stride _) hroot
      (.inl rfl) _ _ henter
  · cases hstart

/-- The arrival of a result keeps a stable invariant that also survives the failures it records. -/
theorem landsWith_keeps (h : Stable own I) (hi : own i)
    (hfail : ∀ s, I s → I (s.recordTerminal i .appError)) {l : Landing}
    (ho : o = .success ∨ o = .appError) (hs : I s) (hl : LandsWith image i o s r s' l) : I s' := by
  cases l with
  | stuck e v result =>
      obtain ⟨-, -, rfl⟩ := hl
      exact h.setFlow s i _ hs hi
  | «at» e v =>
      obtain ⟨hk, bound, harrive⟩ := hl
      have hset : I (s.landed i e v) := h.setFlow s i _ hs hi
      by_cases hterminal : e.targetKind = 2
      · obtain ⟨-, rfl⟩ := arrive_terminal hterminal harrive
        rcases ho with rfl | rfl
        · exact h.recordTerminal _ i _ hset hi (.inr rfl)
        · exact hfail _ hset
      · exact arrive_keeps h hset hi (.inr ⟨hterminal, hk⟩) _ _ harrive

/-- A step keeps an invariant that survives every cascade and every failure. -/
theorem performs_keeps (h : Stable (fun _ => True) I)
    (hnumber : ∀ s n, I s → I { s with nextRequestId := n })
    (hfail : ∀ s i o, I s → o.IsFailure → I (s.recordTerminal i o)) {op : GroupOp} (hs : I s)
    (hop : Performs image s op s') : I s' := by
  have hclose : ∀ (s : GroupExecution) (i : FlowIndex) (o : Outcome) (s' : GroupExecution),
      I s → o = .notSent ∨ o = .unknown → s.Closes i o s' → I s' := by
    rintro s i o s' hs ho ⟨f, -, -, rfl⟩
    exact hfail _ i o (h.setFlow s i f hs trivial) (.inr ho)
  cases op with
  | prepare i =>
      rcases performs_prepare hop with rfl | ⟨frame, hp⟩
      · exact hs
      · obtain ⟨-, -, -, -, rfl⟩ := prepare_ok hp
        exact h.setFlow _ i _ (hnumber s _ hs) trivial
  | markSent i =>
      rcases performs_markSent hop with rfl | hm
      · exact hs
      · obtain ⟨-, -, rfl⟩ := markSent_ok hm
        exact h.setFlow _ i _ hs trivial
  | markNotSent i =>
      obtain ⟨bound, r, hcall⟩ := hop
      rcases deliveryOutcome_cases (.inl rfl) hcall with ⟨-, rfl⟩ | ⟨-, -, -, hc⟩
      · exact hs
      · exact hclose s i _ s' hs (.inl rfl) hc
  | markUnknown i =>
      obtain ⟨bound, r, hcall⟩ := hop
      rcases deliveryOutcome_cases (.inr rfl) hcall with ⟨-, rfl⟩ | ⟨-, -, -, hc⟩
      · exact hs
      · exact hclose s i _ s' hs (.inr rfl) hc
  | acceptResult i result =>
      obtain ⟨bound, r, hcall⟩ := hop
      rcases acceptResult_cases hcall with ⟨-, rfl⟩ | ⟨-, ho, l, -, hl⟩
      · exact hs
      · exact landsWith_keeps h trivial (fun s hs => hfail s i _ hs (.inl rfl)) ho hs hl
  | expireRegion regionId =>
      obtain ⟨bound, r, hcall⟩ := hop
      refine expireRegion_keeps (fun s i o s' hs _ ho hc => ?_) hs hcall
      exact hclose s i o s' hs (ho.elim (fun h => .inr h.1) fun h => .inl h.1) hc

end Runs

/-- No execution records a protocol error. -/
theorem pendingOutcome_reachable {C : GroupExecution → GroupOp → Prop}
    (h : (system image).ReachWhere C s) : s.pendingOutcome ≠ .protocolError := by
  have hstable : Stable (fun _ => True) fun s => s.pendingOutcome ≠ .protocolError := {
    free := fun _ _ _ _ => trivial
    waiting := fun _ _ _ _ _ => trivial
    coordinator := fun _ _ => trivial
    setFlow := fun _ _ _ h _ => h
    recordTerminal := fun s i o h _ ho => by
      rw [recordTerminal_pendingOutcome]
      split_ifs
      · rcases ho with rfl | rfl <;> decide
      · exact h
    maybeComplete := fun s h => by simpa using h
    sameButEach := fun s t h hst _ => by rw [hst.pendingOutcome]; exact h }
  refine h.invariant (P := fun s => s.pendingOutcome ≠ .protocolError) (fun s hs => ?_)
    fun s op s' hs _ hop => ?_
  · exact starts_keeps hstable trivial (fun _ _ _ => by simp [setFlow]) hs
  · refine performs_keeps hstable (fun _ _ h => h) (fun s i o hs ho => ?_) hs hop
    rw [recordTerminal_pendingOutcome]
    split_ifs
    · rcases ho with rfl | rfl | rfl <;> decide
    · exact hs

theorem starts_not_failed (hs : Starts image s) :
    s.pendingOutcome = .none ∨ s.pendingOutcome = .success :=
  starts_keeps stable_notFailed trivial (fun _ _ _ => .inl (by simp [setFlow])) hs

end GroupExecution

end Hermas
