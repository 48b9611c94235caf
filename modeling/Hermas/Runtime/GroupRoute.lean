import Hermas.Image.Facts
import Hermas.Runtime.Group

/-!
# What routing can touch

Entering an edge may set off a cascade: forks take slots, joins release branches,
regions admit items. Two things hold of every cascade, whatever the image says.

* It writes only to flows it may own: the flow that is routed, free slots, flows
  that wait, and the coordinator of the active region. What it takes up it puts
  down again, ready, waiting or free, unless it fails. `Cascade` lists what an
  invariant has to survive, and `enterEdge_leaves` is the induction, done once;
  `Stable` is the case of an invariant that exempts no flow.
* Before the cascade starts, the flow passes the dispatches in its way.
  `enterEdge_landing` reduces an entry to the arrival at its landing.
-/

namespace Hermas

open Image (Edge Node EachRegion)

/-- The flow stands with a delivery that is prepared or sent. -/
def Flow.Out (flow : Flow) : Prop :=
  flow.active = true ∧ (flow.state = .prepared ∨ flow.state = .sent)

/-- Nothing of the flow is out: it is free, ready, or waits. -/
def Flow.AtRest (flow : Flow) : Prop :=
  flow.active = false ∨ flow.state = .ready ∨ flow.state = .waiting

namespace GroupExecution

@[simp] theorem setFlow_flows_self (s : GroupExecution) (i : FlowIndex) (f : Flow → Flow) :
    (s.setFlow i f).flows i = f (s.flows i) := by simp [setFlow]

@[simp] theorem setFlow_flows_of_ne (s : GroupExecution) {i j : FlowIndex} (f : Flow → Flow)
    (h : j ≠ i) : (s.setFlow i f).flows j = s.flows j := by simp [setFlow, h]

@[simp] theorem setFlow_setFlow (s : GroupExecution) (i : FlowIndex) (f g : Flow → Flow) :
    (s.setFlow i f).setFlow i g = s.setFlow i fun flow => g (f flow) := by
  simp [setFlow]

/-! ## What recording an outcome changes -/

@[simp] theorem maybeComplete_flows (s : GroupExecution) : s.maybeComplete.flows = s.flows := by
  unfold maybeComplete; split_ifs <;> rfl

@[simp] theorem maybeComplete_pendingOutcome (s : GroupExecution) :
    s.maybeComplete.pendingOutcome = s.pendingOutcome := by
  unfold maybeComplete; split_ifs <;> rfl

@[simp] theorem maybeComplete_pendingFlow (s : GroupExecution) :
    s.maybeComplete.pendingFlow = s.pendingFlow := by
  unfold maybeComplete; split_ifs <;> rfl

@[simp] theorem maybeComplete_entered (s : GroupExecution) :
    s.maybeComplete.entered = s.entered := by
  unfold maybeComplete; split_ifs <;> rfl

@[simp] theorem maybeComplete_executionId (s : GroupExecution) :
    s.maybeComplete.executionId = s.executionId := by
  unfold maybeComplete; split_ifs <;> rfl

@[simp] theorem maybeComplete_coordinator (s : GroupExecution) :
    s.maybeComplete.eachCoordinatorFlow = s.eachCoordinatorFlow := by
  unfold maybeComplete; split_ifs <;> rfl

theorem recordTerminal_pendingOutcome (s : GroupExecution) (i : FlowIndex) (o : Outcome) :
    (s.recordTerminal i o).pendingOutcome =
      if s.pendingOutcome.precedence < o.precedence then o else s.pendingOutcome := by
  unfold recordTerminal
  simp only [maybeComplete_pendingOutcome]
  split_ifs with h <;> simp [recordOutcome, cutOff, setFlow, *]

theorem recordTerminal_coordinator (s : GroupExecution) (i : FlowIndex) (o : Outcome) :
    (s.recordTerminal i o).eachCoordinatorFlow = s.eachCoordinatorFlow := by
  unfold recordTerminal
  simp only [maybeComplete_coordinator]
  split_ifs <;> simp only [recordOutcome, cutOff, setFlow] <;> split_ifs <;> rfl

theorem recordTerminal_executionId (s : GroupExecution) (i : FlowIndex) (o : Outcome) :
    (s.recordTerminal i o).executionId = s.executionId := by
  unfold recordTerminal
  simp only [maybeComplete_executionId]
  split_ifs <;> simp only [recordOutcome, cutOff, setFlow] <;> split_ifs <;> rfl

/-- Behind an entry into a terminal a flow is as before, or released with all else unchanged. -/
theorem recordTerminal_flows (s : GroupExecution) (i : FlowIndex) (o : Outcome) (j : FlowIndex) :
    (s.recordTerminal i o).flows j =
      if j = i ∨ (o ≠ .success ∧ (s.flows j).active = true ∧ (s.flows j).state ≠ .sent)
      then (s.flows j).released else s.flows j := by
  have hrec : (s.recordOutcome i o).flows j =
      if j = i then (s.flows j).released else s.flows j := by
    by_cases hj : j = i
    · subst hj
      simp only [recordOutcome, setFlow_flows_self, if_true]
      split_ifs <;> rfl
    · simp only [recordOutcome, setFlow_flows_of_ne _ _ hj, if_neg hj]
      split_ifs <;> rfl
  unfold recordTerminal
  simp only [maybeComplete_flows]
  by_cases ho : o = .success
  · simp only [ho, ne_eq, not_true, if_false, false_and, or_false] at hrec ⊢
    exact hrec
  · by_cases hj : j = i
    · simp only [hj, if_true] at hrec
      simp [ho, cutOff, hj, hrec, Flow.released]
    · simp only [hj, if_false] at hrec
      simp [ho, cutOff, hj, hrec]

theorem recordTerminal_released (s : GroupExecution) (i : FlowIndex) (o : Outcome) :
    ((s.recordTerminal i o).flows i).active = false := by
  rw [recordTerminal_flows, if_pos (.inl rfl)]
  rfl

/-! ## Invariants of routing -/

/-- The states differ in the bookkeeping of the active each region at most. -/
structure SameButEach (s t : GroupExecution) : Prop where
  executionId : t.executionId = s.executionId
  nextRequestId : t.nextRequestId = s.nextRequestId
  flows : t.flows = s.flows
  pendingOutcome : t.pendingOutcome = s.pendingOutcome
  pendingFlow : t.pendingFlow = s.pendingFlow
  complete : t.complete = s.complete
  entered : t.entered = s.entered

/-- The outcomes that routing itself carries along. -/
def Routed (o : Outcome) : Prop := o = .none ∨ o = .success

/-- An entry that ends in a terminal ends there with one of these outcomes. -/
def EndsWith (ends : Outcome → Prop) (image : Image) (o : Outcome) (edge : Edge)
    (value : Bytes) : Prop :=
  ends o ∨ ∀ e v, landing image value edge = .at e v → e.targetKind ≠ 2

/--
An invariant that survives whatever a cascade does, as long as the cascade writes
to flows in `own` only and ends flows with outcomes in `ends` only. The set holds
the flows that the cascade has taken up and not yet put down, so that the
invariant may exempt them.
-/
structure Cascade (image : Image) (ends : Outcome → Prop) (own : FlowIndex → Prop)
    (I : Set FlowIndex → GroupExecution → Prop) : Prop where
  success : ends .success
  branch : ∀ edge ∈ image.tables.edges, edge.sourceKind = 6 ∨ edge.sourceKind = 8 →
    ∀ value, EndsWith ends image .none edge value
  free : ∀ P s i, I P s → (s.flows i).active = false → own i
  waiting : ∀ P s i, I P s → (s.flows i).active = true → (s.flows i).state = .waiting → own i
  coordinator : ∀ P s, I P s → s.activeEachRegion ≠ 0 → own s.eachCoordinatorFlow
  write : ∀ P s i f, I P s → own i → I (insert i P) (s.setFlow i f)
  settle : ∀ P s i, I (insert i P) s → (s.flows i).AtRest → I P s
  forget : ∀ P s, I P s → I Set.univ s
  recordTerminal : ∀ P s i o, I P s → own i → ends o → I P (s.recordTerminal i o)
  maybeComplete : ∀ P s, I P s → I P s.maybeComplete
  sameButEach : ∀ P s t, I P s → SameButEach s t →
    own t.eachCoordinatorFlow ∨ (t.eachCoordinatorFlow = s.eachCoordinatorFlow ∧
      (t.activeEachRegion ≠ 0 → s.activeEachRegion ≠ 0)) → I P t

/-- A call puts down what it has taken up, unless it fails. -/
def Leaves (I : Set FlowIndex → GroupExecution → Prop) (P : Set FlowIndex)
    (c : Call RuntimeResult GroupExecution) : Prop :=
  c.Ensures fun r s => I Set.univ s ∧ (r = .ok → I P s)

section Leaves

variable {image : Image} {ends : Outcome → Prop} {own : FlowIndex → Prop}
variable {I : Set FlowIndex → GroupExecution → Prop} {P Q : Set FlowIndex}
variable {enter : FlowIndex → Edge → Outcome → GroupExecution → Call RuntimeResult GroupExecution}
variable {s : GroupExecution} {i : FlowIndex}

theorem leaves_done (h : Cascade image ends own I) (hs : I P s) : Leaves I P (Call.done s) :=
  Call.ensures_done ⟨h.forget P s hs, fun _ => hs⟩

theorem leaves_report (h : Cascade image ends own I) {r : RuntimeResult} (hr : r ≠ .ok)
    (hs : I Q s) : Leaves I P (Call.report r s) :=
  Call.ensures_report ⟨h.forget Q s hs, fun hok => absurd hok hr⟩

theorem leaves_andThen {c : Call RuntimeResult GroupExecution}
    {k : GroupExecution → Call RuntimeResult GroupExecution} (hc : Leaves I Q c)
    (hk : ∀ s, I Q s → Leaves I P (k s)) : Leaves I P (c.andThen k) :=
  Call.ensures_andThen hc (fun s hs => hk s (hs.2 rfl)) fun _ _ hr hs =>
    ⟨hs.1, fun hok => absurd hok hr⟩

/-- The entries of a cascade put down the flow they were given. -/
def EnterLeaves (image : Image) (ends : Outcome → Prop) (own : FlowIndex → Prop)
    (I : Set FlowIndex → GroupExecution → Prop)
    (enter : FlowIndex → Edge → Outcome → GroupExecution → Call RuntimeResult GroupExecution) :
    Prop :=
  ∀ P i edge o s, edge ∈ image.tables.edges → I (insert i P) s → own i →
    EndsWith ends image o edge (s.flows i).value → Leaves I P (enter i edge o s)

/-- A flow may be taken up at any time. -/
theorem Cascade.take (h : Cascade image ends own I) (hs : I P s) (hi : own i) :
    I (insert i P) s := by
  have := h.write P s i id hs hi
  rwa [show s.setFlow i id = s by simp [setFlow]] at this

/-- A write that puts the flow to rest. -/
theorem Cascade.put (h : Cascade image ends own I) (hs : I (insert i P) s) (hi : own i)
    {f : Flow → Flow} (hf : (f (s.flows i)).AtRest) : I P (s.setFlow i f) := by
  have hw := h.write _ s i f hs hi
  rw [Set.insert_eq_of_mem (Set.mem_insert i P)] at hw
  exact h.settle P _ i hw (by rwa [setFlow_flows_self])

theorem Cascade.rewrite (h : Cascade image ends own I) (hs : I (insert i P) s) (hi : own i)
    (f : Flow → Flow) : I (insert i P) (s.setFlow i f) := by
  have hw := h.write _ s i f hs hi
  rwa [Set.insert_eq_of_mem (Set.mem_insert i P)] at hw

theorem copyValue_leaves (h : Cascade image ends own I) (value : Bytes) (hs : I P s)
    (hi : own i) : Leaves I (insert i P) (s.copyValue i value) := by
  unfold copyValue
  split
  · exact leaves_report h (by decide) hs
  · exact leaves_done h (h.write P s i _ hs hi)

theorem eachRegion_active {regionId : UInt8} {region : EachRegion}
    (hr : s.eachRegion? regionId = some region) : regionId ≠ 0 := by
  rintro rfl
  simp [eachRegion?] at hr

theorem eachFinish_leaves (h : Cascade image ends own I)
    (he : EnterLeaves image ends own I enter) (hs : I P s) :
    Leaves I P (eachFinish image enter s) := by
  unfold eachFinish
  simp only
  split
  · exact leaves_report h (by decide) hs
  · rename_i region hregion
    have hc := h.coordinator P s hs (eachRegion_active hregion)
    refine leaves_andThen (copyValue_leaves h _ hs hc) fun t ht => ?_
    split
    · exact leaves_report h (by decide) ht
    · have hset := h.rewrite ht hc fun flow => { flow with active := true, eachRegion := 0 }
      have hclear := h.sameButEach _ _ { t.setFlow s.eachCoordinatorFlow fun flow =>
          { flow with active := true, eachRegion := 0 } with activeEachRegion := 0 } hset
        ⟨rfl, rfl, rfl, rfl, rfl, rfl, rfl⟩ (.inr ⟨rfl, fun hn => absurd rfl hn⟩)
      split
      · exact leaves_report h (by decide) hclear
      · rename_i edge hedge
        exact he _ _ _ _ _ (Image.mem_of_groupFindEdge hedge).1 hclear hc (.inl h.success)

theorem flushItems_leaves (h : Cascade image ends own I) {regionId : UInt8} :
    ∀ (rounds : Nat) {s : GroupExecution}, I P s → Leaves I P (flushItems regionId rounds s) := by
  intro rounds
  induction rounds with
  | zero => intro s _; exact Call.ensures_none
  | succ rounds ih =>
      intro s hs
      unfold flushItems
      split
      · exact leaves_done h hs
      · rename_i ready hready
        simp only
        split
        · exact leaves_report h (by decide) hs
        · have hcand := firstIndex_some hready
          simp only [Bool.and_eq_true, beq_iff_eq] at hcand
          have hown := h.waiting P s ready hs hcand.1.1.1 hcand.1.2
          have hsame := h.sameButEach P s { s with
            eachCollection := s.eachCollection ++ (s.flows ready).value
            eachFlushItem := s.eachFlushItem + 1 } hs ⟨rfl, rfl, rfl, rfl, rfl, rfl, rfl⟩
            (.inr ⟨rfl, id⟩)
          exact ih (h.put (h.take hsame hown) hown (.inl rfl))

theorem admitItems_leaves (h : Cascade image ends own I)
    (he : EnterLeaves image ends own I enter) {regionId : UInt8} {region : EachRegion} :
    ∀ (rounds : Nat) {s : GroupExecution}, I P s →
      Leaves I P (admitItems image enter regionId region rounds s) := by
  intro rounds
  induction rounds with
  | zero => intro s _; exact Call.ensures_none
  | succ rounds ih =>
      intro s hs
      unfold admitItems
      split
      · exact leaves_done h hs
      split
      · exact leaves_report h (by decide) hs
      · rename_i slot hslot
        have hfree : (s.flows slot).active = false := by simpa using firstIndex_some hslot
        have hown := h.free P s slot hs hfree
        have hsame := h.sameButEach P s { s with eachNextItem := s.eachNextItem + 1 } hs
          ⟨rfl, rfl, rfl, rfl, rfl, rfl, rfl⟩ (.inr ⟨rfl, id⟩)
        have hslot := h.write P _ slot (fun flow =>
          { flow with active := true, eachRegion := regionId, itemIndex := s.eachNextItem }) hsame
          hown
        have hcopy := copyValue_leaves h (s.eachSourceSnapshot.slice
          (s.eachItems.getD s.eachNextItem (0, 0)).1 (s.eachItems.getD s.eachNextItem (0, 0)).2)
          hslot hown
        rw [Set.insert_eq_of_mem (Set.mem_insert slot P)] at hcopy
        refine leaves_andThen hcopy fun t ht => ?_
        split
        · exact leaves_report h (by decide) ht
        · rename_i edge hedge
          obtain ⟨hmem, hsource, -⟩ := Image.mem_of_groupFindEdge hedge
          exact leaves_andThen (he _ _ _ _ t hmem ht hown (h.branch edge hmem (.inr hsource) _))
            fun u hu => ih hu

theorem eachAdmit_leaves (h : Cascade image ends own I)
    (he : EnterLeaves image ends own I enter) {rounds : Nat} (hs : I P s) :
    Leaves I P (eachAdmit image enter rounds s) := by
  unfold eachAdmit
  split
  · exact leaves_report h (by decide) hs
  · exact admitItems_leaves h he rounds hs

theorem eachCollect_leaves (h : Cascade image ends own I)
    (he : EnterLeaves image ends own I enter) {rounds : Nat} {regionId : UInt8}
    (hs : I (insert i P) s) (hi : own i) :
    Leaves I P (eachCollect image enter rounds i regionId s) := by
  unfold eachCollect
  split
  · exact leaves_report h (by decide) hs
  · simp only
    have hset := h.put hs hi (f := fun flow => { flow with state := .waiting }) (.inr (.inr rfl))
    have hsame := h.sameButEach P _ { s.setFlow i fun flow => { flow with state := .waiting } with
      eachCompletedItems := s.eachCompletedItems + 1 } hset
      ⟨rfl, rfl, rfl, rfl, rfl, rfl, rfl⟩ (.inr ⟨rfl, id⟩)
    refine leaves_andThen (flushItems_leaves h _ hsame) fun t ht => ?_
    split
    · exact eachFinish_leaves h he ht
    · exact eachAdmit_leaves h he ht

theorem eachStart_leaves (h : Cascade image ends own I)
    (he : EnterLeaves image ends own I enter) {rounds : Nat} {regionId : UInt8}
    (hs : I (insert i P) s) (hi : own i) :
    Leaves I P (eachStart image enter rounds i regionId s) := by
  have hsame : ∀ t : GroupExecution, SameButEach s t →
      (t.eachCoordinatorFlow = i ∨ (t.eachCoordinatorFlow = s.eachCoordinatorFlow ∧
        t.activeEachRegion = s.activeEachRegion)) → I (insert i P) t := by
    intro t ht hc
    refine h.sameButEach _ s t hs ht (hc.imp (fun hc => by rw [hc]; exact hi) fun hc => ⟨hc.1, ?_⟩)
    rw [hc.2]
    exact id
  unfold eachStart
  simp only
  split
  · exact leaves_report h (by decide) hs
  split
  · exact leaves_report h (by decide) hs
  split
  · exact leaves_report h (by decide) hs
  split
  · exact leaves_report h (by decide) (hsame _ ⟨rfl, rfl, rfl, rfl, rfl, rfl, rfl⟩
      (.inr ⟨rfl, rfl⟩))
  split
  · exact leaves_report h (by decide) (hsame _ ⟨rfl, rfl, rfl, rfl, rfl, rfl, rfl⟩
      (.inr ⟨rfl, rfl⟩))
  · have hput : ∀ t : GroupExecution, I (insert i P) t →
        I P (t.setFlow i fun flow => { flow with active := false, eachRegion := 0 }) :=
      fun t ht => h.put ht hi (.inl rfl)
    split
    · exact eachFinish_leaves h he (hput _ (hsame _ ⟨rfl, rfl, rfl, rfl, rfl, rfl, rfl⟩ (.inl rfl)))
    · exact eachAdmit_leaves h he (hput _ (hsame _ ⟨rfl, rfl, rfl, rfl, rfl, rfl, rfl⟩ (.inl rfl)))

theorem branchFlow_waits {joinNode : UInt16} {tag : UInt8}
    (hi : s.branchFlow joinNode tag = some i) :
    (s.flows i).active = true ∧ (s.flows i).state = .waiting := by
  have := firstIndex_some hi
  simp only [Bool.and_eq_true, beq_iff_eq] at this
  exact ⟨this.1.1.1, this.1.1.2⟩

/-- The flows of a filled join are those found for its tags. -/
theorem branchFlows_some {joinNode : UInt16} {count : Nat}
    {flows : List FlowIndex} (h : s.branchFlows joinNode count = some flows) :
    List.Forall₂ (fun tag i => s.branchFlow joinNode (UInt8.ofNat tag) = some i)
      (List.range count) flows := by
  unfold branchFlows at h
  generalize List.range count = tags at h ⊢
  induction tags generalizing flows with
  | nil =>
      simp only [List.mapM_nil, Option.pure_def, Option.some.injEq] at h
      subst h
      exact .nil
  | cons tag tags ih =>
      rw [List.mapM_cons] at h
      cases hi : s.branchFlow joinNode (UInt8.ofNat tag) with
      | none => simp [hi] at h
      | some i =>
          cases hrest : tags.mapM fun tag => s.branchFlow joinNode (UInt8.ofNat tag) with
          | none => simp [hi, hrest] at h
          | some rest =>
              simp only [hi, hrest, Option.pure_def, Option.bind_eq_bind, Option.bind_some,
                Option.some.injEq] at h
              subst h
              exact .cons hi (ih hrest)

theorem branchFlows_wait {joinNode : UInt16} {count : Nat} {flows : List FlowIndex}
    (hf : s.branchFlows joinNode count = some flows) :
    ∀ branch ∈ (List.range count).zip flows,
      (s.flows branch.2).active = true ∧ (s.flows branch.2).state = .waiting := by
  intro branch hb
  have hall := List.forall₂_iff_zip.mp (branchFlows_some hf)
  exact branchFlow_waits (hall.2 (by simpa using hb))

/-- A loop over flows that are all owned; each round puts its flow down. -/
theorem leaves_each (h : Cascade image ends own I)
    {body : Nat × FlowIndex → GroupExecution → Call RuntimeResult GroupExecution}
    (branches : List (Nat × FlowIndex))
    (hbody : ∀ branch ∈ branches, ∀ Q s, I (insert branch.2 Q) s → Leaves I Q (body branch s)) :
    ∀ {s : GroupExecution}, I ({i | i ∈ branches.map Prod.snd} ∪ P) s →
      Leaves I P (Call.each body branches s) := by
  induction branches with
  | nil =>
      intro s hs
      simp only [List.map_nil, List.not_mem_nil, Set.ofPred_false, Set.empty_union] at hs
      exact leaves_done h hs
  | cons branch branches ih =>
      intro s hs
      have hset : {i | i ∈ (branch :: branches).map Prod.snd} ∪ P =
          insert branch.2 ({i | i ∈ branches.map Prod.snd} ∪ P) := by
        ext j
        simp [or_assoc]
      rw [hset] at hs
      exact leaves_andThen (hbody branch (by simp) _ s hs) fun t ht =>
        ih (fun b hb => hbody b (by simp [hb])) ht

theorem resolveJoin_leaves (h : Cascade image ends own I)
    (he : EnterLeaves image ends own I enter) {joinNode : UInt16} (hs : I P s) :
    Leaves I P (resolveJoin image enter joinNode s) := by
  unfold resolveJoin
  simp only
  split
  · exact leaves_report h (by decide) hs
  split
  · exact leaves_done h (h.maybeComplete P s hs)
  · rename_i flows hflows
    have hown : ∀ branch ∈ (List.range (image.node joinNode).subtype.toNat).zip flows,
        own branch.2 := fun branch hb =>
      h.waiting P s _ hs (branchFlows_wait hflows branch hb).1 (branchFlows_wait hflows branch hb).2
    have hall : ∀ branches : List (Nat × FlowIndex), (∀ branch ∈ branches, own branch.2) →
        I ({i | i ∈ branches.map Prod.snd} ∪ P) s := by
      intro branches
      induction branches with
      | nil => intro _; simpa using hs
      | cons branch branches ih =>
          intro hb
          have htake := h.take (ih fun b hm => hb b (by simp [hm])) (hb branch (by simp))
          have hset : {i | i ∈ (branch :: branches).map Prod.snd} ∪ P =
              insert branch.2 ({i | i ∈ branches.map Prod.snd} ∪ P) := by
            ext j
            simp [or_assoc]
          rw [hset]
          exact htake
    refine leaves_andThen (leaves_each h _ (fun branch hb Q t ht => ?_) (hall _ hown))
      fun t ht => leaves_done h (h.maybeComplete P t ht)
    unfold releaseBranch
    split
    · rename_i edge hedge
      exact he _ _ _ _ t (Image.mem_of_groupFindEdge hedge).1 ht (hown branch hb) (.inl h.success)
    · exact leaves_done h (h.put ht (hown branch hb) (.inl rfl))

theorem takeBranches_leaves (h : Cascade image ends own I) {source : FlowIndex} :
    ∀ (count : Nat) {flows : List FlowIndex} {s : GroupExecution},
      I ({i | i ∈ flows} ∪ P) s → (∀ i ∈ flows, own i) →
      I Set.univ (takeBranches source count flows s).2.2 ∧
        ((takeBranches source count flows s).1 = .ok →
          I ({i | i ∈ (takeBranches source count flows s).2.1} ∪ P)
            (takeBranches source count flows s).2.2 ∧
          (takeBranches source count flows s).2.1.length = flows.length + count) ∧
        ∀ i ∈ (takeBranches source count flows s).2.1, own i := by
  intro count
  induction count with
  | zero =>
      intro flows s hs hf
      exact ⟨h.forget _ s hs, fun _ => ⟨hs, rfl⟩, hf⟩
  | succ count ih =>
      intro flows s hs hf
      unfold takeBranches
      split
      · exact ⟨h.forget _ s hs, (fun hok => by cases hok), hf⟩
      · rename_i slot hslot
        have hfree := firstIndex_some hslot
        simp only [Bool.and_eq_true, Bool.not_eq_true'] at hfree
        have hown := h.free _ s slot hs hfree.1
        have hset := h.write _ s slot (fun flow => { flow with active := true }) hs hown
        simp only
        split
        · exact ⟨h.forget _ _ hset, (fun hok => by cases hok), hf⟩
        · have hcopy := h.rewrite hset hown fun flow => { flow with value := (s.flows source).value }
          have hval : ((s.setFlow slot fun flow => { flow with active := true }).flows source).value =
              (s.flows source).value := by
            by_cases hs' : source = slot
            · subst hs'; simp
            · rw [setFlow_flows_of_ne _ _ hs']
          have hpend : insert slot ({i | i ∈ flows} ∪ P) = {i | i ∈ flows ++ [slot]} ∪ P := by
            ext j
            simp only [Set.mem_insert_iff, Set.mem_union, Set.mem_ofPred_eq, List.mem_append,
              List.mem_singleton]
            tauto
          rw [hpend] at hcopy
          rw [hval]
          obtain ⟨h1, h2, h3⟩ := ih hcopy fun i hi =>
            (List.mem_append.mp hi).elim (hf i) fun hi => List.mem_singleton.mp hi ▸ hown
          refine ⟨h1, fun hok => ⟨(h2 hok).1, ?_⟩, h3⟩
          rw [(h2 hok).2, List.length_append, List.length_singleton]
          omega

theorem enterFork_leaves (h : Cascade image ends own I)
    (he : EnterLeaves image ends own I enter) {source : FlowIndex} {forkNode : UInt16}
    (hs : I (insert source P) s) (hi : own source) :
    Leaves I P (enterFork image enter source forkNode s) := by
  unfold enterFork
  simp only
  split
  · exact leaves_report h (by decide) hs
  · rename_i hkind
    have hbranches := Image.fork_branches image (not_not.mp hkind)
    have hpend : insert source P = {i | i ∈ [source]} ∪ P := by
      ext j
      simp
    rw [hpend] at hs
    obtain ⟨huniv, hok, hflows⟩ := takeBranches_leaves h
      ((image.node forkNode).subtype.toNat - 1) hs (by simpa using hi)
    split
    · rename_i flows t heq
      rw [heq] at hok hflows
      obtain ⟨hstate, hlen⟩ := hok rfl
      have hsnd : ((List.range (image.node forkNode).subtype.toNat).zip flows).map Prod.snd =
          flows := by
        refine List.map_snd_zip ?_
        simp only [List.length_range, List.length_singleton] at hlen ⊢
        omega
      rw [← hsnd] at hstate
      refine leaves_each h _ (fun branch hb Q u hu => ?_) hstate
      have hown := hflows branch.2 (List.of_mem_zip hb).2
      unfold enterBranch
      split
      · exact leaves_report h (by decide) hu
      · rename_i edge hedge
        obtain ⟨hmem, hsource, -⟩ := Image.mem_of_groupFindEdge hedge
        exact he _ _ _ _ u hmem hu hown (h.branch edge hmem (.inl hsource) _)
    · rename_i failed flows t hfail heq
      rw [heq] at huniv
      refine leaves_report h ?_ huniv
      rintro rfl
      exact hfail rfl

/-- A move through a dispatch lands where the edge behind it lands. -/
theorem landing_dispatch {edge next : Edge} {value : Bytes} (hk : edge.targetKind = 3)
    (hlen : ¬ value.length < 8) (htag : ¬ (value.readU32 4 ≠ 0 ∨ 255 < value.readU32 0))
    (hfind : image.findCaseEdge edge.targetNode (value.readU32 0).toUInt8 = some next)
    (hok : image.validateValue next.sourceType (value.drop 8) = true) :
    landing image value edge = landing image (value.drop 8) next := by
  rcases value with _ | ⟨t0, _ | ⟨t1, _ | ⟨t2, _ | ⟨t3, _ | ⟨r0, _ | ⟨r1, _ | ⟨r2, _ | ⟨r3,
    rest⟩⟩⟩⟩⟩⟩⟩⟩
  all_goals first | (exfalso; apply hlen; simp; done) | skip
  have h0 : Bytes.readU32 (t0 :: t1 :: t2 :: t3 :: r0 :: r1 :: r2 :: r3 :: rest) 0 =
      Bytes.readU32 [t0, t1, t2, t3] 0 := rfl
  have h4 : Bytes.readU32 (t0 :: t1 :: t2 :: t3 :: r0 :: r1 :: r2 :: r3 :: rest) 4 =
      Bytes.readU32 [r0, r1, r2, r3] 0 := rfl
  rw [h0, h4] at htag
  rw [h0] at hfind
  rw [landing]
  simp only [hk, ne_eq, not_true, if_false, htag, hfind]
  rw [if_pos (by simpa using hok)]
  rfl

theorem landing_here (image : Image) {edge : Edge} (value : Bytes) (hk : edge.targetKind ≠ 3) :
    landing image value edge = .at edge value := by
  unfold landing
  simp [hk]

theorem groupFindEdge_case (image : Image) (node : UInt16) (tag : UInt8) :
    image.groupFindEdge 5 node tag = image.findCaseEdge node tag := by
  simp [Image.groupFindEdge, Image.findCaseEdge]

theorem routeDispatch_leaves (h : Cascade image ends own I)
    (he : EnterLeaves image ends own I enter) {edge : Edge} {o : Outcome}
    (hk : edge.targetKind = 3) (hs : I (insert i P) s) (hi : own i)
    (ho : EndsWith ends image o edge (s.flows i).value) :
    Leaves I P (routeDispatch image enter i edge.targetNode o s) := by
  unfold routeDispatch
  simp only
  split
  · exact leaves_report h (by decide) hs
  rename_i hlen
  split
  · exact leaves_report h (by decide) hs
  rename_i htag
  split
  · exact leaves_report h (by decide) hs
  · rename_i next hnext
    have hset := h.rewrite hs hi fun flow => { flow with value := flow.value.drop 8 }
    split
    · exact leaves_report h (by decide) hset
    · rename_i hok
      simp only [setFlow_flows_self, Bool.not_eq_true, Bool.not_eq_false] at hok
      refine he _ _ _ _ _ (Image.mem_of_groupFindEdge hnext).1 hset hi (ho.imp id fun hland => ?_)
      rw [groupFindEdge_case] at hnext
      rw [landing_dispatch hk hlen htag hnext hok] at hland
      simpa using hland

/-- An arrival puts the flow down. -/
theorem arrive_leaves (h : Cascade image ends own I) (he : EnterLeaves image ends own I enter)
    {rounds : Nat} {edge : Edge} {o : Outcome} (hs : I (insert i P) s) (hi : own i)
    (ho : EndsWith ends image o edge (s.flows i).value) :
    Leaves I P (arrive image enter rounds i edge o s) := by
  unfold arrive
  split
  · exact leaves_done h (h.put hs hi (.inr (.inl rfl)))
  split
  · exact enterFork_leaves h he hs hi
  split
  · exact routeDispatch_leaves h he (by assumption) hs hi ho
  rename_i hdispatch
  split
  · exact resolveJoin_leaves h he (h.put hs hi (.inr (.inr rfl)))
  split
  · exact eachStart_leaves h he hs hi
  split
  · exact eachCollect_leaves h he hs hi
  split
  · rename_i hterminal
    have hends : ends o := ho.resolve_right fun hland =>
      hland edge _ (landing_here image _ hdispatch) hterminal
    refine leaves_done h (h.settle P _ i (h.recordTerminal _ s i o hs hi hends) (.inl ?_))
    exact recordTerminal_released s i o
  · exact leaves_report h (by decide) hs

/-- **A cascade keeps every invariant that survives its writes, and puts down what it takes up.** -/
theorem enterEdge_leaves (h : Cascade image ends own I) :
    ∀ bound, EnterLeaves image ends own I (enterEdge image bound) := by
  intro bound
  induction bound with
  | zero => intro P i edge o s _ _ _ _; exact Call.ensures_none
  | succ bound ih =>
      intro P i edge o s _ hs hi ho
      exact arrive_leaves h ih (h.rewrite hs hi _) hi (by simpa [aim] using ho)

end Leaves

/-! ## Invariants that exempt no flow -/

/--
An invariant that survives a cascade no matter what it writes to flows in `own`.
The first three fields say that a cascade never leaves `own`, the others that it
may do there what it likes.
-/
structure Stable (own : FlowIndex → Prop) (I : GroupExecution → Prop) : Prop where
  free : ∀ s i, I s → (s.flows i).active = false → own i
  waiting : ∀ s i, I s → (s.flows i).active = true → (s.flows i).state = .waiting → own i
  coordinator : ∀ s, I s → own s.eachCoordinatorFlow
  setFlow : ∀ s i f, I s → own i → I (s.setFlow i f)
  recordTerminal : ∀ s i o, I s → own i → Routed o → I (s.recordTerminal i o)
  maybeComplete : ∀ s, I s → I s.maybeComplete
  sameButEach : ∀ s t, I s → SameButEach s t → own t.eachCoordinatorFlow → I t

section Keeps

variable {own : FlowIndex → Prop} {I : GroupExecution → Prop} {image : Image}

theorem Stable.cascade (h : Stable own I) : Cascade image Routed own fun _ => I where
  success := .inr rfl
  branch := fun _ _ _ _ => .inl (.inl rfl)
  free := fun _ => h.free
  waiting := fun _ => h.waiting
  coordinator := fun _ s hs _ => h.coordinator s hs
  write := fun _ => h.setFlow
  settle := fun _ _ _ hs _ => hs
  forget := fun _ _ hs => hs
  recordTerminal := fun _ => h.recordTerminal
  maybeComplete := fun _ => h.maybeComplete
  sameButEach := fun _ s t hs hst hc =>
    h.sameButEach s t hs hst (hc.elim id fun hc => hc.1 ▸ h.coordinator s hs)

/-- An arrival keeps the invariant; what the outcome is matters at a terminal and, for the
terminals behind it, at a dispatch. -/
theorem arrive_keeps (h : Stable own I) {bound rounds : Nat} {i : FlowIndex} {edge : Edge}
    {o : Outcome} {s : GroupExecution} (hs : I s) (hi : own i)
    (ho : Routed o ∨ (edge.targetKind ≠ 2 ∧ edge.targetKind ≠ 3)) :
    (arrive image (enterEdge image bound) rounds i edge o s).Keeps I := by
  have hends : EndsWith Routed image o edge (s.flows i).value := by
    refine ho.imp id fun ⟨h2, h3⟩ e v hl => ?_
    rw [landing_here image _ h3] at hl
    cases hl
    exact h2
  exact (arrive_leaves h.cascade (enterEdge_leaves h.cascade bound) (P := ∅) hs hi hends).mono
    fun _ _ hq => hq.1

theorem enterEdge_keeps (h : Stable own I) {bound : Nat} {i : FlowIndex} {edge : Edge}
    {o : Outcome} {s : GroupExecution} (hmem : edge ∈ image.tables.edges) (hs : I s) (hi : own i)
    (ho : Routed o) : (enterEdge image bound i edge o s).Keeps I :=
  (enterEdge_leaves h.cascade bound ∅ i edge o s hmem hs hi (.inl ho)).mono fun _ _ hq => hq.1

end Keeps

/-! ## Landings -/

/-- The flow in front of a node, with the value it has there. -/
def landed (s : GroupExecution) (i : FlowIndex) (edge : Edge) (value : Bytes) : GroupExecution :=
  s.setFlow i fun flow => { flow with
    value
    valueSourceType := edge.sourceType
    valueDestinationType := edge.targetType
    currentNode := edge.targetNode }

theorem aim_eq_landed (s : GroupExecution) (i : FlowIndex) (edge : Edge) :
    s.aim i edge = s.landed i edge (s.flows i).value := by
  simp [aim, landed, setFlow]

/-- How an entry ends, given where the value lands: stuck with the flow in front of a dispatch,
or with the arrival at the landing. -/
def LandsWith (image : Image) (i : FlowIndex) (o : Outcome) (s : GroupExecution)
    (r : RuntimeResult) (s' : GroupExecution) : Landing → Prop
  | .stuck edge value result => r = result ∧ r ≠ .ok ∧ s' = s.landed i edge value
  | .at edge value => edge.targetKind ≠ 3 ∧ ∃ bound,
      arrive image (enterEdge image bound) bound i edge o (s.landed i edge value) = some (r, s')

theorem landsWith_landed {image : Image} {i : FlowIndex} {o : Outcome} {s s' : GroupExecution}
    {r : RuntimeResult} {edge : Edge} {value : Bytes} {l : Landing}
    (h : LandsWith image i o (s.landed i edge value) r s' l) : LandsWith image i o s r s' l := by
  cases l with
  | stuck e v result => simpa [LandsWith, landed] using h
  | «at» e v => simpa [LandsWith, landed] using h

/-- **An entry is the arrival at its landing.** -/
theorem enterEdge_landing {image : Image} {i : FlowIndex} {o : Outcome} :
    ∀ {bound : Nat} {edge : Edge} {s s' : GroupExecution} {r : RuntimeResult},
      enterEdge image bound i edge o s = some (r, s') →
      LandsWith image i o s r s' (landing image (s.flows i).value edge) := by
  intro bound
  induction bound with
  | zero => intro edge s s' r h; cases h
  | succ bound ih =>
      intro edge s s' r h
      rw [enterEdge, aim_eq_landed] at h
      generalize (s.flows i).value = value at h ⊢
      by_cases hk : edge.targetKind = 3
      · have hval : ((s.landed i edge value).flows i).value = value := by simp [landed]
        simp only [arrive, hk, routeDispatch, hval] at h
        unfold landing
        simp only [hk, ne_eq, not_true, if_false]
        split
        · rename_i t0 t1 t2 t3 r0 r1 r2 r3 rest
          have htag : Bytes.readU32 (t0 :: t1 :: t2 :: t3 :: r0 :: r1 :: r2 :: r3 :: rest) 0 =
              Bytes.readU32 [t0, t1, t2, t3] 0 := rfl
          have hres : Bytes.readU32 (t0 :: t1 :: t2 :: t3 :: r0 :: r1 :: r2 :: r3 :: rest) 4 =
              Bytes.readU32 [r0, r1, r2, r3] 0 := rfl
          have hlen : ¬ (t0 :: t1 :: t2 :: t3 :: r0 :: r1 :: r2 :: r3 :: rest).length < 8 := by
            simp only [List.length_cons]; omega
          simp only [htag, hres, hlen, if_false, groupFindEdge_case,
            show ¬ (3 : UInt8) = 1 by decide, show ¬ (3 : UInt8) = 4 by decide, if_true] at h
          split at h
          · rename_i hbad
            obtain ⟨rfl, rfl⟩ := Prod.mk.inj (Option.some.inj h)
            rw [if_pos hbad]
            exact ⟨rfl, by decide, rfl⟩
          · rename_i hbad
            rw [if_neg hbad]
            cases hfind : image.findCaseEdge edge.targetNode
                (Bytes.readU32 [t0, t1, t2, t3] 0).toUInt8 with
            | none =>
                rw [hfind] at h
                obtain ⟨rfl, rfl⟩ := Prod.mk.inj (Option.some.inj h)
                exact ⟨rfl, by decide, rfl⟩
            | some next =>
                rw [hfind] at h
                have hdrop : ((s.landed i edge
                    (t0 :: t1 :: t2 :: t3 :: r0 :: r1 :: r2 :: r3 :: rest)).setFlow i
                    fun flow => { flow with value := flow.value.drop 8 }) =
                    s.landed i edge rest := by
                  simp [landed]
                have hrest : ((s.landed i edge rest).flows i).value = rest := by simp [landed]
                simp only [hdrop, hrest] at h
                by_cases hok : image.validateValue next.sourceType rest = true
                · simp only [hok, not_true, if_false] at h
                  simp only [hok, if_true]
                  have hnext := ih h
                  rw [hrest] at hnext
                  exact landsWith_landed hnext
                · simp only [hok] at h
                  obtain ⟨rfl, rfl⟩ := Prod.mk.inj (Option.some.inj h)
                  simp only [hok]
                  exact ⟨rfl, by decide, rfl⟩
        · rename_i hshort
          have hlen : value.length < 8 := by
            by_contra hge
            rcases value with
              _ | ⟨a, _ | ⟨b, _ | ⟨c, _ | ⟨d, _ | ⟨e, _ | ⟨f, _ | ⟨g, _ | ⟨k, rest⟩⟩⟩⟩⟩⟩⟩⟩
            all_goals first | exact hshort _ _ _ _ _ _ _ _ _ rfl | simp at hge
          simp only [hlen, if_true, show ¬ (3 : UInt8) = 1 by decide,
            show ¬ (3 : UInt8) = 4 by decide, if_false] at h
          obtain ⟨rfl, rfl⟩ := Prod.mk.inj (Option.some.inj h)
          exact ⟨rfl, by decide, rfl⟩
      · have hland : landing image value edge = .at edge value := by
          unfold landing
          simp [hk]
        rw [hland]
        exact ⟨hk, bound, h⟩

theorem arrive_terminal {image : Image} {enter rounds} {i : FlowIndex} {edge : Edge} {o : Outcome}
    {s s' : GroupExecution} {r : RuntimeResult} (hk : edge.targetKind = 2)
    (h : arrive image enter rounds i edge o s = some (r, s')) :
    r = .ok ∧ s' = s.recordTerminal i o := by
  simp only [arrive, hk, show ¬ (2 : UInt8) = 1 by decide, show ¬ (2 : UInt8) = 4 by decide,
    show ¬ (2 : UInt8) = 3 by decide, show ¬ (2 : UInt8) = 5 by decide,
    show ¬ (2 : UInt8) = 6 by decide, show ¬ (2 : UInt8) = 7 by decide, if_false, if_true] at h
  obtain ⟨rfl, rfl⟩ := Prod.mk.inj (Option.some.inj h)
  exact ⟨rfl, rfl⟩

theorem arrive_join (image : Image) (enter rounds) (i : FlowIndex) {edge : Edge} (o : Outcome)
    (s : GroupExecution) (hk : edge.targetKind = 5) :
    arrive image enter rounds i edge o s =
      resolveJoin image enter edge.targetNode (s.setFlow i fun flow => { flow with
        joinNode := edge.targetNode
        joinTag := edge.caseTag
        state := .waiting }) := by
  simp only [arrive, hk, show ¬ (5 : UInt8) = 1 by decide, show ¬ (5 : UInt8) = 4 by decide,
    show ¬ (5 : UInt8) = 3 by decide, if_false, if_true]

theorem arrive_collect (image : Image) (enter rounds) (i : FlowIndex) {edge : Edge} (o : Outcome)
    (s : GroupExecution) (hk : edge.targetKind = 7) :
    arrive image enter rounds i edge o s =
      eachCollect image enter rounds i edge.targetNode.toUInt8 s := by
  simp only [arrive, hk, show ¬ (7 : UInt8) = 1 by decide, show ¬ (7 : UInt8) = 4 by decide,
    show ¬ (7 : UInt8) = 3 by decide, show ¬ (7 : UInt8) = 5 by decide,
    show ¬ (7 : UInt8) = 6 by decide, if_false, if_true]

/-- An edge into a terminal is entered at once. -/
theorem enterEdge_terminal {image : Image} {bound : Nat} {i : FlowIndex} {edge : Edge}
    {o : Outcome} {s s' : GroupExecution} {r : RuntimeResult} (hk : edge.targetKind = 2)
    (h : enterEdge image bound i edge o s = some (r, s')) :
    r = .ok ∧ s' = (s.aim i edge).recordTerminal i o := by
  cases bound with
  | zero => cases h
  | succ bound => exact arrive_terminal hk h

/-- An edge into an action makes the flow ready. -/
theorem enterEdge_action {image : Image} {bound : Nat} {i : FlowIndex} {edge : Edge}
    {o : Outcome} {s s' : GroupExecution} {r : RuntimeResult} (hk : edge.targetKind = 1)
    (h : enterEdge image bound i edge o s = some (r, s')) :
    r = .ok ∧ s' = (s.aim i edge).setFlow i fun flow =>
      { flow with state := .ready, active := true } := by
  cases bound with
  | zero => cases h
  | succ bound =>
      simp only [enterEdge, arrive, hk, if_true] at h
      obtain ⟨rfl, rfl⟩ := Prod.mk.inj (Option.some.inj h)
      exact ⟨rfl, rfl⟩

end GroupExecution

end Hermas
