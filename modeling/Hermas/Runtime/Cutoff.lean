import Hermas.Image.Encode
import Hermas.Runtime.GroupWait

/-!
# The cutoff

A failure deactivates everything that is not out, and the execution is over when
nothing is out any more. Both can be undone by the deliveries that were out: a
result that comes in later is routed on as if nothing had happened. It may stand
in front of an action again, take slots at a fork, admit items, or wait for items
that no longer come.

`settled_reachable` and `cutoff_reachable` say how far the two promises reach:
as long as late results come to rest where no work begins.
-/

namespace Hermas

open Image (Edge)

namespace GroupExecution

/-! ## Where late results may land -/

/-- An entry along the edge ends at nodes of these kinds, through joins only. -/
inductive RestsIn (image : Image) (kinds : UInt8 → Prop) : Edge → Prop
  | here {edge : Edge} : kinds edge.targetKind → RestsIn image kinds edge
  | join {edge : Edge} : edge.targetKind = 5 →
      (∀ field ∈ image.tables.edges, field.sourceKind = 7 → field.sourceNode = edge.targetNode →
        RestsIn image kinds field) → RestsIn image kinds edge

/-- A flow that enters the edge ends there, or waits for branches that have not arrived. -/
def Ends (image : Image) (s : GroupExecution) (i mover : FlowIndex) (edge : Edge) : Prop :=
  RestsIn image (· = 2) edge ∨ (edge.targetKind = 5 ∧ BranchMissing image s i mover edge)

/-- The result of the flow begins no work where it lands. -/
def LandsIdle (image : Image) (s : GroupExecution) (i : FlowIndex) : Landing → Prop
  | .stuck _ _ _ => True
  | .at edge _ => Ends image s i i edge ∨
      (edge.targetKind = 7 ∧ s.eachItemCount ≤ s.eachNextItem ∧
        (s.ItemMissing i ∨ ∃ exit, image.groupFindEdge 9 s.activeEachRegion.toUInt16 0 = some exit ∧
          Ends image s i s.eachCoordinatorFlow exit))

/-- The result of the flow completes the execution if nothing else is out. -/
def LandsClosed (image : Image) (s : GroupExecution) (i : FlowIndex) : Landing → Prop
  | .stuck _ _ _ => True
  | .at edge _ => edge.targetKind = 2 ∨ (edge.targetKind = 5 ∧
      (BranchMissing image s i i edge ∨ RestsIn image (fun kind => kind = 1 ∨ kind = 2) edge))

/-- Results that come in after a failure begin no work. -/
def LateResultIdle (image : Image) (s : GroupExecution) : GroupOp → Prop
  | .acceptResult i result =>
      s.Failed → ∀ l, resultLanding image s i result = some l → LandsIdle image s i l
  | _ => True

/-- Results that come in after a failure complete the execution, unless more are to come. -/
def LateResultCloses (image : Image) (s : GroupExecution) : GroupOp → Prop
  | .acceptResult i result =>
      s.Failed → (∃ j, j ≠ i ∧ j ≠ s.eachCoordinatorFlow ∧ s.Sent j) ∨
        ∀ l, resultLanding image s i result = some l → LandsClosed image s i l
  | _ => True

variable {image : Image} {bound : Nat} {s s' t : GroupExecution} {i : FlowIndex} {edge : Edge}
variable {o : Outcome} {r : RuntimeResult} {value : Bytes}

/-! ## Joins -/

/-- A join whose fields rest succeeds. -/
theorem enterEdge_restsIn_ok (hmem : edge ∈ image.tables.edges)
    (h : RestsIn image (fun kind => kind = 1 ∨ kind = 2) edge) :
    ∀ (bound : Nat) (i : FlowIndex) (o : Outcome) (s : GroupExecution),
      (enterEdge image bound i edge o s).Ensures fun r _ => r = .ok := by
  induction h with
  | here hk =>
      intro bound i o s
      cases bound with
      | zero => exact Call.ensures_none
      | succ bound =>
          rcases hk with hk | hk
          · exact fun r s' h => (enterEdge_action hk h).1
          · exact fun r s' h => (enterEdge_terminal hk h).1
  | @join edge hk _ ih =>
      intro bound i o s
      cases bound with
      | zero => exact Call.ensures_none
      | succ bound =>
          rw [enterEdge, arrive_join _ _ _ _ _ _ hk]
          simp only [resolveJoin, Image.target_join image hmem hk, ne_eq, not_true, if_false]
          split
          · exact Call.ensures_done rfl
          · refine Call.ensures_andThen (Call.each_ok _ (fun branch _ u => ?_) _)
              (fun u _ => Call.ensures_done rfl) fun _ _ hr hok => absurd hok hr
            unfold releaseBranch
            split
            · rename_i field hfield
              obtain ⟨hin, hsource, hnode⟩ := Image.mem_of_groupFindEdge hfield
              exact ih field hin hsource hnode hin bound _ _ u
            · exact Call.ensures_done rfl

/-! ## Progress after a failure -/

/-- A failed execution with nothing out is complete. -/
def Settled (s : GroupExecution) : Prop := s.Failed → (∀ i, ¬ s.Sent i) → s.complete = true

theorem settled_maybeComplete (s : GroupExecution) : s.maybeComplete.Settled := by
  intro hf hn
  have hf : s.Failed := by simpa [Failed] using hf
  have hsent : s.hasSent = false := by
    rw [← Bool.not_eq_true, hasSent_iff]
    rintro ⟨k, hk⟩
    exact hn k (by simpa [Sent] using hk)
  have hne : s.pendingOutcome ≠ .none ∧ s.pendingOutcome ≠ .success := by
    rcases hf with hf | hf | hf <;> rw [hf] <;> decide
  unfold maybeComplete
  split
  · rfl
  · rw [if_pos ⟨hne.1, hne.2, by simp [hsent]⟩]

theorem settled_recordTerminal (s : GroupExecution) (i : FlowIndex) (o : Outcome) :
    (s.recordTerminal i o).Settled := settled_maybeComplete _

theorem settled_resolveJoin {enter : FlowIndex → Edge → Outcome → GroupExecution →
      Call RuntimeResult GroupExecution} {joinNode : UInt16}
    (h : resolveJoin image enter joinNode s = some (.ok, s')) : s'.Settled := by
  have hq : (resolveJoin image enter joinNode s).Ensures
      fun r t => r = RuntimeResult.ok → t.Settled := by
    unfold resolveJoin
    simp only
    split
    · exact Call.ensures_report fun hr => by cases hr
    split
    · exact Call.ensures_done fun _ => settled_maybeComplete _
    · exact Call.ensures_andThen (Q := fun _ _ => True) (fun _ _ _ => trivial)
        (fun t _ => Call.ensures_done fun _ => settled_maybeComplete _)
        fun _ _ hr _ hok => absurd hok hr
  exact hq _ _ h rfl

/-- A late result that lands where it is collected or ends leaves the execution settled. -/
theorem settled_landsWith {l : Landing} (hs : s.Sent i)
    (hl : LandsClosed image s i l) (hmem : ∀ edge value, l = .at edge value →
      edge ∈ image.tables.edges)
    (h : LandsWith image i o s r s' l) : s'.Settled := by
  cases l with
  | stuck e v result =>
      obtain ⟨-, -, rfl⟩ := h
      exact fun _ hn => absurd ⟨by simpa [landed] using hs.1, by simpa [landed] using hs.2⟩ (hn i)
  | «at» e v =>
      obtain ⟨-, bound, harrive⟩ := h
      have he := hmem e v rfl
      rcases hl with hk | ⟨hk, hm | hrest⟩
      · obtain ⟨-, rfl⟩ := arrive_terminal hk harrive
        exact settled_recordTerminal _ _ _
      · obtain ⟨-, rfl⟩ := arrive_branchMissing hk he hm
          (fun k hki => .of_eq (setFlow_flows_of_ne _ _ hki)) harrive
        exact settled_maybeComplete _
      · have hok := enterEdge_restsIn_ok he hrest (bound + 1) i o (s.landed i e v) r s' (by
          rw [enterEdge, aim_eq_landed]
          simpa [landed] using harrive)
        subst hok
        rw [arrive_join _ _ _ _ _ _ hk] at harrive
        exact settled_resolveJoin harrive

theorem resultLanding_mem {result : Frame} {l : Landing}
    (h : resultLanding image s i result = some l) {edge : Edge} {value : Bytes}
    (hl : l = .at edge value) : edge ∈ image.tables.edges := by
  subst hl
  unfold resultLanding at h
  rw [Option.map_eq_some_iff] at h
  obtain ⟨first, hfind, hland⟩ := h
  exact Image.landing_mem (Image.mem_of_groupFindEdge hfind).1 hland

theorem settled_of_notFailed (h : s.pendingOutcome = .none ∨ s.pendingOutcome = .success) :
    s.Settled := by
  intro hf
  rw [failed_iff] at hf
  rcases h with h | h <;> simp [h] at hf

/-- A result in an execution that has not failed leaves it settled: it records a failure at a
terminal or not at all. -/
theorem settled_firstFailure {l : Landing}
    (hn : s.pendingOutcome = .none ∨ s.pendingOutcome = .success)
    (h : LandsWith image i o s r s' l) : s'.Settled := by
  cases l with
  | stuck e v result =>
      obtain ⟨-, -, rfl⟩ := h
      exact settled_of_notFailed hn
  | «at» e v =>
      obtain ⟨hk, bound, harrive⟩ := h
      by_cases hterminal : e.targetKind = 2
      · obtain ⟨-, rfl⟩ := arrive_terminal hterminal harrive
        exact settled_recordTerminal _ _ _
      · have hset : (s.landed i e v).pendingOutcome = .none ∨
            (s.landed i e v).pendingOutcome = .success := hn
        exact settled_of_notFailed (arrive_keeps stable_notFailed hset trivial
          (.inr ⟨hterminal, hk⟩) _ _ harrive)

/-- A delivery that is out elsewhere is still out behind the arrival of a result. -/
theorem sent_landsWith {l : Landing} {j : FlowIndex} (hji : j ≠ i)
    (hj : s.Sent j) (hc : s.eachCoordinatorFlow ≠ j) (ho : o = .success ∨ o = .appError)
    (h : LandsWith image i o s r s' l) : s'.Sent j := by
  have hkeep := landsWith_keeps (stable_sent j (s.flows j) hj.1 hj.2) hji.symm
    (fun t ht => ⟨?_, by rw [recordTerminal_coordinator]; exact ht.2⟩) ho ⟨rfl, hc⟩ h
  · unfold Sent
    rw [hkeep.1]
    exact hj
  · rw [recordTerminal_sent t hji ⟨by rw [ht.1]; exact hj.1, by rw [ht.1]; exact hj.2⟩]
    exact ht.1

/-- **A step keeps the execution settled**, if late results close it. -/
theorem settled_performs {op : GroupOp} (hout : s.pendingOutcome ≠ .protocolError)
    (hs : s.Settled) (hc : LateResultCloses image s op) (hop : Performs image s op s') :
    s'.Settled := by
  have hclose : ∀ (s : GroupExecution) (i : FlowIndex) (o : Outcome) (s' : GroupExecution),
      s.Closes i o s' → s'.Settled := by
    rintro s i o s' ⟨f, -, -, rfl⟩
    exact settled_recordTerminal _ _ _
  cases op with
  | prepare i =>
      rcases performs_prepare hop with rfl | ⟨frame, hp⟩
      · exact hs
      · obtain ⟨-, -, hst, -, rfl⟩ := prepare_ok hp
        intro hf hn
        refine hs hf fun k hk => hn k ?_
        have hki : k ≠ i := by
          rintro rfl
          rw [hk.2] at hst
          cases hst
        simpa [Sent, setFlow, hki] using hk
  | markSent i =>
      rcases performs_markSent hop with rfl | hm
      · exact hs
      · obtain ⟨ha, -, rfl⟩ := markSent_ok hm
        exact fun _ hn => absurd ⟨by simpa using ha, by simp⟩ (hn i)
  | markNotSent i =>
      obtain ⟨bound, r, hcall⟩ := hop
      rcases deliveryOutcome_cases (.inl rfl) hcall with ⟨-, rfl⟩ | ⟨-, -, -, hcl⟩
      · exact hs
      · exact hclose _ _ _ _ hcl
  | markUnknown i =>
      obtain ⟨bound, r, hcall⟩ := hop
      rcases deliveryOutcome_cases (.inr rfl) hcall with ⟨-, rfl⟩ | ⟨-, -, -, hcl⟩
      · exact hs
      · exact hclose _ _ _ _ hcl
  | acceptResult i result =>
      obtain ⟨bound, r, hcall⟩ := hop
      rcases acceptResult_cases hcall with ⟨-, rfl⟩ | ⟨hsent, ho, l, hl, hlands⟩
      · exact hs
      by_cases hf : s.Failed
      · rcases hc hf with ⟨j, hji, hcj, hj⟩ | hall
        · exact fun _ hn => absurd (sent_landsWith hji hj (Ne.symm hcj) ho hlands) (hn j)
        · exact settled_landsWith hsent (hall l hl) (fun _ _ => resultLanding_mem hl) hlands
      · exact settled_firstFailure ((not_failed_iff s hout).mp hf) hlands
  | expireRegion regionId =>
      obtain ⟨bound, r, hcall⟩ := hop
      exact expireRegion_keeps (fun s i o s' _ _ _ hcl => hclose s i o s' hcl) hs hcall

/--
**Progress after a failure.** In every run whose late results close the execution
or leave another delivery out, a failed execution with nothing out is complete.
-/
theorem settled_reachable (h : (system image).ReachWhere (LateResultCloses image) s) :
    s.Failed → (∀ i, ¬ s.Sent i) → s.complete = true := by
  refine System.ReachWhere.invariant_with (P := Settled) (fun _ h => pendingOutcome_reachable h)
    (fun s hs => settled_of_notFailed (starts_not_failed hs)) ?_ h
  intro s op s' hout hs hc hop
  exact settled_performs hout hs hc hop

/-! ## A fork whose branches meet again -/

/-- `a` and `b` run side by side, `c` follows `a`, and the join waits for `c` and `b`. -/
def forkJoinLayout : Image.Layout where
  errors := [1]
  contracts := [.of 1, .of 2, .of 3]
  types := [Image.boolType]
  nodes := [⟨4, 2, 1, 0, 0⟩, .action1 1, .action1 2, .action1 3, ⟨5, 2, 0, 0, 0⟩,
    .terminal 1, .terminal 2, .terminal 3, .terminal 4]
  edges := [.wire 0 0 4 1, .wire 6 1 1 2 0, .wire 6 1 1 3 1,
    .wire 1 2 1 4, .wire 2 2 2 7, .bare 3 2 8, .bare 4 2 9,
    .wire 1 3 5 5 1, .wire 2 3 2 7, .bare 3 3 8, .bare 4 3 9,
    .wire 1 4 5 5 0, .wire 2 4 2 7, .bare 3 4 8, .bare 4 4 9,
    .wire 7 5 2 6 0]

set_option maxRecDepth 20000 in
theorem forkJoin_valid : (Image.imageValidate forkJoinLayout.encode).toOption.isSome = true := by
  decide +kernel

def forkJoin : Image := forkJoinLayout.image forkJoin_valid

/-- The answer of an app to a delivery of execution 1. -/
def boolResult (requestId : UInt64) (actionId : UInt16) (outcome : Outcome)
    (value : UInt8 := 1) : Frame :=
  { kind := .result, executionId := 1, requestId, appId := 1, actionId
    sourceType := 1, destinationType := 1, outcome, payload := [value] }

/-- Both branches are out and `b` fails. -/
def firstFailure : List GroupOp :=
  [.prepare 0, .prepare 1, .markSent 0, .markSent 1, .acceptResult 1 (boolResult 2 2 .appError)]

/-- A run of the fork in which every call meets the check. -/
def forkJoinRun (check : GroupExecution → GroupOp → Bool) (ops : List GroupOp) :
    Option GroupExecution :=
  runFrom forkJoin check 20 ops 1 64 8 1 [1]

/-- The result is not late, or enters a terminal. -/
def endsAtOnce (s : GroupExecution) : GroupOp → Bool
  | .acceptResult i result => !decide s.Failed ||
      match resultLanding forkJoin s i result with
      | some (.at edge _) => edge.targetKind == 2
      | _ => true
  | _ => true

theorem landsAtOnce {result : Frame} (hcheck : endsAtOnce s (.acceptResult i result) = true)
    (hf : s.Failed) {l : Landing} (hl : resultLanding forkJoin s i result = some l) :
    (∃ e v res, l = .stuck e v res) ∨ ∃ e v, l = .at e v ∧ e.targetKind = 2 := by
  simp only [endsAtOnce, hf, decide_true, Bool.not_true, Bool.false_or, hl] at hcheck
  cases l with
  | stuck e v res => exact .inl ⟨e, v, res, rfl⟩
  | «at» e v => exact .inr ⟨e, v, rfl, by simpa using hcheck⟩

theorem lateResultCloses_of_endsAtOnce (op : GroupOp) (hcheck : endsAtOnce s op = true) :
    LateResultCloses forkJoin s op := by
  cases op with
  | acceptResult i result =>
      intro hf
      refine .inr fun l hl => ?_
      rcases landsAtOnce hcheck hf hl with ⟨e, v, res, rfl⟩ | ⟨e, v, rfl, hk⟩
      · exact trivial
      · exact .inl hk
  | _ => exact trivial

set_option maxRecDepth 20000 in
/-- When `a` fails as well, the execution is over. -/
theorem settled_reachable_forkJoin :
    ∃ s : GroupExecution, s.Failed ∧ (∀ i, ¬ s.Sent i) ∧ s.complete = true := by
  obtain ⟨s, hs⟩ : ∃ s, forkJoinRun endsAtOnce
      (firstFailure ++ [.acceptResult 0 (boolResult 1 1 .appError)]) = some s :=
    Option.isSome_iff_exists.mp (by decide +kernel)
  have hobs : (forkJoinRun endsAtOnce (firstFailure ++
      [.acceptResult 0 (boolResult 1 1 .appError)])).all
      (fun s => decide (s.Failed ∧ s.hasSent = false)) = true := by decide +kernel
  rw [hs, Option.all_some, decide_eq_true_eq] at hobs
  have hn : ∀ i, ¬ s.Sent i := fun i hi => by
    have := (hasSent_iff s).mpr ⟨i, hi⟩
    rw [hobs.2] at this
    cases this
  exact ⟨s, hobs.1, hn, settled_reachable
    (reachWhere_runFrom forkJoin (fun _ => lateResultCloses_of_endsAtOnce) hs) hobs.1 hn⟩

set_option maxRecDepth 20000 in
/-- When `a` succeeds, `c` is ready and the execution goes on with nothing out. -/
theorem not_settled_forkJoin : ∃ s, (system forkJoin).Reach s ∧
    s.Failed ∧ (∀ i, ¬ s.Sent i) ∧ s.complete = false := by
  obtain ⟨s, hs⟩ : ∃ s, forkJoinRun (fun _ _ => true)
      (firstFailure ++ [.acceptResult 0 (boolResult 1 1 .success)]) = some s :=
    Option.isSome_iff_exists.mp (by decide +kernel)
  have hobs : (forkJoinRun (fun _ _ => true) (firstFailure ++
      [.acceptResult 0 (boolResult 1 1 .success)])).all
      (fun s => decide (s.Failed ∧ s.hasSent = false ∧ s.complete = false)) = true := by
    decide +kernel
  rw [hs, Option.all_some, decide_eq_true_eq] at hobs
  refine ⟨s, reachWhere_runFrom forkJoin (fun _ _ _ => trivial) hs, hobs.1, fun i hi => ?_,
    hobs.2.2⟩
  have := (hasSent_iff s).mpr ⟨i, hi⟩
  rw [hobs.2.1] at this
  cases this

/-! ## No new work -/

/-- The flow is inactive, or waits, or has the delivery that was out in `base`. -/
def WithinAt (base s : GroupExecution) (k : FlowIndex) : Prop :=
  (s.flows k).active = true → (s.flows k).state = .waiting ∨
    ((s.flows k).state = .sent ∧ base.Sent k ∧
      (s.flows k).requestId = (base.flows k).requestId)

def Within (base s : GroupExecution) : Prop := ∀ k, WithinAt base s k

/-- Nothing is active but what is out or waits. -/
def Quiet (s : GroupExecution) : Prop :=
  ∀ k, (s.flows k).active = true → (s.flows k).state = .waiting ∨ (s.flows k).state = .sent

theorem Quiet.within (h : s.Quiet) : Within s s := fun k ha =>
  (h k ha).imp id fun hst => ⟨hst, ⟨ha, hst⟩, rfl⟩

theorem Within.quiet {base : GroupExecution} (h : Within base s) : s.Quiet := fun k ha =>
  (h k ha).imp id fun hs => hs.1

theorem Within.trans {base : GroupExecution} (h : Within base s) (h' : Within s t) :
    Within base t := by
  intro k ha
  rcases h' k ha with hw | ⟨hst, hsent, hid⟩
  · exact .inl hw
  · rcases h k hsent.1 with hw | ⟨-, hbase, hid'⟩
    · rw [hsent.2] at hw; cases hw
    · exact .inr ⟨hst, hbase, hid.trans hid'⟩

section Within

variable {base : GroupExecution}

theorem withinAt_congr {k : FlowIndex} (h : WithinAt base s k)
    (ha : (t.flows k).active = true → (s.flows k).active = true)
    (hst : (t.flows k).state = (s.flows k).state)
    (hid : (t.flows k).requestId = (s.flows k).requestId) : WithinAt base t k := by
  intro hact
  rw [hst, hid]
  exact h (ha hact)

theorem withinAt_same {k : FlowIndex} (h : WithinAt base s k) (hk : t.flows k = s.flows k) :
    WithinAt base t k :=
  withinAt_congr h (by rw [hk]; exact id) (by rw [hk]) (by rw [hk])

theorem within_maybeComplete (h : Within base s) : Within base s.maybeComplete :=
  fun k => withinAt_same (h k) (by rw [maybeComplete_flows])

/-- A flow that ends is no longer active, whatever it was. -/
theorem within_recordTerminal (h : ∀ k, k ≠ i → WithinAt base s k) :
    Within base (s.recordTerminal i o) := by
  intro k
  by_cases hk : k = i
  · subst hk
    intro ha
    rw [recordTerminal_flows, if_pos (.inl rfl)] at ha
    cases ha
  · refine withinAt_congr (h k hk) ?_ ?_ ?_ <;> rw [recordTerminal_flows] <;> split_ifs <;>
      simp [Flow.released]

/-- A flow that waits is no work, whatever it was. -/
theorem within_wait (h : ∀ k, k ≠ i → WithinAt base s k) (f : Flow → Flow)
    (hf : ∀ flow, (f flow).state = .waiting ∨ (f flow).active = false) :
    Within base (s.setFlow i f) := by
  intro k
  by_cases hk : k = i
  · subst hk
    intro ha
    rw [setFlow_flows_self] at ha ⊢
    rcases hf (s.flows k) with hw | hn
    · exact .inl hw
    · rw [hn] at ha; cases ha
  · exact withinAt_same (h k hk) (setFlow_flows_of_ne _ _ hk)

/-- An entry that rests at terminals begins no work. -/
theorem enterEdge_restsIn_within (h : RestsIn image (· = 2) edge) :
    ∀ (bound : Nat) (i : FlowIndex) (o : Outcome) (s : GroupExecution),
      (∀ k, k ≠ i → WithinAt base s k) →
      (enterEdge image bound i edge o s).Keeps (Within base) := by
  induction h with
  | here hk =>
      intro bound i o s hs r s' h
      obtain ⟨-, rfl⟩ := enterEdge_terminal hk h
      exact within_recordTerminal fun k hki =>
        withinAt_same (hs k hki) (setFlow_flows_of_ne _ _ hki)
  | @join edge hk _ ih =>
      intro bound i o s hs
      cases bound with
      | zero => exact Call.ensures_none
      | succ bound =>
          rw [enterEdge, arrive_join _ _ _ _ _ _ hk]
          simp only [resolveJoin]
          have hwait : Within base ((s.aim i edge).setFlow i fun flow => { flow with
              joinNode := edge.targetNode
              joinTag := edge.caseTag
              state := .waiting }) :=
            within_wait (fun k hki => withinAt_same (hs k hki) (setFlow_flows_of_ne _ _ hki)) _
              fun _ => .inl rfl
          split
          · exact Call.keeps_report hwait
          split
          · exact Call.keeps_done (within_maybeComplete hwait)
          · refine Call.keeps_andThen (Call.keeps_each _ (fun branch _ u hu => ?_) _ hwait)
              fun u hu => Call.keeps_done (within_maybeComplete hu)
            unfold releaseBranch
            split
            · rename_i field hfield
              obtain ⟨hin, hsource, hnode⟩ := Image.mem_of_groupFindEdge hfield
              exact ih field hin hsource hnode bound _ _ u fun k _ => hu k
            · exact Call.keeps_done (within_wait (fun k _ => hu k) _ fun _ => .inr rfl)

/-- A flow that ends where it enters, or finds a branch missing, begins no work. -/
theorem arrive_ends_within {mover : FlowIndex} (hmem : edge ∈ image.tables.edges)
    (he : Ends image s i mover edge)
    (hflows : ∀ k, k ≠ mover → (t.flows k).active = true → (t.flows k).state = .waiting →
      StillWaits s i t k)
    (ht : ∀ k, k ≠ mover → WithinAt base t k) :
    (enterEdge image bound mover edge o t).Keeps (Within base) := by
  intro r s' h
  rcases he with hrest | ⟨hk, hm⟩
  · exact enterEdge_restsIn_within hrest bound mover o t ht r s' h
  · cases bound with
    | zero => cases h
    | succ bound =>
        rw [enterEdge] at h
        have haim : ∀ k, k ≠ mover → (t.aim mover edge).flows k = t.flows k :=
          fun k hkm => setFlow_flows_of_ne _ _ hkm
        obtain ⟨-, rfl⟩ := arrive_branchMissing hk hmem hm
          (fun k hkm ha hst => by
            rw [haim k hkm] at ha hst
            exact (hflows k hkm ha hst).congr (haim k hkm)) h
        exact within_maybeComplete (within_wait
          (fun k hkm => withinAt_same (ht k hkm) (haim k hkm)) _ fun _ => .inl rfl)

/-- Handing the collection on begins no work if it ends behind the region. -/
theorem eachFinish_within {exit : Edge} (hmem : exit ∈ image.tables.edges)
    (hexit : image.groupFindEdge 9 t.activeEachRegion.toUInt16 0 = some exit)
    (he : Ends image s i t.eachCoordinatorFlow exit)
    (hflows : ∀ k, (t.flows k).active = true → (t.flows k).state = .waiting →
      StillWaits s i t k)
    (ht : Within base t) :
    (eachFinish image (enterEdge image bound) t).Keeps (Within base) := by
  have hsame : ∀ f, (∀ flow, (f flow).active = flow.active) → (∀ flow, (f flow).state = flow.state) →
      (∀ flow, (f flow).requestId = flow.requestId) →
      Within base (t.setFlow t.eachCoordinatorFlow f) := by
    intro f ha hst hid k
    by_cases hk : k = t.eachCoordinatorFlow
    · subst hk
      exact withinAt_congr (ht _) (by simp [ha]) (by simp [hst]) (by simp [hid])
    · exact withinAt_same (ht k) (setFlow_flows_of_ne _ _ hk)
  unfold eachFinish
  simp only
  split
  · exact Call.keeps_report ht
  · unfold copyValue
    split
    · intro r u hu
      simp only [Call.report, Call.andThen, Status.ok, show ¬ RuntimeResult.bufferTooSmall = .ok by
        decide, if_false] at hu
      obtain ⟨-, rfl⟩ := Prod.mk.inj (Option.some.inj hu)
      exact ht
    · rw [Call.andThen_done]
      split
      · exact Call.keeps_report (hsame _ (fun _ => rfl) (fun _ => rfl) fun _ => rfl)
      · rw [hexit]
        refine arrive_ends_within hmem he (fun k hk ha hst => ?_) fun k hk => ?_
        · have hkt : ∀ f, (t.setFlow t.eachCoordinatorFlow f).flows k = t.flows k :=
            fun f => setFlow_flows_of_ne _ _ hk
          simp only [setFlow_setFlow, hkt] at ha hst
          exact (hflows k ha hst).congr (by simp only [setFlow_setFlow, hkt])
        · exact withinAt_same (ht k) (by simp [setFlow, hk])

/-- Collecting an item begins no work once all items are admitted. -/
theorem eachCollect_within {rounds : Nat} {regionId : UInt8} (ht : Within base t)
    (hadmitted : t.eachItemCount ≤ t.eachNextItem)
    (hrest : t.ItemMissing i ∨ ∃ exit, image.groupFindEdge 9 t.activeEachRegion.toUInt16 0 =
      some exit ∧ Ends image t i t.eachCoordinatorFlow exit) :
    (eachCollect image (enterEdge image bound) rounds i regionId t).Keeps (Within base) := by
  have hwithin : ∀ v, Collected t i v → Within base v := by
    intro v hv k ha
    rcases hv.cases k with hk | ⟨rfl, hst⟩ | hk
    · exact withinAt_same (ht k) hk ha
    · exact .inl hst
    · rw [hk] at ha; cases ha
  intro r s' h
  rcases eachCollect_cases h with ⟨-, rfl⟩ | ⟨v, hv, hend⟩
  · exact ht
  rcases hend with ⟨-, rfl⟩ | ⟨hdone, hfinish⟩ | hadm
  · exact hwithin _ hv
  · rcases hrest with hmiss | ⟨exit, hexit, hends⟩
    · exact absurd hdone (hv.not_done hmiss)
    · refine eachFinish_within (Image.mem_of_groupFindEdge hexit).1 ?_ ?_
        (fun k => hv.stillWaits k) (hwithin v hv) r s' hfinish
      · rw [hv.region]; exact hexit
      · rw [hv.coordinator]; exact hends
  · exact hv.admit_admitted hadmitted hadm ▸ hwithin v hv

end Within

/-- **A late result that lands idle begins no work.** -/
theorem landsIdle_within {l : Landing} (hs : s.Sent i) (hq : s.Quiet)
    (hl : LandsIdle image s i l)
    (hmem : ∀ edge value, l = .at edge value → edge ∈ image.tables.edges)
    (h : LandsWith image i o s r s' l) : Within s s' := by
  have hland : ∀ (e : Edge) (v : Bytes), Within s (s.landed i e v) := by
    intro e v k
    by_cases hk : k = i
    · subst hk
      exact withinAt_congr (hq.within k) (by simp [landed]) (by simp [landed]) (by simp [landed])
    · exact withinAt_same (hq.within k) (setFlow_flows_of_ne _ _ hk)
  cases l with
  | stuck e v result =>
      obtain ⟨-, -, rfl⟩ := h
      exact hland e v
  | «at» e v =>
      obtain ⟨-, bound, harrive⟩ := h
      have hothers : ∀ k, k ≠ i → (s.landed i e v).flows k = s.flows k :=
        fun k hk => setFlow_flows_of_ne _ _ hk
      rcases hl with hends | ⟨hk, hadmitted, hrest⟩
      · have hkeep : (enterEdge image (bound + 1) i e o (s.landed i e v)).Keeps (Within s) :=
          arrive_ends_within (hmem e v rfl) hends
            (fun k hk ha hst => .of_eq (hothers k hk) ha hst) fun k _ => hland e v k
        refine hkeep r s' ?_
        rw [enterEdge, aim_eq_landed]
        simpa [landed] using harrive
      · rw [arrive_collect _ _ _ _ _ _ hk] at harrive
        refine eachCollect_within (hland e v) hadmitted ?_ r s' harrive
        rcases hrest with hmiss | ⟨exit, hexit, hends⟩
        · exact .inl ((itemMissing_landed _ _).mpr hmiss)
        · refine .inr ⟨exit, hexit, ?_⟩
          rcases hends with hk | ⟨hkind, hm⟩
          · exact .inl hk
          · exact .inr ⟨hkind, (branchMissing_landed _ _).mpr hm⟩

/-! ## The cutoff -/

/-- What holds behind a failure: nothing is active but what was out when it was recorded or
waits, and an outcome that changed has cost one of those deliveries. -/
structure CutOffSince (base s : GroupExecution) : Prop where
  failed : s.Failed
  within : Within base s
  decided : s.pendingOutcome ≠ base.pendingOutcome → ∃ k, base.Sent k ∧ ¬ s.Sent k

theorem failed_recordTerminal (h : s.Failed) (ho : o ≠ .protocolError) :
    (s.recordTerminal i o).Failed := by
  unfold Failed at h ⊢
  rw [recordTerminal_pendingOutcome]
  split_ifs with hp
  · rcases h with h | h | h <;> rw [h] at hp <;> cases o <;>
      simp_all [Outcome.IsFailure, Outcome.precedence]
  · exact h

/-- Ending a flow behind a failure changes the outcome only if its delivery was out. -/
theorem cutOff_closes (hq : s.Quiet) (hf : s.Failed) (ho : o = .notSent ∨ o = .unknown ∨
      o = .success ∨ o = .appError) (hsent : o ≠ .notSent → o ≠ .success → s.Sent i)
    (hc : s.Closes i o s') : CutOffSince s s' := by
  obtain ⟨f, hact, hst, rfl⟩ := hc
  have hflows : ∀ k, k ≠ i → (s.setFlow i f).flows k = s.flows k :=
    fun k hk => setFlow_flows_of_ne _ _ hk
  refine ⟨failed_recordTerminal hf (by rcases ho with rfl | rfl | rfl | rfl <;> decide),
    within_recordTerminal fun k hk => withinAt_same (hq.within k) (hflows k hk), fun hne => ?_⟩
  rw [recordTerminal_pendingOutcome] at hne
  have hraise : s.pendingOutcome.precedence < o.precedence := by
    by_contra hle
    rw [if_neg (by simpa [setFlow] using hle)] at hne
    exact hne rfl
  have hne1 : o ≠ .notSent := by
    rintro rfl
    rcases hf with hf | hf | hf <;> rw [hf] at hraise <;> exact absurd hraise (by decide)
  have hne2 : o ≠ .success := by
    rintro rfl
    rcases hf with hf | hf | hf <;> rw [hf] at hraise <;> exact absurd hraise (by decide)
  refine ⟨i, hsent hne1 hne2, fun hsent' => ?_⟩
  have := hsent'.1
  rw [recordTerminal_flows, if_pos (.inl rfl)] at this
  cases this

theorem CutOffSince.refl (hq : s.Quiet) (hf : s.Failed) : CutOffSince s s :=
  ⟨hf, hq.within, fun h => absurd rfl h⟩

theorem CutOffSince.trans {base : GroupExecution} (h : CutOffSince base s)
    (h' : CutOffSince s t) : CutOffSince base t where
  failed := h'.failed
  within := h.within.trans h'.within
  decided hne := by
    have hback : ∀ {a b : GroupExecution} {k : FlowIndex}, Within a b → b.Sent k → a.Sent k := by
      intro a b k hw hk
      rcases hw k hk.1 with hst | hst
      · rw [hk.2] at hst; cases hst
      · exact hst.2.1
    by_cases hs : s.pendingOutcome = base.pendingOutcome
    · obtain ⟨k, hk, hnk⟩ := h'.decided (by rw [hs]; exact hne)
      exact ⟨k, hback h.within hk, hnk⟩
    · obtain ⟨k, hk, hnk⟩ := h.decided hs
      exact ⟨k, hk, fun htk => hnk (hback h'.within htk)⟩

theorem quiet_recordTerminal (ho : o ≠ .success) : (s.recordTerminal i o).Quiet := by
  intro k hk
  obtain ⟨-, hsent, hsame⟩ := recordTerminal_active ho hk
  exact .inr (by rw [hsame]; exact hsent.2)

/-- A late result that lands idle costs its delivery if it changes the outcome. -/
theorem cutOff_landsWith {l : Landing} (hs : s.Sent i) (hq : s.Quiet) (hf : s.Failed)
    (ho : o = .success ∨ o = .appError) (hl : LandsIdle image s i l)
    (hmem : ∀ edge value, l = .at edge value → edge ∈ image.tables.edges)
    (h : LandsWith image i o s r s' l) : CutOffSince s s' := by
  have hwithin := landsIdle_within hs hq hl hmem h
  have hsame : s'.pendingOutcome = s.pendingOutcome → CutOffSince s s' := fun heq =>
    ⟨by unfold Failed; rw [heq]; exact hf, hwithin, fun hne => absurd heq hne⟩
  cases l with
  | stuck e v result =>
      obtain ⟨-, -, rfl⟩ := h
      exact hsame rfl
  | «at» e v =>
      obtain ⟨hk, bound, harrive⟩ := h
      by_cases hterminal : e.targetKind = 2
      · obtain ⟨-, rfl⟩ := arrive_terminal hterminal harrive
        have hcloses : s.Closes i o ((s.landed i e v).recordTerminal i o) := ⟨fun flow => { flow with
          value := v
          valueSourceType := e.sourceType
          valueDestinationType := e.targetType
          currentNode := e.targetNode }, fun _ => rfl, fun _ => rfl, rfl⟩
        exact cutOff_closes hq hf (.inr (.inr ho)) (fun _ _ => hs) hcloses
      · have hset : (s.landed i e v).pendingOutcome = s.pendingOutcome := rfl
        exact hsame (arrive_keeps (stable_failed hf) hset trivial (.inr ⟨hterminal, hk⟩) _ _
          harrive)

/-- **A step behind a failure begins no work**, if late results begin none. -/
theorem cutOff_performs {op : GroupOp} (hq : s.Quiet) (hf : s.Failed)
    (hc : LateResultIdle image s op) (hop : Performs image s op s') : CutOffSince s s' := by
  have hrefl := CutOffSince.refl hq hf
  have hnone : ∀ {k : FlowIndex} {st : ExecutionState}, (s.flows k).active = true →
      (s.flows k).state = st → st = .ready ∨ st = .prepared → False := by
    intro k st ha hst h
    rcases h with rfl | rfl <;> rcases hq k ha with hk | hk <;> rw [hk] at hst <;> cases hst
  cases op with
  | prepare i =>
      rcases performs_prepare hop with rfl | ⟨frame, hp⟩
      · exact hrefl
      · obtain ⟨-, ha, hst, -, -⟩ := prepare_ok hp
        exact (hnone ha hst (.inl rfl)).elim
  | markSent i =>
      rcases performs_markSent hop with rfl | hm
      · exact hrefl
      · obtain ⟨ha, hst, -⟩ := markSent_ok hm
        exact (hnone ha hst (.inr rfl)).elim
  | markNotSent i =>
      obtain ⟨bound, r, hcall⟩ := hop
      rcases deliveryOutcome_cases (.inl rfl) hcall with ⟨-, rfl⟩ | ⟨-, ha, hst, -⟩
      · exact hrefl
      · exact (hnone ha hst (.inr rfl)).elim
  | markUnknown i =>
      obtain ⟨bound, r, hcall⟩ := hop
      rcases deliveryOutcome_cases (.inr rfl) hcall with ⟨-, rfl⟩ | ⟨-, ha, hst, hcl⟩
      · exact hrefl
      · exact cutOff_closes hq hf (by simp) (fun _ _ => ⟨ha, hst⟩) hcl
  | acceptResult i result =>
      obtain ⟨bound, r, hcall⟩ := hop
      rcases acceptResult_cases hcall with ⟨-, rfl⟩ | ⟨hsent, ho, l, hl, hlands⟩
      · exact hrefl
      · exact cutOff_landsWith hsent hq hf ho (hc hf l hl) (fun _ _ => resultLanding_mem hl) hlands
  | expireRegion regionId =>
      obtain ⟨bound, r, hcall⟩ := hop
      refine expireRegion_keeps (I := CutOffSince s) (fun t i o t' ht ha ho hcl => ?_) hrefl hcall
      refine ht.trans (cutOff_closes ht.within.quiet ht.failed ?_ ?_ hcl)
      · rcases ho with ⟨rfl, -⟩ | ⟨rfl, -⟩ <;> simp
      · intro hne _
        rcases ho with ⟨-, hst⟩ | ⟨rfl, -⟩
        · exact ⟨ha, hst⟩
        · exact absurd rfl hne

/-- A step that records the first failure leaves nothing active but what is out. -/
theorem quiet_performs {op : GroupOp} (hn : s.pendingOutcome = .none ∨ s.pendingOutcome = .success)
    (hop : Performs image s op s') (hf : s'.Failed) : s'.Quiet := by
  have hnot : ∀ {t : GroupExecution}, t.Failed →
      t.pendingOutcome = .none ∨ t.pendingOutcome = .success → t.Quiet := by
    intro t ht h
    rw [failed_iff] at ht
    rcases h with h | h <;> simp [h] at ht
  have hclose : ∀ {s : GroupExecution} {i : FlowIndex} {o : Outcome} {s' : GroupExecution},
      o = .unknown ∨ o = .notSent → s.Closes i o s' → s'.Quiet := by
    rintro s i o s' ho ⟨f, -, -, rfl⟩
    exact quiet_recordTerminal (by rcases ho with rfl | rfl <;> decide)
  cases op with
  | prepare i =>
      rcases performs_prepare hop with rfl | ⟨frame, hp⟩
      · exact hnot hf hn
      · obtain ⟨-, -, -, -, rfl⟩ := prepare_ok hp
        exact hnot hf hn
  | markSent i =>
      rcases performs_markSent hop with rfl | hm
      · exact hnot hf hn
      · obtain ⟨-, -, rfl⟩ := markSent_ok hm
        exact hnot hf hn
  | markNotSent i =>
      obtain ⟨bound, r, hcall⟩ := hop
      rcases deliveryOutcome_cases (.inl rfl) hcall with ⟨-, rfl⟩ | ⟨-, -, -, hcl⟩
      · exact hnot hf hn
      · exact hclose (.inr rfl) hcl
  | markUnknown i =>
      obtain ⟨bound, r, hcall⟩ := hop
      rcases deliveryOutcome_cases (.inr rfl) hcall with ⟨-, rfl⟩ | ⟨-, -, -, hcl⟩
      · exact hnot hf hn
      · exact hclose (.inl rfl) hcl
  | acceptResult i result =>
      obtain ⟨bound, r, hcall⟩ := hop
      rcases acceptResult_cases hcall with ⟨-, rfl⟩ | ⟨-, ho, l, -, hlands⟩
      · exact hnot hf hn
      cases l with
      | stuck e v res =>
          obtain ⟨-, -, rfl⟩ := hlands
          exact hnot hf hn
      | «at» e v =>
          obtain ⟨hk, bound, harrive⟩ := hlands
          have hset : (s.landed i e v).pendingOutcome = .none ∨
              (s.landed i e v).pendingOutcome = .success := hn
          by_cases hterminal : e.targetKind = 2
          · obtain ⟨-, rfl⟩ := arrive_terminal hterminal harrive
            rcases ho with ho | ho
            · rw [ho] at hf
              exact absurd (stable_notFailed.recordTerminal _ i .success hset trivial (.inr rfl))
                (by rw [failed_iff] at hf; rintro (h | h) <;> simp [h] at hf)
            · exact quiet_recordTerminal (by rw [ho]; decide)
          · exact hnot hf (arrive_keeps stable_notFailed hset trivial (.inr ⟨hterminal, hk⟩) _ _
              harrive)
  | expireRegion regionId =>
      obtain ⟨bound, r, hcall⟩ := hop
      refine expireRegion_keeps (I := fun t => t.Failed → t.Quiet) ?_ (fun h => hnot h hn) hcall hf
      intro s i o s' _ _ ho hcl _
      exact hclose (ho.imp (·.1) (·.1)) hcl

/-- Behind a failure nothing is active but what is out or waits. -/
theorem quiet_reachable (h : (system image).ReachWhere (LateResultIdle image) s) :
    s.Failed → s.Quiet := by
  refine System.ReachWhere.invariant_with (P := fun s => s.Failed → s.Quiet)
    (fun _ h => pendingOutcome_reachable h) (fun s hs hf => ?_) ?_ h
  · have hn := starts_not_failed hs
    rw [failed_iff] at hf
    rcases hn with hn | hn <;> simp [hn] at hf
  · intro s op s' hout hq hc hop hf
    by_cases hfs : s.Failed
    · exact (cutOff_performs (hq hfs) hfs hc hop).within.quiet
    · exact quiet_performs ((not_failed_iff s hout).mp hfs) hop hf

/--
**The unsent cutoff.** In every run whose late results begin no work, once a
failure is recorded no flow can be prepared any more, the deliveries that are out
are among those that were out then, and an outcome that still changes has cost
one of them.
-/
theorem cutoff_reachable (hs : (system image).ReachWhere (LateResultIdle image) s)
    (hf : s.Failed) (hrun : ((system image).startingAt s).ReachWhere (LateResultIdle image) s') :
    (∀ i, ∃ e, s'.prepare image i = .error e) ∧
      (∀ i, s'.Sent i → s.Sent i ∧ (s'.flows i).requestId = (s.flows i).requestId) ∧
      (s'.pendingOutcome ≠ s.pendingOutcome → ∃ i, s.Sent i ∧ ¬ s'.Sent i) := by
  have hq := quiet_reachable hs hf
  have hsince : CutOffSince s s' := by
    refine hrun.invariant (P := CutOffSince s) (fun t ht => ?_) fun t op t' ht hc hop => ?_
    · obtain rfl : t = s := ht
      exact .refl hq hf
    · exact ht.trans (cutOff_performs ht.within.quiet ht.failed hc hop)
  refine ⟨fun i => ?_, fun i hi => ?_, hsince.decided⟩
  · cases hp : s'.prepare image i with
    | error e => exact ⟨e, rfl⟩
    | ok p =>
        have hprepared : s'.prepare image i = .ok (p.1, p.2) := hp
        obtain ⟨-, ha, hst, -, -⟩ := prepare_ok hprepared
        rcases hsince.within.quiet i ha with hw | hw <;> rw [hst] at hw <;> cases hw
  · rcases hsince.within i hi.1 with hw | ⟨-, hsent, hid⟩
    · rw [hi.2] at hw; cases hw
    · exact ⟨hsent, hid⟩

theorem lateResultIdle_of_endsAtOnce (op : GroupOp) (hcheck : endsAtOnce s op = true) :
    LateResultIdle forkJoin s op := by
  cases op with
  | acceptResult i result =>
      intro hf l hl
      rcases landsAtOnce hcheck hf hl with ⟨e, v, res, rfl⟩ | ⟨e, v, rfl, hk⟩
      · exact trivial
      · exact .inl (.inl (.here hk))
  | _ => exact trivial

/-- Behind the failure of `b` no flow of the fork can be prepared, while `a` is out and after. -/
theorem cutoff_reachable_forkJoin : ∃ s s' : GroupExecution, s.Failed ∧ s.Sent 0 ∧
    ¬ s'.Sent 0 ∧ ∀ i, ∃ e, s'.prepare forkJoin i = .error e := by
  obtain ⟨s, hs⟩ : ∃ s, forkJoinRun endsAtOnce firstFailure = some s :=
    Option.isSome_iff_exists.mp (by decide +kernel)
  obtain ⟨s', hs'⟩ : ∃ s', (forkJoinRun endsAtOnce firstFailure).bind
      (performAll forkJoin endsAtOnce 20 [.markUnknown 0]) = some s' :=
    Option.isSome_iff_exists.mp (by decide +kernel)
  have hobs : (forkJoinRun endsAtOnce firstFailure).all
      (fun s => decide (s.Failed ∧ s.Sent 0)) = true := by decide +kernel
  have hobs' : ((forkJoinRun endsAtOnce firstFailure).bind
      (performAll forkJoin endsAtOnce 20 [.markUnknown 0])).all
      (fun s => decide (¬ s.Sent 0)) = true := by decide +kernel
  rw [hs', Option.all_some, decide_eq_true_eq] at hobs'
  rw [hs, Option.all_some, decide_eq_true_eq] at hobs
  rw [hs, Option.bind_some] at hs'
  exact ⟨s, s', hobs.1, hobs.2, hobs', (cutoff_reachable
    (reachWhere_runFrom forkJoin (fun _ => lateResultIdle_of_endsAtOnce) hs) hobs.1
    (reachWhere_performAll forkJoin rfl (fun _ => lateResultIdle_of_endsAtOnce)
      (.init rfl) hs')).1⟩

/-- When `a` succeeds behind the failure of `b`, the flow of `c` can be prepared. -/
theorem cutoff_broken_forkJoin : ∃ s s' frame t, (system forkJoin).Reach s ∧ s.Failed ∧
    ((system forkJoin).startingAt s).Reach s' ∧ s'.prepare forkJoin 0 = .ok (frame, t) := by
  obtain ⟨s, hs⟩ : ∃ s, forkJoinRun (fun _ _ => true) firstFailure = some s :=
    Option.isSome_iff_exists.mp (by decide +kernel)
  obtain ⟨s', hs'⟩ : ∃ s', (forkJoinRun (fun _ _ => true) firstFailure).bind (performAll forkJoin
      (fun _ _ => true) 20 [.acceptResult 0 (boolResult 1 1 .success)]) = some s' :=
    Option.isSome_iff_exists.mp (by decide +kernel)
  have hobs : (forkJoinRun (fun _ _ => true) firstFailure).all
      (fun s => decide s.Failed) = true := by decide +kernel
  have hobs' : ((forkJoinRun (fun _ _ => true) firstFailure).bind (performAll forkJoin
      (fun _ _ => true) 20 [.acceptResult 0 (boolResult 1 1 .success)])).all
      (fun s => (s.prepare forkJoin 0).toOption.isSome) = true := by decide +kernel
  rw [hs', Option.all_some] at hobs'
  rw [hs, Option.all_some, decide_eq_true_eq] at hobs
  rw [hs, Option.bind_some] at hs'
  cases hp : s'.prepare forkJoin 0 with
  | error e => rw [hp] at hobs'; cases hobs'
  | ok p => exact ⟨s, s', p.1, p.2, reachWhere_runFrom forkJoin (fun _ _ _ => trivial) hs, hobs,
      reachWhere_performAll forkJoin rfl (fun _ _ _ => trivial) (.init rfl) hs', hp⟩

end GroupExecution

end Hermas
