import Hermas.Image.Graph
import Hermas.Runtime.Cutoff
import Mathlib.Data.Finset.Insert

/-!
# Branches of a join, in any order

When the deliveries of all branches of one join are out, each of them ends with a result
or is lost, and the daemon sees the endings in some order. `Midway` is what the execution
is like while some have ended: the others are out as before, those that succeeded wait at
the join, and the outcome is the highest one among the failures. None of this mentions
the order.
-/

namespace Hermas

open Image (Edge)

/-- How a delivery that is out ends: the app answers it, or it is lost. -/
inductive Ending where
  | result (frame : Frame)
  | lost

namespace Ending

def outcome : Ending → Outcome
  | result frame => frame.outcome
  | lost => .unknown

/-- The value that the flow goes on with. -/
def value : Ending → Bytes
  | result frame => frame.payload
  | lost => []

end Ending

/-- The flow as it waits at the join behind an edge. -/
def Flow.waitsAt (flow : Flow) (edge : Edge) (value : Bytes) : Flow :=
  { flow with
    value
    valueSourceType := edge.sourceType
    valueDestinationType := edge.targetType
    currentNode := edge.targetNode
    joinNode := edge.targetNode
    joinTag := edge.caseTag
    state := .waiting }

namespace GroupExecution

variable (image : Image)

/-- The call that ends the delivery of a flow. -/
def settle (bound : Nat) (endings : FlowIndex → Ending) (i : FlowIndex) (s : GroupExecution) :
    Call RuntimeResult GroupExecution :=
  match endings i with
  | .result frame => s.acceptResult image bound i frame
  | .lost => s.markUnknown image bound i

/-- The deliveries end one after the other. -/
def settleAll (bound : Nat) (endings : FlowIndex → Ending) (order : List FlowIndex)
    (s : GroupExecution) : Call RuntimeResult GroupExecution :=
  Call.each (settle image bound endings) order s

/-- The edge that the flow takes when its delivery succeeds. -/
def exit (s : GroupExecution) (i : FlowIndex) : Option Edge :=
  image.groupFindEdge 1 (s.flows i).currentNode 0

/-- The active flows are the branches of a join, all of them out. -/
structure Branches (s : GroupExecution) (joinNode : UInt16) (input : FlowIndex → Edge) : Prop where
  undecided : s.pendingOutcome = .none
  join : (image.node joinNode).kind = 5
  sent : ∀ i, (s.flows i).active = true → (s.flows i).state = .sent
  /-- The success edge of a branch enters the join. -/
  success : ∀ i, (s.flows i).active = true → s.exit image i = some (input i)
  enters : ∀ i, (s.flows i).active = true → (input i).targetKind = 5 ∧
    (input i).targetNode = joinNode
  /-- Every branch has an input of its own. -/
  own : ∀ i j, (s.flows i).active = true → (s.flows j).active = true →
    (input i).caseTag = (input j).caseTag → i = j
  covered : ∀ tag < (image.node joinNode).subtype.toNat, ∃ i, (s.flows i).active = true ∧
    (input i).caseTag = UInt8.ofNat tag
  /-- The other edges of a branch enter terminals. -/
  others : ∀ i, (s.flows i).active = true → ∀ kind ∈ ([2, 3, 4] : List UInt8),
    ∀ edge ∈ image.groupFindEdge kind (s.flows i).currentNode 0, edge.targetKind = 2

/-- The ending fits the delivery: an answer passes the checks. -/
def Fits (s : GroupExecution) (i : FlowIndex) : Ending → Prop
  | .result frame => ∃ edge, s.Takes image i frame edge
  | .lost => True

/-- Every active flow once. -/
structure InTurn (s : GroupExecution) (order : List FlowIndex) : Prop where
  once : order.Nodup
  all : ∀ i, i ∈ order ↔ (s.flows i).active = true

/-- The active flows. -/
def activeFlows (s : GroupExecution) : Finset FlowIndex :=
  Finset.univ.filter fun i => (s.flows i).active = true

/-- The outcome is one of the flows', and none of theirs outranks it. -/
def Highest (endings : FlowIndex → Ending) (flows : Finset FlowIndex) (outcome : Outcome) : Prop :=
  (∃ i ∈ flows, (endings i).outcome = outcome) ∧
    ∀ i ∈ flows, (endings i).outcome.precedence ≤ outcome.precedence

/-- The branches that have ended stand at the join with their values, the others are out. -/
def standing (s : GroupExecution) (input : FlowIndex → Edge) (endings : FlowIndex → Ending)
    (ended : Finset FlowIndex) : GroupExecution :=
  { s with flows := fun i =>
      if i ∈ ended then (s.flows i).waitsAt (input i) (endings i).value else s.flows i }

variable {image}
variable {s t : GroupExecution} {i : FlowIndex} {joinNode : UInt16} {input : FlowIndex → Edge}
variable {endings : FlowIndex → Ending} {ended : Finset FlowIndex}

/-! ## Halfway through -/

/-- The execution while the deliveries of some branches have ended. -/
structure Midway (s : GroupExecution) (input : FlowIndex → Edge) (endings : FlowIndex → Ending)
    (ended : Finset FlowIndex) (t : GroupExecution) : Prop where
  executionId : t.executionId = s.executionId
  known : ∀ i ∈ ended, (s.flows i).active = true
  out : ∀ i ∉ ended, t.flows i = s.flows i
  /-- What is still active of those that ended succeeded, and waits. -/
  waiting : ∀ i ∈ ended, (t.flows i).active = true → (endings i).outcome = .success ∧
    (t.flows i).state = .waiting ∧ (t.flows i).joinTag = (input i).caseTag
  decided : ((∀ i ∈ ended, (endings i).outcome = .success) ∧
      t = standing s input endings ended) ∨
    t.Failed ∧ Highest endings ended t.pendingOutcome
  settled : t.Settled

theorem midway_start (h : Branches image s joinNode input) : Midway s input endings ∅ s where
  executionId := rfl
  known i hi := absurd hi (by simp)
  out i _ := rfl
  waiting i hi := absurd hi (by simp)
  decided := .inl ⟨by simp, by simp [standing]⟩
  settled := by
    intro hfailed
    rw [failed_iff, h.undecided] at hfailed
    simp at hfailed

/-- A delivery that is still out can be answered as at the start. -/
theorem Midway.fits (h : Midway s input endings ended t) (hi : i ∉ ended)
    (hfits : Fits image s i (endings i)) : Fits image t i (endings i) := by
  cases hending : endings i with
  | lost => trivial
  | result frame =>
      rw [hending] at hfits
      obtain ⟨edge, htakes⟩ := hfits
      refine ⟨edge, ?_, ?_, ?_, htakes.type, ?_, htakes.canonical⟩
      · unfold Sent
        rw [h.out i hi]
        exact htakes.sent
      · rw [h.executionId, h.out i hi]
        exact htakes.answers
      · rw [h.out i hi]
        exact htakes.found
      · rw [h.out i hi]
        exact htakes.fits

/-- A result is a success or an error of the app. -/
theorem Takes.outcome {frame : Frame} {edge : Edge} (h : s.Takes image i frame edge) :
    frame.outcome = .success ∨ frame.outcome = .appError := by
  have hanswers := h.answers
  simp only [Execution.answers, Bool.and_eq_true, Bool.or_eq_true, beq_iff_eq] at hanswers
  exact hanswers.2

/-- What does not succeed is a failure. -/
theorem Fits.failure (h : Fits image s i (endings i)) (hfail : (endings i).outcome ≠ .success) :
    (endings i).outcome.IsFailure := by
  cases hending : endings i with
  | lost => exact .inr (.inr rfl)
  | result frame =>
      rw [hending] at h hfail
      obtain ⟨edge, htakes⟩ := h
      exact .inl (htakes.outcome.resolve_left hfail)

/-- An edge into a terminal closes the flow. -/
theorem enterEdge_closes {bound : Nat} {edge : Edge} {o : Outcome} (hk : edge.targetKind = 2)
    (value : Bytes) : ∃ t', enterEdge image (bound + 1) i edge o
      (t.setFlow i fun flow => { flow with value }) = some (.ok, t') ∧ t.Closes i o t' := by
  refine ⟨_, ?_, fun flow => { flow with
      value
      valueSourceType := edge.sourceType
      valueDestinationType := edge.targetType
      currentNode := edge.targetNode }, fun _ => rfl, fun _ => rfl, rfl⟩
  rw [enterEdge, aim, setFlow_setFlow]
  simp only [arrive, hk, show ¬ (2 : UInt8) = 1 by decide, show ¬ (2 : UInt8) = 4 by decide,
    show ¬ (2 : UInt8) = 3 by decide, show ¬ (2 : UInt8) = 5 by decide,
    show ¬ (2 : UInt8) = 6 by decide, show ¬ (2 : UInt8) = 7 by decide, if_false, if_true]
  rfl

/-- A delivery that does not succeed closes its flow. -/
theorem settle_fails (h : Branches image s joinNode input) (hm : Midway s input endings ended t)
    (hi : (s.flows i).active = true) (hnot : i ∉ ended) (hfits : Fits image s i (endings i))
    (hfail : (endings i).outcome ≠ .success) (bound : Nat) :
    ∃ t', settle image (bound + 1) endings i t = some (.ok, t') ∧
      t.Closes i (endings i).outcome t' := by
  have hflow := hm.out i hnot
  have hfits' := hm.fits hnot hfits
  unfold settle
  cases hending : endings i with
  | result frame =>
      rw [hending] at hfits' hfail
      obtain ⟨edge, htakes⟩ := hfits'
      have hkind : Execution.resultKind frame.outcome = 2 := if_neg hfail
      have hfound := htakes.found
      rw [hkind, hflow] at hfound
      simp only [acceptResult_takes htakes]
      exact enterEdge_closes (h.others i hi 2 (by simp) edge hfound) _
  | lost =>
      obtain ⟨edge, hfound⟩ := Image.exists_undelivered (.inl rfl) (h.success i hi)
      have hopen : ¬ (¬ (t.flows i).active = true ∨ (t.flows i).state ≠ .sent) := by
        rw [hflow, not_or, not_not, not_not]
        exact ⟨hi, h.sent i hi⟩
      simp only [markUnknown, deliveryOutcome, if_neg hopen]
      rw [hflow, hfound]
      exact enterEdge_closes (h.others i hi 4 (by simp) edge hfound) _

theorem highest_insert_failure {o p : Outcome} (ho : (endings i).outcome = o) (hfail : o.IsFailure)
    (hp : ((∀ j ∈ ended, (endings j).outcome = .success) ∧ p = .none) ∨ Highest endings ended p) :
    Highest endings (insert i ended) (if p.precedence < o.precedence then o else p) := by
  have hpos : Outcome.success.precedence < o.precedence := by
    rcases hfail with rfl | rfl | rfl <;> decide
  have hall : ∀ j ∈ ended, (endings j).outcome.precedence ≤ max o.precedence p.precedence := by
    intro j hj
    rcases hp with ⟨hsuccess, -⟩ | ⟨-, hle⟩
    · rw [hsuccess j hj]
      exact Nat.le_trans (Nat.le_of_lt hpos) (Nat.le_max_left _ _)
    · exact Nat.le_trans (hle j hj) (Nat.le_max_right _ _)
  split
  · rename_i hlt
    rw [Nat.max_eq_left (Nat.le_of_lt hlt)] at hall
    refine ⟨⟨i, by simp, ho⟩, fun j hj => ?_⟩
    rcases Finset.mem_insert.mp hj with rfl | hj
    · rw [ho]
    · exact hall j hj
  · rename_i hge
    rw [Nat.not_lt] at hge
    rw [Nat.max_eq_right hge] at hall
    rcases hp with ⟨-, rfl⟩ | ⟨⟨k, hk, hkp⟩, -⟩
    · exact absurd (Nat.lt_of_lt_of_le hpos hge) (by decide)
    · refine ⟨⟨k, by simp [hk], hkp⟩, fun j hj => ?_⟩
      rcases Finset.mem_insert.mp hj with rfl | hj
      · rw [ho]
        exact hge
      · exact hall j hj

/-- **A failure cuts off what waits, and leaves what is out.** -/
theorem midway_fails (h : Branches image s joinNode input) (hm : Midway s input endings ended t)
    (hi : (s.flows i).active = true) (hnot : i ∉ ended) (hfits : Fits image s i (endings i))
    (hfail : (endings i).outcome ≠ .success) (bound : Nat) :
    ∃ t', settle image (bound + 1) endings i t = some (.ok, t') ∧
      Midway s input endings (insert i ended) t' := by
  obtain ⟨t', hsettle, hcloses⟩ := settle_fails h hm hi hnot hfits hfail bound
  have hfailure := hfits.failure hfail
  have hpending : ((∀ j ∈ ended, (endings j).outcome = .success) ∧ t.pendingOutcome = .none) ∨
      Highest endings ended t.pendingOutcome := by
    rcases hm.decided with ⟨hall, ht⟩ | ⟨-, hhighest⟩
    · refine .inl ⟨hall, ?_⟩
      rw [ht]
      exact h.undecided
    · exact .inr hhighest
  have hclosedFlows := hcloses.flows
  obtain ⟨f, -, -, rfl⟩ := hcloses
  have houtcome := recordTerminal_pendingOutcome (t.setFlow i f) i (endings i).outcome
  refine ⟨_, hsettle, ?_, ?_, ?_, ?_, .inr ⟨?_, ?_⟩, settled_recordTerminal _ _ _⟩
  · rw [recordTerminal_executionId]
    exact hm.executionId
  · intro k hk
    rcases Finset.mem_insert.mp hk with rfl | hk
    · exact hi
    · exact hm.known k hk
  · intro k hk
    rw [Finset.mem_insert, not_or] at hk
    have hbefore : (t.setFlow i f).flows k = s.flows k := by
      rw [setFlow_flows_of_ne _ _ hk.1, hm.out k hk.2]
    rw [recordTerminal_flows, if_neg, hbefore]
    rw [hbefore]
    rintro (hki | ⟨-, hactive, hstate⟩)
    · exact hk.1 hki
    · exact hstate (h.sent k hactive)
  · intro k hk hactive
    rcases hclosedFlows k with hreleased | ⟨hki, hsame⟩
    · rw [hactive] at hreleased
      cases hreleased
    · rw [hsame] at hactive ⊢
      exact hm.waiting k ((Finset.mem_insert.mp hk).resolve_left hki) hactive
  · rw [Failed, houtcome]
    split
    · exact hfailure
    · rename_i hge
      rcases hm.decided with ⟨-, ht⟩ | ⟨hfailed, -⟩
      · have hnone : (t.setFlow i f).pendingOutcome = .none := by
          rw [ht]
          exact h.undecided
        rw [hnone] at hge
        rcases hfailure with heq | heq | heq <;> rw [heq] at hge <;> exact absurd (by decide) hge
      · exact hfailed
  · rw [houtcome]
    exact highest_insert_failure rfl hfailure hpending

/-- A delivery that succeeds puts its flow in front of the join. -/
theorem settle_succeeds (h : Branches image s joinNode input) (hm : Midway s input endings ended t)
    (hi : (s.flows i).active = true) (hnot : i ∉ ended) (hfits : Fits image s i (endings i))
    (hsuccess : (endings i).outcome = .success) (bound : Nat) :
    settle image (bound + 1) endings i t = resolveJoin image (enterEdge image bound) joinNode
      (t.setFlow i fun flow => flow.waitsAt (input i) (endings i).value) := by
  have hfits' := hm.fits hnot hfits
  unfold settle
  cases hending : endings i with
  | lost => rw [hending] at hsuccess; cases hsuccess
  | result frame =>
      rw [hending] at hfits' hsuccess
      obtain ⟨edge, htakes⟩ := hfits'
      have hkind : Execution.resultKind frame.outcome = 1 := if_pos hsuccess
      have hfound := htakes.found
      rw [hkind, hm.out i hnot] at hfound
      obtain rfl : edge = input i := Option.some.inj (hfound.symm.trans (h.success i hi))
      obtain ⟨hk, rfl⟩ := h.enters i hi
      simp only [acceptResult_takes htakes]
      rw [enterEdge, arrive_join _ _ _ _ _ _ hk]
      congr 1
      simp only [aim, setFlow_setFlow]
      rfl

/-- The branch of some flow does not come any more, or has not come yet. -/
def Lacks (s : GroupExecution) (endings : FlowIndex → Ending) (ended : Finset FlowIndex)
    (i : FlowIndex) : Prop :=
  ∃ j, (s.flows j).active = true ∧ j ≠ i ∧ (j ∉ ended ∨ (endings j).outcome ≠ .success)

/-- Then its input of the join is empty. -/
theorem branchMissing_of_lacks (h : Branches image s joinNode input)
    (hm : Midway s input endings ended t) (hi : (s.flows i).active = true)
    (hlacks : Lacks s endings ended i) : BranchMissing image t i i (input i) := by
  obtain ⟨j, hj, hji, hlost⟩ := hlacks
  obtain ⟨hkind, hnode⟩ := h.enters j hj
  have htag := Image.target_join_tag image (Image.mem_of_groupFindEdge (h.success j hj)).1 hkind
  rw [hnode] at htag
  refine ⟨(input j).caseTag.toNat, ?_, ?_, ?_⟩
  · rw [(h.enters i hi).2]
    exact htag
  · rw [UInt8.ofNat_toNat]
    exact fun heq => hji (h.own j i hj hi heq)
  · intro k hki hactive hstate _ hjoinTag
    have hwaits := hstate.resolve_right hki
    rw [UInt8.ofNat_toNat] at hjoinTag
    by_cases hk : k ∈ ended
    · obtain ⟨hsuccess, -, hinput⟩ := hm.waiting k hk hactive
      have hsame : k = j := h.own k j (hm.known k hk) hj (hinput.symm.trans hjoinTag)
      rw [← hsame] at hlost
      exact hlost.elim (fun hne => hne hk) fun hne => hne hsuccess
    · rw [hm.out k hk] at hactive hwaits
      rw [h.sent k hactive] at hwaits
      cases hwaits

theorem standing_insert (hnot : i ∉ ended) :
    (standing s input endings ended).setFlow i
        (fun flow => flow.waitsAt (input i) (endings i).value) =
      standing s input endings (insert i ended) := by
  have hflows : Function.update (standing s input endings ended).flows i
      ((s.flows i).waitsAt (input i) (endings i).value) =
      (standing s input endings (insert i ended)).flows := by
    funext k
    by_cases hk : k = i
    · subst hk
      simp [standing]
    · simp [standing, hk]
  have hflow : (standing s input endings ended).flows i = s.flows i := if_neg hnot
  rw [setFlow, hflow, hflows]
  rfl

/-- Without a recorded outcome nothing is completed. -/
theorem maybeComplete_undecided (h : s.pendingOutcome = .none) : s.maybeComplete = s := by
  simp [maybeComplete, h]

/-- **A success waits at the join while another branch is missing.** -/
theorem midway_waits (h : Branches image s joinNode input) (hm : Midway s input endings ended t)
    (hi : (s.flows i).active = true) (hnot : i ∉ ended) (hfits : Fits image s i (endings i))
    (hsuccess : (endings i).outcome = .success) (hlacks : Lacks s endings ended i) (bound : Nat) :
    ∃ t', settle image (bound + 1) endings i t = some (.ok, t') ∧
      Midway s input endings (insert i ended) t' := by
  have hnode := (h.enters i hi).2
  let front := t.setFlow i fun flow => { flow with
    value := (endings i).value
    valueSourceType := (input i).sourceType
    valueDestinationType := (input i).targetType
    currentNode := (input i).targetNode }
  let u := t.setFlow i fun flow => flow.waitsAt (input i) (endings i).value
  have hu : (front.setFlow i fun flow => { flow with
      joinNode := (input i).targetNode
      joinTag := (input i).caseTag
      state := .waiting }) = u := by
    simp only [front, u, setFlow_setFlow]
    rfl
  have hmissing := branchFlows_missing (t := front) (branchMissing_of_lacks h hm hi hlacks)
    fun k hk ha hst => .of_eq (setFlow_flows_of_ne _ _ hk) ha hst
  rw [hu, hnode] at hmissing
  have hkind : (image.node joinNode).kind = 5 := by
    rw [← hnode]
    exact Image.target_join image (Image.mem_of_groupFindEdge (h.success i hi)).1 (h.enters i hi).1
  have hsettle : settle image (bound + 1) endings i t = some (.ok, u.maybeComplete) := by
    rw [settle_succeeds h hm hi hnot hfits hsuccess]
    simp only [resolveJoin, hkind, ne_eq, not_true, if_false]
    rw [hmissing]
    rfl
  refine ⟨u.maybeComplete, hsettle, ?_, ?_, ?_, ?_, ?_, settled_maybeComplete u⟩
  · rw [maybeComplete_executionId]
    exact hm.executionId
  · intro k hk
    rcases Finset.mem_insert.mp hk with rfl | hk
    · exact hi
    · exact hm.known k hk
  · intro k hk
    rw [Finset.mem_insert, not_or] at hk
    rw [maybeComplete_flows, setFlow_flows_of_ne _ _ hk.1]
    exact hm.out k hk.2
  · intro k hk hactive
    rw [maybeComplete_flows] at hactive ⊢
    by_cases hki : k = i
    · subst hki
      rw [setFlow_flows_self]
      exact ⟨hsuccess, rfl, rfl⟩
    · rw [setFlow_flows_of_ne _ _ hki] at hactive ⊢
      exact hm.waiting k ((Finset.mem_insert.mp hk).resolve_left hki) hactive
  · rcases hm.decided with ⟨hall, rfl⟩ | ⟨hfailed, ⟨k, hk, hkp⟩, hle⟩
    · refine .inl ⟨fun k hk => ?_, ?_⟩
      · rcases Finset.mem_insert.mp hk with rfl | hk
        · exact hsuccess
        · exact hall k hk
      · have hopen : u.pendingOutcome = .none := h.undecided
        rw [maybeComplete_undecided hopen]
        exact standing_insert hnot
    · refine .inr ⟨?_, ⟨k, by simp [hk], ?_⟩, fun k hk => ?_⟩
      · rw [Failed, maybeComplete_pendingOutcome]
        exact hfailed
      · rw [maybeComplete_pendingOutcome]
        exact hkp
      · rw [maybeComplete_pendingOutcome]
        rcases Finset.mem_insert.mp hk with rfl | hk
        · rw [hsuccess]
          change _ ≤ t.pendingOutcome.precedence
          rcases hfailed with heq | heq | heq <;> rw [heq] <;> decide
        · exact hle k hk

/-! ## Runs -/

/-- **While some branch is missing, every ending is taken.** The flow that is missing stays the same
through the run: it ends with a failure, or is not among those that end. -/
theorem midway_settleAll (h : Branches image s joinNode input)
    (hfits : ∀ i, (s.flows i).active = true → Fits image s i (endings i)) (bound : Nat)
    {j : FlowIndex} (hj : (s.flows j).active = true) {order : List FlowIndex} :
    ∀ {ended : Finset FlowIndex} {t : GroupExecution}, Midway s input endings ended t →
      order.Nodup → (∀ i ∈ order, (s.flows i).active = true ∧ i ∉ ended) →
      (endings j).outcome ≠ .success ∨ (j ∉ ended ∧ j ∉ order) →
      ∃ t', settleAll image (bound + 1) endings order t = some (.ok, t') ∧
        Midway s input endings (ended ∪ order.toFinset) t' := by
  induction order with
  | nil => intro ended t hm _ _ _; exact ⟨t, rfl, by simpa using hm⟩
  | cons i order ih =>
      intro ended t hm hnodup horder hmissing
      rw [List.nodup_cons] at hnodup
      obtain ⟨hi, hnot⟩ := horder i (by simp)
      have hfirst : ∃ t', settle image (bound + 1) endings i t = some (.ok, t') ∧
          Midway s input endings (insert i ended) t' := by
        by_cases hsuccess : (endings i).outcome = .success
        · refine midway_waits h hm hi hnot (hfits i hi) hsuccess ⟨j, hj, ?_, ?_⟩ bound
          · rintro rfl
            rcases hmissing with hne | ⟨-, hne⟩
            · exact hne hsuccess
            · exact hne (by simp)
          · exact hmissing.symm.imp And.left id
        · exact midway_fails h hm hi hnot (hfits i hi) hsuccess bound
      obtain ⟨t₁, hsettle, hm₁⟩ := hfirst
      obtain ⟨t', hrest, hm'⟩ := ih hm₁ hnodup.2
        (fun k hk => by
          obtain ⟨hactive, hended⟩ := horder k (by simp [hk])
          refine ⟨hactive, fun hmem => ?_⟩
          rcases Finset.mem_insert.mp hmem with rfl | hmem
          · exact hnodup.1 hk
          · exact hended hmem)
        (hmissing.imp id fun ⟨hended, hlater⟩ => by
          rw [List.mem_cons, not_or] at hlater
          exact ⟨by simp [hlater.1, hended], hlater.2⟩)
      refine ⟨t', ?_, ?_⟩
      · simp only [settleAll, Call.each] at hrest ⊢
        rw [hsettle]
        exact hrest
      · rwa [List.toFinset_cons, Finset.union_insert, ← Finset.insert_union]

/-! ## The last ending -/

/-- The join fires behind the last ending, and not before. -/
structure FiresOnce (image : Image) (bound : Nat) (s : GroupExecution) (joinNode : UInt16)
    (input : FlowIndex → Edge) (endings : FlowIndex → Ending) (order : List FlowIndex) : Prop where
  /-- Until the last ending the branches gather at the join, which misses one. -/
  waits : ∀ k < order.length,
    settleAll image (bound + 1) endings (order.take k) s =
      some (.ok, standing s input endings (order.take k).toFinset) ∧
    (standing s input endings (order.take k).toFinset).branchFlows joinNode
      (image.node joinNode).subtype.toNat = none
  /-- With all of them there no branch is missing. -/
  filled : ∃ flows, (standing s input endings s.activeFlows).branchFlows joinNode
    (image.node joinNode).subtype.toNat = some flows
  /-- They go on from there. -/
  onward : settleAll image (bound + 1) endings order s =
    resolveJoin image (enterEdge image bound) joinNode (standing s input endings s.activeFlows)

theorem InTurn.toFinset {order : List FlowIndex} (h : InTurn s order) :
    order.toFinset = s.activeFlows := by
  ext i
  simp [activeFlows, h.all i]

theorem standing_missing (h : Branches image s joinNode input) {j : FlowIndex}
    (hj : (s.flows j).active = true) (hnot : j ∉ ended)
    (hknown : ∀ i ∈ ended, (s.flows i).active = true) :
    (standing s input endings ended).branchFlows joinNode (image.node joinNode).subtype.toNat =
      none := by
  obtain ⟨hkind, hnode⟩ := h.enters j hj
  have htag := Image.target_join_tag image (Image.mem_of_groupFindEdge (h.success j hj)).1 hkind
  rw [hnode] at htag
  have htag' : (input j).caseTag.toNat < (image.node joinNode).subtype.toNat := htag
  refine branchFlows_none htag' ?_
  rw [branchFlow, firstIndex_none, UInt8.ofNat_toNat]
  intro k
  by_contra hk
  simp only [Bool.not_eq_false, Bool.and_eq_true, beq_iff_eq] at hk
  obtain ⟨⟨⟨hactive, hstate⟩, -⟩, hjoinTag⟩ := hk
  by_cases hended : k ∈ ended
  · simp only [standing, if_pos hended, Flow.waitsAt] at hjoinTag
    exact hnot (h.own k j (hknown k hended) hj hjoinTag ▸ hended)
  · simp only [standing, if_neg hended] at hactive hstate
    rw [h.sent k hactive] at hstate
    cases hstate

theorem mapM_isSome {α β : Type} {f : α → Option β} :
    ∀ {xs : List α}, (∀ x ∈ xs, ∃ y, f x = some y) → ∃ ys, xs.mapM f = some ys
  | [], _ => ⟨[], rfl⟩
  | x :: xs, h => by
      obtain ⟨y, hy⟩ := h x (by simp)
      obtain ⟨ys, hys⟩ := mapM_isSome fun z hz => h z (List.mem_cons_of_mem x hz)
      exact ⟨y :: ys, by rw [List.mapM_cons, hy, hys]; rfl⟩

theorem standing_filled (h : Branches image s joinNode input) :
    ∃ flows, (standing s input endings s.activeFlows).branchFlows joinNode
      (image.node joinNode).subtype.toNat = some flows := by
  refine mapM_isSome fun tag htag => ?_
  obtain ⟨i, hi, htag⟩ := h.covered tag (List.mem_range.mp htag)
  refine firstIndex_isSome (i := i) ?_
  have hmem : i ∈ s.activeFlows := by simp [activeFlows, hi]
  simp [standing, hmem, Flow.waitsAt, hi, (h.enters i hi).2, htag]

/-- A join has a branch. -/
theorem exists_branch (h : Branches image s joinNode input) : ∃ i, (s.flows i).active = true := by
  have htwo := Image.two_branches image (.inr h.join)
  obtain ⟨i, hi, -⟩ := h.covered 0 (by omega)
  exact ⟨i, hi⟩

/-- **When all deliveries succeed the join fires once.** -/
theorem fires_once (h : Branches image s joinNode input)
    (hfits : ∀ i, (s.flows i).active = true → Fits image s i (endings i))
    (hsuccess : ∀ i, (s.flows i).active = true → (endings i).outcome = .success) (bound : Nat)
    {order : List FlowIndex} (horder : InTurn s order) :
    FiresOnce image bound s joinNode input endings order := by
  -- what has ended while a flow is still out
  have hgather : ∀ {before : List FlowIndex} {j : FlowIndex}, (s.flows j).active = true →
      j ∉ before → before.Nodup → (∀ i ∈ before, (s.flows i).active = true) →
      settleAll image (bound + 1) endings before s =
        some (.ok, standing s input endings before.toFinset) ∧
      Midway s input endings before.toFinset (standing s input endings before.toFinset) := by
    intro before j hj hnot hnodup hactive
    obtain ⟨t, hsettle, hm⟩ := midway_settleAll h hfits bound hj (midway_start h) hnodup
      (fun i hi => ⟨hactive i hi, by simp⟩) (.inr ⟨by simp, hnot⟩)
    rw [Finset.empty_union] at hm
    rcases hm.decided with ⟨-, ht⟩ | ⟨hfailed, ⟨k, hk, hkp⟩, -⟩
    · rw [ht] at hsettle hm
      exact ⟨hsettle, hm⟩
    · rw [hsuccess k (hm.known k hk)] at hkp
      rw [failed_iff, ← hkp] at hfailed
      simp at hfailed
  refine ⟨fun k hk => ?_, standing_filled h, ?_⟩
  · have hsplit := List.take_append_drop k order
    have hnodup := horder.once
    rw [← hsplit, List.drop_eq_getElem_cons hk, List.nodup_append] at hnodup
    have hnot : order[k] ∉ order.take k := fun hmem =>
      hnodup.2.2 _ hmem _ List.mem_cons_self rfl
    have hlast := (horder.all order[k]).mp (List.getElem_mem hk)
    have hbefore : ∀ i ∈ order.take k, (s.flows i).active = true := fun i hi =>
      (horder.all i).mp (List.mem_of_mem_take hi)
    exact ⟨(hgather hlast hnot hnodup.1 hbefore).1,
      standing_missing h hlast (by simpa using hnot) (by simpa using hbefore)⟩
  · obtain ⟨first, hfirst⟩ := exists_branch h
    have hne : order ≠ [] := List.ne_nil_of_mem ((horder.all first).mpr hfirst)
    obtain ⟨before, last, rfl⟩ : ∃ before last, order = before ++ [last] :=
      ⟨_, _, (List.dropLast_append_getLast hne).symm⟩
    have hnodup := List.nodup_append.mp horder.once
    have hnot : last ∉ before := fun hmem => hnodup.2.2 _ hmem _ (by simp) rfl
    have hlast := (horder.all last).mp (by simp)
    obtain ⟨hsettle, hm⟩ := hgather hlast hnot hnodup.1
      fun i hi => (horder.all i).mp (by simp [hi])
    have hall : insert last before.toFinset = s.activeFlows := by
      rw [← horder.toFinset, List.toFinset_append, Finset.insert_eq, Finset.union_comm]
      rfl
    have hfire := settle_succeeds h hm hlast (by simpa using hnot) (hfits last hlast)
      (hsuccess last hlast) bound
    rw [standing_insert (by simpa using hnot), hall] at hfire
    rw [settleAll, Call.each_append, ← settleAll, hsettle]
    change (settle image (bound + 1) endings last _).andThen _ = _
    rw [hfire]
    exact Call.andThen_done_right _

/-- **When a delivery fails the execution is over, with the highest outcome.** -/
theorem ends_highest (h : Branches image s joinNode input)
    (hfits : ∀ i, (s.flows i).active = true → Fits image s i (endings i)) {j : FlowIndex}
    (hj : (s.flows j).active = true) (hfail : (endings j).outcome ≠ .success) (bound : Nat)
    {order : List FlowIndex} (horder : InTurn s order) :
    ∃ t, settleAll image (bound + 1) endings order s = some (.ok, t) ∧ t.complete = true ∧
      Highest endings s.activeFlows t.pendingOutcome := by
  obtain ⟨t, hsettle, hm⟩ := midway_settleAll h hfits bound hj (midway_start h) horder.once
    (fun i hi => ⟨(horder.all i).mp hi, by simp⟩) (.inl hfail)
  rw [Finset.empty_union, horder.toFinset] at hm
  have hmem {i : FlowIndex} : i ∈ s.activeFlows ↔ (s.flows i).active = true := by simp [activeFlows]
  rcases hm.decided with ⟨hall, -⟩ | ⟨hfailed, hhighest⟩
  · exact absurd (hall j (hmem.mpr hj)) hfail
  · refine ⟨t, hsettle, hm.settled hfailed fun i hi => ?_, hhighest⟩
    by_cases hactive : (s.flows i).active = true
    · have hwaits := (hm.waiting i (hmem.mpr hactive) hi.1).2.1
      rw [hi.2] at hwaits
      cases hwaits
    · have hout := hm.out i fun hin => hactive (hmem.mp hin)
      rw [← hout] at hactive
      exact hactive hi.1

/-- No two outcomes of deliveries have the same precedence. -/
theorem Highest.unique {flows : Finset FlowIndex} {o p : Outcome} (ho : Highest endings flows o)
    (hp : Highest endings flows p) (hposo : 0 < o.precedence) : o = p := by
  obtain ⟨⟨i, hi, hio⟩, hoall⟩ := ho
  obtain ⟨⟨k, hk, hkp⟩, hpall⟩ := hp
  have hle := hpall i hi
  have hge := hoall k hk
  rw [hio] at hle
  rw [hkp] at hge
  have heq := Nat.le_antisymm hle hge
  revert heq hposo
  cases o <;> cases p <;> simp [Outcome.precedence]

/--
**The branches of a join may end in any order.** If one of them fails, the execution completes with
the highest outcome among them. If all succeed the join fires once, behind the last of them, and its
branches go on with the same values and types.
-/
theorem join_anyOrder (h : Branches image s joinNode input)
    (hfits : ∀ i, (s.flows i).active = true → Fits image s i (endings i))
    {order order' : List FlowIndex} (horder : InTurn s order) (horder' : InTurn s order')
    (bound : Nat) :
    ((∃ i, (s.flows i).active = true ∧ (endings i).outcome ≠ .success) →
      ∃ outcome t t', Highest endings s.activeFlows outcome ∧
        settleAll image (bound + 1) endings order s = some (.ok, t) ∧
        t.complete = true ∧ t.pendingOutcome = outcome ∧
        settleAll image (bound + 1) endings order' s = some (.ok, t') ∧
        t'.complete = true ∧ t'.pendingOutcome = outcome) ∧
    ((∀ i, (s.flows i).active = true → (endings i).outcome = .success) →
      settleAll image (bound + 1) endings order s = settleAll image (bound + 1) endings order' s ∧
        FiresOnce image bound s joinNode input endings order ∧
        FiresOnce image bound s joinNode input endings order') := by
  constructor
  · rintro ⟨j, hj, hfail⟩
    obtain ⟨t, hsettle, hcomplete, hhighest⟩ := ends_highest h hfits hj hfail bound horder
    obtain ⟨t', hsettle', hcomplete', hhighest'⟩ := ends_highest h hfits hj hfail bound horder'
    have hpos : 0 < t.pendingOutcome.precedence := by
      refine Nat.lt_of_lt_of_le ?_ (hhighest.2 j (by simp [activeFlows, hj]))
      rcases (hfits j hj).failure hfail with heq | heq | heq <;> rw [heq] <;> decide
    exact ⟨_, t, t', hhighest, hsettle, hcomplete, rfl, hsettle', hcomplete',
      (hhighest.unique hhighest' hpos).symm⟩
  · intro hsuccess
    have hfirst := fires_once h hfits hsuccess bound horder
    have hsecond := fires_once h hfits hsuccess bound horder'
    exact ⟨hfirst.onward.trans hsecond.onward.symm, hfirst, hsecond⟩

/-! ## Two branches -/

/-- `a` and `b` run side by side and meet at the join. -/
def pairLayout : Image.Layout where
  errors := [1]
  contracts := [.of 1, .of 2]
  types := [Image.boolType]
  nodes := [⟨4, 2, 1, 0, 0⟩, .action1 1, .action1 2, ⟨5, 2, 0, 0, 0⟩,
    .terminal 1, .terminal 2, .terminal 3, .terminal 4]
  edges := [.wire 0 0 4 1, .wire 6 1 1 2 0, .wire 6 1 1 3 1,
    .wire 1 2 5 4 0, .wire 2 2 2 6, .bare 3 2 7, .bare 4 2 8,
    .wire 1 3 5 4 1, .wire 2 3 2 6, .bare 3 3 7, .bare 4 3 8,
    .wire 7 4 2 5 0]

set_option maxRecDepth 20000 in
theorem pair_valid : (Image.imageValidate pairLayout.encode).toOption.isSome = true := by
  decide +kernel

def pair : Image := pairLayout.image pair_valid

/-- Both branches are out. -/
def pairOut : Option GroupExecution :=
  runFrom pair (fun _ _ => true) 20 [.prepare 0, .prepare 1, .markSent 0, .markSent 1] 1 64 8 1 [1]

/-- The success edges of `a` and `b`. -/
def pairInput (i : FlowIndex) : Edge :=
  if i = 0 then .wire 1 2 5 4 0 else .wire 1 3 5 4 1

/-- `a` answers with an error, `b` is lost. -/
def errorAndLoss (i : FlowIndex) : Ending :=
  if i = 0 then .result (boolResult 1 1 .appError) else .lost

set_option maxRecDepth 20000 in
/-- Whichever ends first, the outcome is unknown. -/
theorem join_anyOrder_pair : ∃ s t t', pairOut = some s ∧
    settleAll pair 20 errorAndLoss [0, 1] s = some (.ok, t) ∧ t.pendingOutcome = .unknown ∧
    settleAll pair 20 errorAndLoss [1, 0] s = some (.ok, t') ∧ t'.pendingOutcome = .unknown := by
  obtain ⟨s, hs⟩ : ∃ s, pairOut = some s := Option.isSome_iff_exists.mp (by decide +kernel)
  have hobs : pairOut.all (fun s =>
      s.pendingOutcome = .none ∧
      (∀ i, (s.flows i).active = true ↔ i = 0 ∨ i = 1) ∧
      (∀ i, (s.flows i).active = true → (s.flows i).state = .sent) ∧
      (∀ i, (s.flows i).active = true → s.exit pair i = some (pairInput i)) ∧
      (∀ i, (s.flows i).active = true → ∀ kind ∈ ([2, 3, 4] : List UInt8),
        ∀ edge ∈ pair.groupFindEdge kind (s.flows i).currentNode 0, edge.targetKind = 2) ∧
      Execution.answers pair (boolResult 1 1 .appError) s.executionId (s.flows 0).requestId
        (s.flows 0).currentNode = true ∧
      pair.groupFindEdge 2 (s.flows 0).currentNode 0 = some (.wire 2 2 2 6) ∧
      (s.flows 0).valueCapacity = 8) = true := by
    decide +kernel
  rw [hs, Option.all_some, decide_eq_true_eq] at hobs
  obtain ⟨hundecided, hactive, hsent, hsuccess, hothers, hanswers, herror, hcapacity⟩ := hobs
  have hbranches : Branches pair s 4 pairInput := by
    refine ⟨hundecided, by decide +kernel, hsent, hsuccess, fun i hi => ?_, fun i j hi hj => ?_,
      fun tag htag => ?_, hothers⟩
    · rcases (hactive i).mp hi with rfl | rfl <;> decide
    · rcases (hactive i).mp hi with rfl | rfl <;> rcases (hactive j).mp hj with rfl | rfl <;> decide
    · have htwo : tag < 2 := Nat.lt_of_lt_of_eq htag (by decide +kernel)
      obtain rfl | rfl : tag = 0 ∨ tag = 1 := by omega
      · exact ⟨0, (hactive 0).mpr (.inl rfl), by decide⟩
      · exact ⟨1, (hactive 1).mpr (.inr rfl), by decide⟩
  have hfits : ∀ i, (s.flows i).active = true → Fits pair s i (errorAndLoss i) := by
    intro i hi
    rcases (hactive i).mp hi with rfl | rfl
    · exact ⟨.wire 2 2 2 6, ⟨hi, hsent 0 hi⟩, hanswers, herror, rfl,
        Nat.le_of_lt (by rw [hcapacity]; decide), by decide +kernel⟩
    · trivial
  have hturn : InTurn s [0, 1] := ⟨by decide, fun i => by rw [hactive]; simp⟩
  have hturn' : InTurn s [1, 0] := ⟨by decide, fun i => by rw [hactive]; simp [or_comm]⟩
  obtain ⟨outcome, t, t', ⟨⟨i, -, houtcome⟩, hhighest⟩, hfirst, -, ht, hsecond, -, ht'⟩ :=
    (join_anyOrder hbranches hfits hturn hturn' 19).1 ⟨0, (hactive 0).mpr (.inl rfl), by decide⟩
  have hlost : (errorAndLoss 1).outcome.precedence ≤ outcome.precedence :=
    hhighest 1 (by simp [activeFlows, hactive])
  obtain rfl : outcome = .unknown := by
    revert hlost
    cases outcome <;> decide
  exact ⟨s, t, t', hs, hfirst, ht, hsecond, ht'⟩

end GroupExecution

end Hermas
