import Hermas.Runtime.Cutoff

/-!
# The recorded result

What an execution returns is not copied out when it is decided. It stays in the
slot of the flow that ended, and the slot is free. `ResultKept` says that the
slot still holds what the flow had when it entered the terminal whose outcome
counts; that is what `getResult` needs.

Nothing is recorded while a cascade can still take slots, if the image wires
forks and regions to actions (`Orderly`). Behind that only a late result can take
the slot, and `LandsClear` says where late results leave it alone.
-/

namespace Hermas

open Image (Edge)

namespace GroupExecution

/-! ## The decisive entry -/

/-- The entry whose outcome counts: the first of those with the highest precedence. -/
def IsDecisive (entered : List TerminalEntry) (e : TerminalEntry) : Prop :=
  ∃ before after, entered = before ++ e :: after ∧
    (∀ x ∈ before, x.outcome.precedence < e.outcome.precedence) ∧
    ∀ x ∈ after, x.outcome.precedence ≤ e.outcome.precedence

theorem IsDecisive.le {entered : List TerminalEntry} {e x : TerminalEntry}
    (h : IsDecisive entered e) (hx : x ∈ entered) :
    x.outcome.precedence ≤ e.outcome.precedence := by
  obtain ⟨before, after, rfl, hb, ha⟩ := h
  rcases List.mem_append.mp hx with hx | hx
  · exact (hb x hx).le
  · rcases List.mem_cons.mp hx with rfl | hx
    · exact le_refl _
    · exact ha x hx

/-- A later entry that does not outrank it leaves the decisive one. -/
theorem IsDecisive.append {entered : List TerminalEntry} {e x : TerminalEntry}
    (h : IsDecisive entered e) (hx : x.outcome.precedence ≤ e.outcome.precedence) :
    IsDecisive (entered ++ [x]) e := by
  obtain ⟨before, after, rfl, hb, ha⟩ := h
  refine ⟨before, after ++ [x], by simp, hb, fun y hy => ?_⟩
  rcases List.mem_append.mp hy with hy | hy
  · exact ha y hy
  · exact List.mem_singleton.mp hy ▸ hx

/-- An entry that outranks all earlier ones is decisive. -/
theorem isDecisive_last {entered : List TerminalEntry} {e : TerminalEntry}
    (h : ∀ x ∈ entered, x.outcome.precedence < e.outcome.precedence) :
    IsDecisive (entered ++ [e]) e := ⟨entered, [], by simp, h, by simp⟩

/-- The flow has ended and has what it had at the entry. -/
structure Holds (flow : Flow) (e : TerminalEntry) : Prop where
  inactive : flow.active = false
  value : flow.value = e.flow.value
  sourceType : flow.valueSourceType = e.flow.valueSourceType
  destinationType : flow.valueDestinationType = e.flow.valueDestinationType

/-- The entry is the decisive one and its value, if the outcome has one, is still there. -/
structure Recorded (s : GroupExecution) (e : TerminalEntry) : Prop where
  decisive : IsDecisive s.entered e
  outcome : s.pendingOutcome = e.outcome
  positive : 0 < e.outcome.precedence
  held : Execution.typedOutcome s.pendingOutcome = true → Holds (s.flows s.pendingFlow) e

/-- No outcome is recorded yet. -/
structure Undecided (s : GroupExecution) : Prop where
  pending : s.pendingOutcome = .none
  entered : ∀ e ∈ s.entered, e.outcome.precedence = 0

/-- No outcome is recorded, or it is kept. -/
def ResultKept (s : GroupExecution) : Prop := s.Undecided ∨ ∃ e, s.Recorded e

/-- Writing to the flow does not hurt the result. -/
def Spare (s : GroupExecution) (i : FlowIndex) : Prop :=
  Execution.typedOutcome s.pendingOutcome = true → i ≠ s.pendingFlow

variable {image : Image} {bound : Nat} {s s' t : GroupExecution} {i : FlowIndex} {edge : Edge}
variable {o : Outcome} {r : RuntimeResult}

theorem Undecided.spare (h : s.Undecided) (i : FlowIndex) : s.Spare i := by
  intro ht
  rw [h.pending] at ht
  cases ht

theorem ResultKept.spare (h : s.ResultKept) (hi : (s.flows i).active = true) : s.Spare i := by
  rintro ht rfl
  rcases h with h | ⟨e, h⟩
  · exact h.spare _ ht rfl
  · rw [(h.held ht).inactive] at hi
    cases hi

/-- A change that leaves the record and the flow of the result alone. -/
theorem ResultKept.congr (h : s.ResultKept) (hp : t.pendingOutcome = s.pendingOutcome)
    (hf : t.pendingFlow = s.pendingFlow) (he : t.entered = s.entered)
    (hflow : Execution.typedOutcome s.pendingOutcome = true →
      t.flows s.pendingFlow = s.flows s.pendingFlow ∨
        t.flows s.pendingFlow = (s.flows s.pendingFlow).released ∨
        t.flows s.pendingFlow = (s.flows s.pendingFlow).flushed) : t.ResultKept := by
  rcases h with h | ⟨e, h⟩
  · exact .inl ⟨hp.trans h.pending, he ▸ h.entered⟩
  · refine .inr ⟨e, he ▸ h.decisive, hp.trans h.outcome, h.positive, fun ht => ?_⟩
    rw [hp] at ht
    obtain ⟨ha, hv, hs, hd⟩ := h.held ht
    rw [hf]
    rcases hflow ht with hk | hk | hk <;> rw [hk]
    · exact ⟨ha, hv, hs, hd⟩
    · exact ⟨rfl, hv, hs, hd⟩
    · exact ⟨rfl, hv, hs, hd⟩

theorem ResultKept.setFlow (h : s.ResultKept) (hi : s.Spare i) (f : Flow → Flow) :
    (s.setFlow i f).ResultKept :=
  h.congr rfl rfl rfl fun ht => .inl (setFlow_flows_of_ne _ _ (hi ht).symm)

theorem ResultKept.release (h : s.ResultKept) (i : FlowIndex) :
    (s.setFlow i Flow.released).ResultKept := by
  refine h.congr rfl rfl rfl fun _ => ?_
  by_cases hi : s.pendingFlow = i
  · rw [← hi]
    exact .inr (.inl (setFlow_flows_self _ _ _))
  · exact .inl (setFlow_flows_of_ne _ _ hi)

theorem ResultKept.maybeComplete (h : s.ResultKept) : s.maybeComplete.ResultKept :=
  h.congr (by simp) (by simp) (by simp) fun _ => .inl (by simp)

theorem ResultKept.flushed (h : s.ResultKept) (hf : Flushed s t) : t.ResultKept :=
  h.congr hf.pendingOutcome hf.pendingFlow hf.entered fun _ =>
    (hf.flows s.pendingFlow).imp id .inr

theorem recordTerminal_entered : (s.recordTerminal i o).entered =
    s.entered ++ [{ outcome := o, flow := s.flows i }] := by
  unfold recordTerminal
  simp only [maybeComplete_entered]
  split_ifs <;> simp only [recordOutcome, cutOff, GroupExecution.setFlow] <;> split_ifs <;> rfl

theorem recordTerminal_pendingFlow : (s.recordTerminal i o).pendingFlow =
    if s.pendingOutcome.precedence < o.precedence then i else s.pendingFlow := by
  unfold recordTerminal
  simp only [maybeComplete_pendingFlow]
  split_ifs <;> simp only [recordOutcome, cutOff, GroupExecution.setFlow, *] <;> rfl

/-- **An entry into a terminal keeps the result**, or becomes it. -/
theorem ResultKept.recordTerminal (h : s.ResultKept) (i : FlowIndex) (o : Outcome) :
    (s.recordTerminal i o).ResultKept := by
  have hflow : ∀ j, (s.recordTerminal i o).flows j = s.flows j ∨
      (s.recordTerminal i o).flows j = (s.flows j).released := by
    intro j
    rw [recordTerminal_flows]
    split_ifs
    · exact .inr rfl
    · exact .inl rfl
  have hself : (s.recordTerminal i o).flows i = (s.flows i).released := by
    rw [recordTerminal_flows, if_pos (.inl rfl)]
  by_cases hraise : s.pendingOutcome.precedence < o.precedence
  · refine .inr ⟨{ outcome := o, flow := s.flows i }, ?_, ?_, by dsimp only; omega, fun _ => ?_⟩
    · rw [recordTerminal_entered]
      refine isDecisive_last fun x hx => ?_
      rcases h with h | ⟨e, h⟩
      · rw [h.entered x hx]
        rw [h.pending] at hraise
        exact hraise
      · rw [h.outcome] at hraise
        exact lt_of_le_of_lt (h.decisive.le hx) hraise
    · rw [recordTerminal_pendingOutcome, if_pos hraise]
    · rw [recordTerminal_pendingFlow, if_pos hraise, hself]
      exact ⟨rfl, rfl, rfl, rfl⟩
  · have hpending : (s.recordTerminal i o).pendingOutcome = s.pendingOutcome := by
      rw [recordTerminal_pendingOutcome, if_neg hraise]
    have hpf : (s.recordTerminal i o).pendingFlow = s.pendingFlow := by
      rw [recordTerminal_pendingFlow, if_neg hraise]
    rcases h with h | ⟨e, h⟩
    · refine .inl ⟨hpending.trans h.pending, fun x hx => ?_⟩
      rw [recordTerminal_entered] at hx
      rcases List.mem_append.mp hx with hx | hx
      · exact h.entered x hx
      · rw [List.mem_singleton.mp hx]
        rw [h.pending] at hraise
        exact Nat.eq_zero_of_not_pos hraise
    · refine .inr ⟨e, ?_, hpending.trans h.outcome, h.positive, fun ht => ?_⟩
      · rw [recordTerminal_entered]
        rw [h.outcome] at hraise
        exact h.decisive.append (Nat.le_of_not_lt hraise)
      · rw [hpending] at ht
        obtain ⟨ha, hv, hs, hd⟩ := h.held ht
        rw [hpf]
        rcases hflow s.pendingFlow with hk | hk <;> rw [hk]
        · exact ⟨ha, hv, hs, hd⟩
        · exact ⟨rfl, hv, hs, hd⟩

theorem Undecided.congr (h : s.Undecided) (hp : t.pendingOutcome = s.pendingOutcome)
    (he : t.entered = s.entered) : t.Undecided := ⟨hp.trans h.pending, he ▸ h.entered⟩

/-! ## Images whose slots are taken in order -/

/-- The branches of forks and the items of regions start at actions, and a join that hands on
more than one field hands each to an action or a terminal. -/
structure Orderly (image : Image) : Prop where
  branches : ∀ edge ∈ image.tables.edges, edge.sourceKind = 6 ∨ edge.sourceKind = 8 →
    edge.targetKind = 1
  fields : ∀ a ∈ image.tables.edges, ∀ b ∈ image.tables.edges, a.sourceKind = 7 →
    b.sourceKind = 7 → a.sourceNode = b.sourceNode → a.caseTag ≠ b.caseTag →
    a.targetKind = 1 ∨ a.targetKind = 2

/-- The fields of the join behind the edge enter actions and terminals. -/
def FieldsRest (image : Image) (joinNode : UInt16) : Prop :=
  ∀ field ∈ image.tables.edges, field.sourceKind = 7 → field.sourceNode = joinNode →
    field.targetKind = 1 ∨ field.targetKind = 2

/-! ## Joins -/

/-- The tag in an edge tells the branches apart, because a join has fewer than 256. -/
theorem branch_tag_inj {joinNode : UInt16} {a b : Nat}
    (ha : a < (image.node joinNode).subtype.toNat) (hb : b < (image.node joinNode).subtype.toNat)
    (h : UInt8.ofNat a = UInt8.ofNat b) : a = b := by
  have hlt := (image.node joinNode).subtype.toNat_lt
  have := congrArg UInt8.toNat h
  simp only [UInt8.toNat_ofNat'] at this
  rwa [Nat.mod_eq_of_lt (by omega), Nat.mod_eq_of_lt (by omega)] at this

/-- The branches of a filled join have different tags. -/
theorem branches_tags {joinNode : UInt16} {flows : List FlowIndex}
    (hflows : s.branchFlows joinNode (image.node joinNode).subtype.toNat = some flows) :
    ((List.range (image.node joinNode).subtype.toNat).zip flows).Pairwise
      fun a b => UInt8.ofNat a.1 ≠ UInt8.ofNat b.1 := by
  have hmem : ∀ b ∈ (List.range (image.node joinNode).subtype.toNat).zip flows,
      b.1 < (image.node joinNode).subtype.toNat :=
    fun b hb => List.mem_range.mp (List.of_mem_zip hb).1
  have hfst := List.map_fst_zip (branchFlows_some hflows).length_eq.le
  have hnodup := List.nodup_range (n := (image.node joinNode).subtype.toNat)
  rw [← hfst, List.Nodup, List.pairwise_map] at hnodup
  refine List.Pairwise.imp_of_mem (fun {a b} ha hb hne heq => hne ?_) hnodup
  exact branch_tag_inj (hmem a ha) (hmem b hb) heq

/-- A field that enters an action or a terminal, or is dropped, concerns its own flow only. -/
theorem releaseBranch_kept {joinNode : UInt16} {branch : Nat × FlowIndex}
    (hfields : FieldsRest image joinNode) (hs : s.ResultKept)
    (hact : (s.flows branch.2).active = true) :
    (releaseBranch image (enterEdge image bound) joinNode branch s).Keeps fun t =>
      t.ResultKept ∧ ∀ k, k ≠ branch.2 → t.flows k = s.flows k := by
  unfold releaseBranch
  split
  · rename_i field hfield
    obtain ⟨hmem, hsource, hnode⟩ := Image.mem_of_groupFindEdge hfield
    have haim := fun k (hk : k ≠ branch.2) =>
      show (s.aim branch.2 field).flows k = s.flows k from setFlow_flows_of_ne _ _ hk
    have hspare := hs.spare hact
    intro r t h
    rcases hfields field hmem hsource hnode with hk | hk
    · obtain ⟨-, rfl⟩ := enterEdge_action hk h
      refine ⟨(hs.setFlow hspare _).setFlow hspare _, fun k hk => ?_⟩
      rw [setFlow_flows_of_ne _ _ hk, haim k hk]
    · obtain ⟨-, rfl⟩ := enterEdge_terminal hk h
      refine ⟨(hs.setFlow hspare _).recordTerminal _ _, fun k hk => ?_⟩
      rw [recordTerminal_flows, if_neg (by simp [hk]), haim k hk]
  · exact Call.keeps_done ⟨hs.release _, fun k hk => setFlow_flows_of_ne _ _ hk⟩

/-- The fields of a join, one after the other, each in the flow of its own branch. -/
theorem releaseBranches_kept {joinNode : UInt16} (hfields : FieldsRest image joinNode) :
    ∀ (branches : List (Nat × FlowIndex)) (s : GroupExecution), s.ResultKept →
      branches.Pairwise (fun a b => a.2 ≠ b.2) →
      (∀ branch ∈ branches, (s.flows branch.2).active = true) →
      (Call.each (releaseBranch image (enterEdge image bound) joinNode) branches s).Keeps
        ResultKept := by
  intro branches
  induction branches with
  | nil => intro s hs _ _; exact Call.keeps_done hs
  | cons branch branches ih =>
      intro s hs hne hact
      rw [List.pairwise_cons] at hne
      refine Call.ensures_andThen (releaseBranch_kept hfields hs (hact branch (by simp)))
        (fun t ⟨ht, hsame⟩ => ih t ht hne.2 fun b hb => ?_) fun _ _ _ ⟨ht, _⟩ => ht
      rw [hsame b.2 (hne.1 b hb).symm]
      exact hact b (by simp [hb])

/-- A join whose fields rest keeps the result. -/
theorem resolveJoin_kept {joinNode : UInt16} (hfields : FieldsRest image joinNode)
    (hs : s.ResultKept) :
    (resolveJoin image (enterEdge image bound) joinNode s).Keeps ResultKept := by
  unfold resolveJoin
  simp only
  split
  · exact Call.keeps_report hs
  split
  · exact Call.keeps_done hs.maybeComplete
  · rename_i flows hflows
    have hall := List.forall₂_iff_zip.mp (branchFlows_some hflows)
    have hcand : ∀ branch ∈ (List.range (image.node joinNode).subtype.toNat).zip flows,
        (s.flows branch.2).active = true ∧
          (s.flows branch.2).joinTag = UInt8.ofNat branch.1 := by
      intro branch hb
      have hbranch : s.branchFlow joinNode (UInt8.ofNat branch.1) = some branch.2 :=
        hall.2 (by simpa using hb)
      have hfound := firstIndex_some hbranch
      simp only [Bool.and_eq_true, beq_iff_eq] at hfound
      exact ⟨hfound.1.1.1, hfound.2⟩
    refine Call.keeps_andThen (releaseBranches_kept hfields _ s hs ?_
      fun b hb => (hcand b hb).1) fun t ht => Call.keeps_done ht.maybeComplete
    refine List.Pairwise.imp_of_mem (fun {a b} ha hb hne heq => hne ?_) (branches_tags hflows)
    rw [← (hcand a ha).2, ← (hcand b hb).2, heq]

/-! ## Cascades before an outcome is recorded -/

/-- Entries keep the result as long as none is recorded. -/
def EntersKept (image : Image) (bound : Nat) : Prop :=
  ∀ i edge o s, edge ∈ image.tables.edges → s.Undecided →
    (enterEdge image bound i edge o s).Keeps ResultKept

section Cascade

variable (horderly : Orderly image)
include horderly

theorem enterEdge_branch_undecided (hmem : edge ∈ image.tables.edges)
    (hk : edge.sourceKind = 6 ∨ edge.sourceKind = 8) (hs : s.Undecided) :
    (enterEdge image bound i edge o s).Keeps Undecided := by
  intro r t h
  obtain ⟨-, rfl⟩ := enterEdge_action (horderly.branches edge hmem hk) h
  exact hs.congr rfl rfl

theorem admitItems_undecided {regionId : UInt8} {region : Image.EachRegion} :
    ∀ (rounds : Nat) (s : GroupExecution), s.Undecided →
      (admitItems image (enterEdge image bound) regionId region rounds s).Keeps Undecided := by
  intro rounds
  induction rounds with
  | zero => intro s _; exact Call.ensures_none
  | succ rounds ih =>
      intro s hs
      unfold admitItems
      split
      · exact Call.keeps_done hs
      split
      · exact Call.keeps_report hs
      · simp only
        refine Call.keeps_andThen (I := Undecided) ?_ fun t ht => ?_
        · unfold copyValue
          split
          · exact Call.keeps_report (hs.congr rfl rfl)
          · exact Call.keeps_done (hs.congr rfl rfl)
        · split
          · exact Call.keeps_report ht
          · rename_i item hitem
            obtain ⟨hmem, hk, -⟩ := Image.mem_of_groupFindEdge hitem
            exact Call.keeps_andThen
              (enterEdge_branch_undecided horderly hmem (.inr hk) ht) fun u hu => ih u hu

theorem eachAdmit_undecided {rounds : Nat} (hs : s.Undecided) :
    (eachAdmit image (enterEdge image bound) rounds s).Keeps Undecided := by
  unfold eachAdmit
  split
  · exact Call.keeps_report hs
  · exact admitItems_undecided horderly rounds s hs

omit horderly in
theorem takeBranches_undecided (source : FlowIndex) :
    ∀ (count : Nat) (flows : List FlowIndex) (s : GroupExecution), s.Undecided →
      (takeBranches source count flows s).2.2.Undecided := by
  intro count
  induction count with
  | zero => intro flows s hs; exact hs
  | succ count ih =>
      intro flows s hs
      unfold takeBranches
      split
      · exact hs
      · simp only
        split
        · exact hs.congr rfl rfl
        · exact ih _ _ (hs.congr rfl rfl)

theorem enterFork_undecided {forkNode : UInt16} (hs : s.Undecided) :
    (enterFork image (enterEdge image bound) i forkNode s).Keeps Undecided := by
  unfold enterFork
  simp only
  split
  · exact Call.keeps_report hs
  · have htaken := takeBranches_undecided i
      ((image.node forkNode).subtype.toNat - 1) [i] s hs
    split
    · rename_i flows t heq
      rw [heq] at htaken
      refine Call.keeps_each _ (fun branch _ u hu => ?_) t htaken
      unfold enterBranch
      split
      · exact Call.keeps_report hu
      · rename_i first hfirst
        obtain ⟨hmem, hk, -⟩ := Image.mem_of_groupFindEdge hfirst
        exact enterEdge_branch_undecided horderly hmem (.inl hk) hu
    · rename_i heq
      rw [heq] at htaken
      exact Call.keeps_report htaken

omit horderly in
theorem eachFinish_kept (ih : EntersKept image bound) (hs : s.Undecided) :
    (eachFinish image (enterEdge image bound) s).Keeps ResultKept := by
  unfold eachFinish
  simp only
  split
  · exact Call.keeps_report (.inl hs)
  · refine Call.ensures_andThen (Q := fun _ t => t.Undecided) ?_ (fun t ht => ?_)
      fun _ _ _ ht => .inl ht
    · unfold copyValue
      split
      · exact Call.keeps_report hs
      · exact Call.keeps_done (hs.congr rfl rfl)
    · split
      · exact Call.keeps_report (.inl ht)
      split
      · exact Call.keeps_report (.inl (ht.congr rfl rfl))
      · rename_i exit hexit
        exact ih _ _ _ _ (Image.mem_of_groupFindEdge hexit).1 (ht.congr rfl rfl)

theorem eachCollect_kept (ih : EntersKept image bound) {rounds : Nat} {regionId : UInt8}
    (hs : s.Undecided) :
    (eachCollect image (enterEdge image bound) rounds i regionId s).Keeps ResultKept := by
  unfold eachCollect
  split
  · exact Call.keeps_report (.inl hs)
  · simp only
    refine Call.ensures_andThen (Q := fun _ t => t.Undecided) (fun r t ht => ?_) (fun t ht => ?_)
      fun _ _ _ ht => .inl ht
    · have hf := flushItems_flushed _ _ r t ht
      exact Undecided.congr (hs.congr rfl rfl) hf.pendingOutcome hf.entered
    · split
      · exact eachFinish_kept ih ht
      · exact Call.Ensures.mono (eachAdmit_undecided horderly ht) fun _ _ hu => .inl hu

theorem eachStart_kept (ih : EntersKept image bound) {rounds : Nat} {regionId : UInt8}
    (hs : s.Undecided) :
    (eachStart image (enterEdge image bound) rounds i regionId s).Keeps ResultKept := by
  unfold eachStart
  simp only
  split
  · exact Call.keeps_report (.inl hs)
  split
  · exact Call.keeps_report (.inl hs)
  split
  · exact Call.keeps_report (.inl hs)
  split
  · exact Call.keeps_report (.inl (hs.congr rfl rfl))
  split
  · exact Call.keeps_report (.inl (hs.congr rfl rfl))
  split
  · exact eachFinish_kept ih (hs.congr rfl rfl)
  · exact Call.Ensures.mono (eachAdmit_undecided horderly (hs.congr rfl rfl))
      fun _ _ hu => .inl hu

omit horderly in
/-- When only one field of a join is handed on, nothing is recorded before it is. -/
theorem releaseBranches_single (ih : EntersKept image bound) {joinNode : UInt16} {tag : UInt8}
    (hsingle : ∀ field ∈ image.tables.edges, field.sourceKind = 7 → field.sourceNode = joinNode →
      field.caseTag = tag) :
    ∀ (branches : List (Nat × FlowIndex)) (s : GroupExecution),
      branches.Pairwise (fun a b => UInt8.ofNat a.1 ≠ UInt8.ofNat b.1) →
      s.Undecided ∨ (s.ResultKept ∧ ∀ branch ∈ branches, UInt8.ofNat branch.1 ≠ tag) →
      (Call.each (releaseBranch image (enterEdge image bound) joinNode) branches s).Keeps
        ResultKept := by
  intro branches
  induction branches with
  | nil => intro s _ hs; exact Call.keeps_done (hs.elim .inl (·.1))
  | cons branch branches loop =>
      intro s hne hs
      rw [List.pairwise_cons] at hne
      refine Call.ensures_andThen (Q := fun _ t => t.Undecided ∨
        (t.ResultKept ∧ ∀ b ∈ branches, UInt8.ofNat b.1 ≠ tag)) ?_
        (fun t ht => loop t hne.2 ht) fun _ _ _ ht => ht.elim .inl (·.1)
      unfold releaseBranch
      split
      · rename_i field hfield
        obtain ⟨hmem, hsource, hnode⟩ := Image.mem_of_groupFindEdge hfield
        have htag : UInt8.ofNat branch.1 = tag := by
          rw [← Image.caseTag_of_groupFindEdge (by decide) hfield]
          exact hsingle field hmem hsource hnode
        rcases hs with hs | ⟨-, hno⟩
        · refine Call.Ensures.mono (ih _ field _ s hmem hs) fun _ t ht => .inr ⟨ht, fun b hb => ?_⟩
          rw [← htag]
          exact (hne.1 b hb).symm
        · exact absurd htag (hno branch (by simp))
      · refine Call.keeps_done ?_
        rcases hs with hs | ⟨hs, hno⟩
        · exact .inl (hs.congr rfl rfl)
        · exact .inr ⟨hs.release _, fun b hb => hno b (by simp [hb])⟩

theorem resolveJoin_undecided (ih : EntersKept image bound) {joinNode : UInt16}
    (hs : s.Undecided) :
    (resolveJoin image (enterEdge image bound) joinNode s).Keeps ResultKept := by
  by_cases hrest : FieldsRest image joinNode
  · exact resolveJoin_kept hrest (.inl hs)
  · -- a field that goes elsewhere is the only one
    simp only [FieldsRest, not_forall] at hrest
    obtain ⟨only, hmem, hsource, hnode, hkind⟩ := hrest
    have hsingle : ∀ field ∈ image.tables.edges, field.sourceKind = 7 →
        field.sourceNode = joinNode → field.caseTag = only.caseTag := by
      intro field hf hfs hfn
      by_contra hne
      exact hkind (horderly.fields only hmem field hf hsource hfs (hnode.trans hfn.symm)
        (Ne.symm hne))
    unfold resolveJoin
    simp only
    split
    · exact Call.keeps_report (.inl hs)
    split
    · exact Call.keeps_done (ResultKept.maybeComplete (.inl hs))
    · rename_i flows hflows
      exact Call.keeps_andThen (releaseBranches_single ih hsingle _ s (branches_tags hflows)
        (.inl hs)) fun t ht => Call.keeps_done ht.maybeComplete

omit horderly in
theorem routeDispatch_undecided (ih : EntersKept image bound) {node : UInt16}
    (hs : s.Undecided) :
    (routeDispatch image (enterEdge image bound) i node o s).Keeps ResultKept := by
  unfold routeDispatch
  simp only
  split
  · exact Call.keeps_report (.inl hs)
  split
  · exact Call.keeps_report (.inl hs)
  split
  · exact Call.keeps_report (.inl hs)
  · rename_i next hnext
    split
    · exact Call.keeps_report (.inl (hs.congr rfl rfl))
    · exact ih _ _ _ _ (Image.mem_of_groupFindEdge hnext).1 (hs.congr rfl rfl)

theorem arrive_undecided (ih : EntersKept image bound) {rounds : Nat}
    (hs : s.Undecided) :
    (arrive image (enterEdge image bound) rounds i edge o s).Keeps ResultKept := by
  unfold arrive
  split
  · exact Call.keeps_done (.inl (hs.congr rfl rfl))
  split
  · exact Call.Ensures.mono (enterFork_undecided horderly hs) fun _ _ hu => .inl hu
  split
  · exact routeDispatch_undecided ih hs
  split
  · exact resolveJoin_undecided horderly ih (hs.congr rfl rfl)
  split
  · exact eachStart_kept horderly ih hs
  split
  · exact eachCollect_kept horderly ih hs
  split
  · exact Call.keeps_done (ResultKept.recordTerminal (.inl hs) i o)
  · exact Call.keeps_report (.inl hs)

/-- **Before an outcome is recorded, a cascade keeps what it records.** -/
theorem entersKept : ∀ bound, EntersKept image bound := by
  intro bound
  induction bound with
  | zero => intro i edge o s _ _; exact Call.ensures_none
  | succ bound ih =>
      intro i edge o s _ hs
      exact arrive_undecided horderly ih (hs.congr rfl rfl)

end Cascade

/-! ## Late results -/

/-- A flow that enters the edge takes no slot. -/
def TakesNoSlot (image : Image) (s : GroupExecution) (i mover : FlowIndex) (edge : Edge) : Prop :=
  edge.targetKind = 1 ∨ edge.targetKind = 2 ∨
    (edge.targetKind = 5 ∧
      (BranchMissing image s i mover edge ∨ FieldsRest image edge.targetNode))

/-- Where the result of the flow comes to rest, no slot is taken: no fork and no region is
entered, no item is admitted, and the coordinator's slot is not the one of the result. -/
def LandsClear (image : Image) (s : GroupExecution) (i : FlowIndex) : Landing → Prop
  | .stuck _ _ _ => True
  | .at edge _ => TakesNoSlot image s i i edge ∨
      (edge.targetKind = 7 ∧ s.eachItemCount ≤ s.eachNextItem ∧
        (s.ItemMissing i ∨ s.eachCoordinatorFlow ≠ s.pendingFlow ∧
          ∃ exit, image.groupFindEdge 9 s.activeEachRegion.toUInt16 0 = some exit ∧
            TakesNoSlot image s i s.eachCoordinatorFlow exit))

/-- Results that come in while a typed outcome is recorded take no slot. -/
def LateResultClear (image : Image) (s : GroupExecution) : GroupOp → Prop
  | .acceptResult i result => Execution.typedOutcome s.pendingOutcome = true →
      ∀ l, resultLanding image s i result = some l → LandsClear image s i l
  | _ => True

theorem enterEdge_takesNoSlot_kept {mover : FlowIndex} (hmem : edge ∈ image.tables.edges)
    (he : TakesNoSlot image s i mover edge)
    (hflows : ∀ k, k ≠ mover → (t.flows k).active = true → (t.flows k).state = .waiting →
      StillWaits s i t k)
    (ht : t.ResultKept) (hspare : t.Spare mover) :
    (enterEdge image bound mover edge o t).Keeps ResultKept := by
  intro r s' h
  rcases he with hk | hk | ⟨hk, hjoin⟩
  · obtain ⟨-, rfl⟩ := enterEdge_action hk h
    exact (ht.setFlow hspare _).setFlow hspare _
  · obtain ⟨-, rfl⟩ := enterEdge_terminal hk h
    exact (ht.setFlow hspare _).recordTerminal _ _
  · cases bound with
    | zero => cases h
    | succ bound =>
        rw [enterEdge] at h
        have haim : (t.aim mover edge).ResultKept := ht.setFlow hspare _
        rcases hjoin with hm | hrest
        · have hothers : ∀ k, k ≠ mover → (t.aim mover edge).flows k = t.flows k :=
            fun k hkm => setFlow_flows_of_ne _ _ hkm
          obtain ⟨-, rfl⟩ := arrive_branchMissing hk hmem hm
            (fun k hkm ha hst => by
              rw [hothers k hkm] at ha hst
              exact (hflows k hkm ha hst).congr (hothers k hkm)) h
          exact (haim.setFlow hspare _).maybeComplete
        · rw [arrive_join _ _ _ _ _ _ hk] at h
          exact resolveJoin_kept hrest (haim.setFlow hspare _) r s' h

theorem ResultKept.collected {v : GroupExecution} (h : t.ResultKept) (hi : t.Spare i)
    (hv : Collected t i v) : v.ResultKept := by
  refine h.congr hv.pendingOutcome hv.pendingFlow hv.entered fun ht => ?_
  rcases hv.flows t.pendingFlow with hk | hk | ⟨rfl, -⟩
  · exact .inl hk
  · exact .inr (.inr hk)
  · exact absurd rfl (hi ht)

/-- Handing the collection on takes no slot but the coordinator's. -/
theorem eachFinish_clear_kept {v : GroupExecution} {exit : Edge} (hv : v.ResultKept)
    (hspare : v.Spare v.eachCoordinatorFlow)
    (hexit : image.groupFindEdge 9 v.activeEachRegion.toUInt16 0 = some exit)
    (he : TakesNoSlot image t i v.eachCoordinatorFlow exit)
    (hflows : ∀ k, (v.flows k).active = true → (v.flows k).state = .waiting →
      StillWaits t i v k) :
    (eachFinish image (enterEdge image bound) v).Keeps ResultKept := by
  unfold eachFinish
  simp only
  split
  · exact Call.keeps_report hv
  refine Call.ensures_andThen (Q := fun _ w => ∃ f, w = v.setFlow v.eachCoordinatorFlow f) ?_ ?_ ?_
  · unfold copyValue
    split
    · exact Call.ensures_report ⟨id, by simp [GroupExecution.setFlow]⟩
    · exact Call.ensures_done ⟨_, rfl⟩
  · rintro w ⟨f, rfl⟩
    have hset := hv.setFlow hspare f
    have hothers : ∀ g k, k ≠ v.eachCoordinatorFlow →
        (v.setFlow v.eachCoordinatorFlow g).flows k = v.flows k :=
      fun g k hk => setFlow_flows_of_ne _ _ hk
    split
    · exact Call.keeps_report hset
    rw [hexit, setFlow_setFlow]
    have hactive := hv.setFlow hspare fun flow => { f flow with active := true, eachRegion := 0 }
    refine enterEdge_takesNoSlot_kept (s := t) (i := i) (Image.mem_of_groupFindEdge hexit).1 he
      (fun k hk ha hst => ?_) (hactive.congr rfl rfl rfl fun _ => .inl rfl) hspare
    simp only [hothers _ k hk] at ha hst
    exact (hflows k ha hst).congr (by simp only [hothers _ k hk])
  · rintro r w - ⟨f, rfl⟩
    exact hv.setFlow hspare f

/-- Collecting an item takes no slot once all items are admitted, up to the coordinator's. -/
theorem eachCollect_clear_kept {rounds : Nat} {regionId : UInt8} (ht : t.ResultKept)
    (hspare : t.Spare i) (hadmitted : t.eachItemCount ≤ t.eachNextItem)
    (hrest : t.ItemMissing i ∨ t.eachCoordinatorFlow ≠ t.pendingFlow ∧
      ∃ exit, image.groupFindEdge 9 t.activeEachRegion.toUInt16 0 = some exit ∧
        TakesNoSlot image t i t.eachCoordinatorFlow exit) :
    (eachCollect image (enterEdge image bound) rounds i regionId t).Keeps ResultKept := by
  intro r s' h
  rcases eachCollect_cases h with ⟨-, rfl⟩ | ⟨v, hv, hend⟩
  · exact ht
  have hkept := ht.collected hspare hv
  rcases hend with ⟨-, rfl⟩ | ⟨hdone, hfinish⟩ | hadm
  · exact hkept
  · rcases hrest with hmiss | ⟨hne, exit, hexit, hends⟩
    · exact absurd hdone (hv.not_done hmiss)
    · have hfound : image.groupFindEdge 9 v.activeEachRegion.toUInt16 0 = some exit := by
        rw [hv.region]; exact hexit
      have hclear : TakesNoSlot image t i v.eachCoordinatorFlow exit := by
        rw [hv.coordinator]; exact hends
      refine eachFinish_clear_kept hkept (fun _ => ?_) hfound hclear (fun k => hv.stillWaits k)
        r s' hfinish
      rw [hv.coordinator, hv.pendingFlow]
      exact hne
  · exact hv.admit_admitted hadmitted hadm ▸ hkept

/-- **A late result that takes no slot keeps the result.** -/
theorem landsClear_kept {l : Landing} (hs : s.Sent i) (hkept : s.ResultKept)
    (hl : LandsClear image s i l)
    (hmem : ∀ edge value, l = .at edge value → edge ∈ image.tables.edges)
    (h : LandsWith image i o s r s' l) : s'.ResultKept := by
  have hspare := hkept.spare hs.1
  cases l with
  | stuck e v result =>
      obtain ⟨-, -, rfl⟩ := h
      exact hkept.setFlow hspare _
  | «at» e v =>
      obtain ⟨-, bound, harrive⟩ := h
      have hland : (s.landed i e v).ResultKept := hkept.setFlow hspare _
      rcases hl with hclear | ⟨hk, hadmitted, hrest⟩
      · have hkeep : (enterEdge image (bound + 1) i e o (s.landed i e v)).Keeps ResultKept :=
          enterEdge_takesNoSlot_kept (hmem e v rfl) hclear
            (fun k hk => .of_eq (setFlow_flows_of_ne _ _ hk)) hland hspare
        refine hkeep r s' ?_
        rw [enterEdge, aim_eq_landed]
        simpa [landed] using harrive
      · rw [arrive_collect _ _ _ _ _ _ hk] at harrive
        refine eachCollect_clear_kept hland hspare hadmitted ?_ r s' harrive
        rcases hrest with hmiss | ⟨hne, exit, hexit, hends⟩
        · exact .inl ((itemMissing_landed _ _).mpr hmiss)
        · refine .inr ⟨hne, exit, hexit, ?_⟩
          rcases hends with hk | hk | ⟨hkind, hm⟩
          · exact .inl hk
          · exact .inr (.inl hk)
          · exact .inr (.inr ⟨hkind, hm.imp (branchMissing_landed _ _).mpr id⟩)

/-- While the recorded outcome carries no value, nothing can hurt the result. -/
theorem stable_untyped {o : Outcome} (ho : o.IsFailure)
    (ht : Execution.typedOutcome o = false) : Stable (fun _ => True)
      fun s => s.ResultKept ∧ s.pendingOutcome = o where
  free := fun _ _ _ _ => trivial
  waiting := fun _ _ _ _ _ => trivial
  coordinator := fun _ _ => trivial
  setFlow := fun s i f h _ => ⟨h.1.setFlow (fun hty => by rw [h.2, ht] at hty; cases hty) f, h.2⟩
  recordTerminal := fun s i o' h hi ho' =>
    ⟨h.1.recordTerminal i o', (stable_failed ho).recordTerminal s i o' h.2 hi ho'⟩
  maybeComplete := fun s h => ⟨h.1.maybeComplete, by simpa using h.2⟩
  sameButEach := fun s t h hst _ => ⟨h.1.congr hst.pendingOutcome hst.pendingFlow hst.entered
    fun _ => .inl (by rw [hst.flows]), hst.pendingOutcome.trans h.2⟩

/-- A result whose arrival is unrestricted, because there is no value to hurt. -/
theorem landsWith_untyped_kept {l : Landing} (horderly : Orderly image) (hkept : s.ResultKept)
    (hout : s.pendingOutcome ≠ .protocolError)
    (hun : Execution.typedOutcome s.pendingOutcome = false)
    (h : LandsWith image i o s r s' l) : s'.ResultKept := by
  have hspare : s.Spare i := fun ht => by rw [hun] at ht; cases ht
  cases l with
  | stuck e v result =>
      obtain ⟨-, -, rfl⟩ := h
      exact hkept.setFlow hspare _
  | «at» e v =>
      obtain ⟨hk, bound, harrive⟩ := h
      have hland : (s.landed i e v).ResultKept := hkept.setFlow hspare _
      by_cases hterminal : e.targetKind = 2
      · obtain ⟨-, rfl⟩ := arrive_terminal hterminal harrive
        exact hland.recordTerminal _ _
      rcases hkept with hnone | ⟨e', hrec⟩
      · have hund : (s.landed i e v).Undecided := hnone.congr rfl rfl
        exact arrive_undecided horderly (entersKept horderly bound) hund r s' harrive
      · have hfail : s.pendingOutcome.IsFailure := by
          have hpos := hrec.positive
          rw [← hrec.outcome] at hpos
          cases hp : s.pendingOutcome <;>
            simp_all [Outcome.precedence, Outcome.IsFailure, Execution.typedOutcome]
        have hset : (s.landed i e v).ResultKept ∧
            (s.landed i e v).pendingOutcome = s.pendingOutcome := ⟨hland, rfl⟩
        exact (arrive_keeps (stable_untyped hfail hun) hset trivial (.inr ⟨hterminal, hk⟩) r s'
          harrive).1

/-! ## Runs -/

/-- **A step keeps the result**, if late results take no slot. -/
theorem resultKept_performs {op : GroupOp} (horderly : Orderly image)
    (hout : s.pendingOutcome ≠ .protocolError) (hs : s.ResultKept)
    (hc : LateResultClear image s op) (hop : Performs image s op s') : s'.ResultKept := by
  have hclose : ∀ (s : GroupExecution) (i : FlowIndex) (o : Outcome) (s' : GroupExecution),
      s.ResultKept → (s.flows i).active = true → s.Closes i o s' → s'.ResultKept := by
    rintro s i o s' hs ha ⟨f, -, -, rfl⟩
    exact (hs.setFlow (hs.spare ha) f).recordTerminal i o
  cases op with
  | prepare i =>
      rcases performs_prepare hop with rfl | ⟨frame, hp⟩
      · exact hs
      · obtain ⟨-, ha, -, -, rfl⟩ := prepare_ok hp
        have hnext : ResultKept { s with nextRequestId := s.nextRequestId + 1 } :=
          hs.congr rfl rfl rfl fun _ => .inl rfl
        exact hnext.setFlow (hs.spare ha) _
  | markSent i =>
      rcases performs_markSent hop with rfl | hm
      · exact hs
      · obtain ⟨ha, -, rfl⟩ := markSent_ok hm
        exact hs.setFlow (hs.spare ha) _
  | markNotSent i =>
      obtain ⟨bound, r, hcall⟩ := hop
      rcases deliveryOutcome_cases (.inl rfl) hcall with ⟨-, rfl⟩ | ⟨-, ha, -, hcl⟩
      · exact hs
      · exact hclose _ _ _ _ hs ha hcl
  | markUnknown i =>
      obtain ⟨bound, r, hcall⟩ := hop
      rcases deliveryOutcome_cases (.inr rfl) hcall with ⟨-, rfl⟩ | ⟨-, ha, -, hcl⟩
      · exact hs
      · exact hclose _ _ _ _ hs ha hcl
  | acceptResult i result =>
      obtain ⟨bound, r, hcall⟩ := hop
      rcases acceptResult_cases hcall with ⟨-, rfl⟩ | ⟨hsent, -, l, hl, hlands⟩
      · exact hs
      · cases htyped : Execution.typedOutcome s.pendingOutcome with
        | true =>
            have hmem : ∀ edge value, l = .at edge value → edge ∈ image.tables.edges :=
              fun _ _ => resultLanding_mem hl
            exact landsClear_kept hsent hs (hc htyped l hl) hmem hlands
        | false => exact landsWith_untyped_kept horderly hs hout htyped hlands
  | expireRegion regionId =>
      obtain ⟨bound, r, hcall⟩ := hop
      exact expireRegion_keeps (fun s i o s' hs ha _ hcl => hclose s i o s' hs ha hcl) hs hcall

theorem resultKept_starts (horderly : Orderly image) (hs : Starts image s) : s.ResultKept := by
  obtain ⟨bound, executionId, capacity, stride, inputType, input, hstart⟩ := hs
  unfold start at hstart
  split at hstart
  · cases hstart
  split at hstart
  · cases hstart
  split at hstart
  · cases hstart
  rename_i root hroot
  simp only at hstart
  split at hstart
  · cases hstart
  · rename_i s₁ henter
    obtain rfl := Except.ok.inj (Option.some.inj hstart)
    refine entersKept horderly bound 0 root .none _ (Image.mem_of_groupFindEdge hroot).1 ?_ _ _
      henter
    refine ⟨fresh_pendingOutcome image executionId stride, fun e he => ?_⟩
    have hnil : e ∈ (fresh image executionId stride).entered := he
    rw [fresh_entered] at hnil
    cases hnil
  · cases hstart

/-- A complete execution has an outcome. -/
theorem complete_decided {C : GroupExecution → GroupOp → Prop}
    (h : (system image).ReachWhere C s) : s.complete = true → s.pendingOutcome ≠ .none := by
  have hmaybe : ∀ s : GroupExecution, (s.complete = true → s.pendingOutcome ≠ .none) →
      s.maybeComplete.complete = true → s.maybeComplete.pendingOutcome ≠ .none := by
    intro s hs hc
    rw [maybeComplete_pendingOutcome]
    unfold GroupExecution.maybeComplete at hc
    split at hc
    · rename_i h
      rw [h.1]
      decide
    split at hc
    · rename_i h
      exact h.1
    · exact hs hc
  have hrecord : ∀ (s : GroupExecution) (i : FlowIndex) (o : Outcome),
      (s.complete = true → s.pendingOutcome ≠ .none) →
      (s.recordTerminal i o).complete = true → (s.recordTerminal i o).pendingOutcome ≠ .none := by
    intro s i o hs
    refine hmaybe _ fun hc => ?_
    have hcomplete : s.complete = true := by
      split_ifs at hc <;> simp only [cutOff, recordOutcome, GroupExecution.setFlow] at hc <;>
        split_ifs at hc <;> exact hc
    have hpending := recordTerminal_pendingOutcome s i o
    unfold GroupExecution.recordTerminal at hpending
    simp only [maybeComplete_pendingOutcome] at hpending
    rw [hpending]
    split_ifs with hraise
    · rintro rfl
      cases hp : s.pendingOutcome <;> rw [hp] at hraise <;> exact absurd hraise (by decide)
    · exact hs hcomplete
  have hstable : Stable (fun _ => True)
      fun s => s.complete = true → s.pendingOutcome ≠ .none := {
    free := fun _ _ _ _ => trivial
    waiting := fun _ _ _ _ _ => trivial
    coordinator := fun _ _ => trivial
    setFlow := fun _ _ _ h _ => h
    recordTerminal := fun s i o h _ _ => hrecord s i o h
    maybeComplete := fun s h => hmaybe s h
    sameButEach := fun s t h hst _ => by rw [hst.complete, hst.pendingOutcome]; exact h }
  refine h.invariant (P := fun s => s.complete = true → s.pendingOutcome ≠ .none)
    (fun s hs => ?_) fun s op s' hs _ hop => ?_
  · refine starts_keeps hstable trivial (fun executionId stride f hc => ?_) hs
    have : (fresh image executionId stride).complete = true := hc
    rw [fresh_complete] at this
    cases this
  · exact performs_keeps hstable (fun _ _ h => h) (fun s i o hs _ => hrecord s i o hs) hs hop

/--
**The recorded result survives.** In an orderly image and a run whose late results
take no slot, a complete execution returns what the flow of the decisive entry
had when it entered its terminal.
-/
theorem getResult_reachable (horderly : Orderly image)
    (h : (system image).ReachWhere (LateResultClear image) s) (hcomplete : s.complete = true) :
    ∃ e, IsDecisive s.entered e ∧
      s.getResult = .ok (resultFrame s.executionId e.outcome e.flow) := by
  have hkept : s.ResultKept := by
    refine System.ReachWhere.invariant_with (P := ResultKept)
      (fun _ h => pendingOutcome_reachable h) (fun s hs => resultKept_starts horderly hs) ?_ h
    intro s op s' hout hs hc hop
    exact resultKept_performs horderly hout hs hc hop
  rcases hkept with hnone | ⟨e, hrec⟩
  · exact absurd hnone.pending (complete_decided h hcomplete)
  · refine ⟨e, hrec.decisive, ?_⟩
    have hframe : resultFrame s.executionId s.pendingOutcome (s.flows s.pendingFlow) =
        resultFrame s.executionId e.outcome e.flow := by
      rw [hrec.outcome]
      cases htyped : Execution.typedOutcome e.outcome with
      | false => simp [resultFrame, htyped]
      | true =>
          obtain ⟨-, hv, hsrc, hdst⟩ := hrec.held (hrec.outcome ▸ htyped)
          simp [resultFrame, htyped, hv, hsrc, hdst]
    rw [getResult, if_neg (by simp [hcomplete]), hframe]

/-! ## A fork within a fork -/

theorem forkJoin_orderly : Orderly forkJoin :=
  ⟨by decide +kernel, by decide +kernel⟩

/-- No typed outcome is recorded, or the result enters a terminal. -/
def keepsSlots (s : GroupExecution) : GroupOp → Bool
  | .acceptResult i result => !Execution.typedOutcome s.pendingOutcome ||
      match resultLanding forkJoin s i result with
      | some (.at edge _) => edge.targetKind == 2
      | _ => true
  | _ => true

theorem lateResultClear_of_keepsSlots (op : GroupOp) (hcheck : keepsSlots s op = true) :
    LateResultClear forkJoin s op := by
  cases op with
  | acceptResult i result =>
      intro htyped l hl
      simp only [keepsSlots, htyped, Bool.not_true, Bool.false_or, hl] at hcheck
      cases l with
      | stuck e v res => exact trivial
      | «at» e v => exact .inl (.inr (.inl (by simpa using hcheck)))
  | _ => exact trivial

set_option maxRecDepth 20000 in
/-- When `b` fails and then `a`, the value of `b` is returned. -/
theorem getResult_reachable_forkJoin : ∃ (s : GroupExecution) (e : TerminalEntry),
    s.complete = true ∧ IsDecisive s.entered e ∧
      s.getResult = .ok (resultFrame s.executionId e.outcome e.flow) := by
  obtain ⟨s, hs⟩ : ∃ s, forkJoinRun keepsSlots
      (firstFailure ++ [.acceptResult 0 (boolResult 1 1 .appError 0)]) = some s :=
    Option.isSome_iff_exists.mp (by decide +kernel)
  have hobs : (forkJoinRun keepsSlots
      (firstFailure ++ [.acceptResult 0 (boolResult 1 1 .appError 0)])).all
      (fun s => s.complete) = true := by decide +kernel
  rw [hs, Option.all_some] at hobs
  obtain ⟨e, he, hresult⟩ := getResult_reachable forkJoin_orderly
    (reachWhere_runFrom forkJoin (fun _ => lateResultClear_of_keepsSlots) hs) hobs
  exact ⟨s, e, hobs, he, hresult⟩

/-- `a` and `b` run side by side, `a` is followed by `c` and `d` side by side. -/
def nestedForkLayout : Image.Layout where
  errors := [1]
  contracts := [.of 1, .of 2, .of 3, .of 4]
  types := [Image.boolType]
  nodes := [⟨4, 2, 1, 0, 0⟩, .action1 1, .action1 2, ⟨4, 2, 1, 0, 0⟩, .action1 3, .action1 4,
    ⟨5, 2, 0, 0, 0⟩, ⟨5, 2, 0, 0, 0⟩, .terminal 1, .terminal 2, .terminal 3, .terminal 4]
  edges := [.wire 0 0 4 1, .wire 6 1 1 2 0, .wire 6 1 1 3 1,
    .wire 1 2 4 4, .wire 2 2 2 10, .bare 3 2 11, .bare 4 2 12,
    .wire 1 3 5 8 1, .wire 2 3 2 10, .bare 3 3 11, .bare 4 3 12,
    .wire 6 4 1 5 0, .wire 6 4 1 6 1,
    .wire 1 5 5 7 0, .wire 2 5 2 10, .bare 3 5 11, .bare 4 5 12,
    .wire 1 6 5 7 1, .wire 2 6 2 10, .bare 3 6 11, .bare 4 6 12,
    .wire 7 7 5 8 0, .wire 7 8 2 9 0]

set_option maxRecDepth 20000 in
theorem nestedFork_valid :
    (Image.imageValidate nestedForkLayout.encode).toOption.isSome = true := by decide +kernel

def nestedFork : Image := nestedForkLayout.image nestedFork_valid

/-- `b` fails with 0 in slot 1, `a` succeeds with 1, and `d` takes slot 1 and fails with 1. -/
def overwritten : List GroupOp :=
  [.prepare 0, .prepare 1, .markSent 0, .markSent 1, .acceptResult 1 (boolResult 2 2 .appError 0),
    .acceptResult 0 (boolResult 1 1 .success), .prepare 0, .prepare 1, .markSent 0, .markSent 1,
    .acceptResult 0 (boolResult 3 3 .appError), .acceptResult 1 (boolResult 4 4 .appError)]

/-- The value that `b` failed with is lost: the execution returns that of `d`. -/
theorem getResult_overwritten : ∃ (s : GroupExecution) (e : TerminalEntry),
    (system nestedFork).Reach s ∧ s.complete = true ∧ IsDecisive s.entered e ∧
      s.getResult ≠ .ok (resultFrame s.executionId e.outcome e.flow) := by
  obtain ⟨s, hs⟩ : ∃ s, runFrom nestedFork (fun _ _ => true) 20 overwritten 1 64 8 1 [1] =
      some s := Option.isSome_iff_exists.mp (by decide +kernel)
  have hobs : (runFrom nestedFork (fun _ _ => true) 20 overwritten 1 64 8 1 [1]).all
      (fun s => decide (s.complete = true ∧
        s.entered.map (fun e => (e.outcome, e.flow.value)) =
          [(.appError, [0]), (.appError, [1]), (.appError, [1])] ∧
        (s.getResult.toOption.map fun frame => frame.payload) = some [1])) = true := by
    decide +kernel
  rw [hs, Option.all_some, decide_eq_true_eq] at hobs
  obtain ⟨hcomplete, hentered, hpayload⟩ := hobs
  obtain ⟨e, rest, hlist, he, hrest⟩ := List.map_eq_cons_iff.mp hentered
  obtain ⟨hout, hvalue⟩ := Prod.mk.inj he
  have hlater : ∀ x ∈ rest, x.outcome = .appError := by
    intro x hx
    have hmem := List.mem_map_of_mem (f := fun e : TerminalEntry => (e.outcome, e.flow.value)) hx
    rw [hrest] at hmem
    simp only [List.mem_cons, Prod.mk.injEq, List.not_mem_nil, or_false, or_self] at hmem
    exact hmem.1
  refine ⟨s, e, reachWhere_runFrom nestedFork (fun _ _ _ => trivial) hs, hcomplete,
    ⟨[], rest, hlist, by simp, fun x hx => by rw [hlater x hx, hout]⟩, fun hresult => ?_⟩
  rw [hresult] at hpayload
  simp [Except.toOption, resultFrame, hout, Execution.typedOutcome, hvalue] at hpayload

end GroupExecution

end Hermas
