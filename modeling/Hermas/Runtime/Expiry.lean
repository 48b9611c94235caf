import Hermas.Runtime.EachRun
import Hermas.Runtime.Result
import Mathlib.Logic.Relation

/-!
# Region deadlines

When the deadline of a region passes, the flows in the region end: what is out as
unknown, and if nothing is out there the first flow as not sent, which takes every
other delivery along that is not sent yet. Where a flow stands is its current node;
an item that waits for its turn in an each region has the number of that region
there, and is counted into a deadline region that has a node of this number.
-/

namespace Hermas

open Image (Edge EachRegion)

namespace GroupExecution

/-! ## Where a flow stands -/

/-- An item that waits for its turn: its current node is the number of the each region. -/
def itemWaits (s : GroupExecution) (i : FlowIndex) : Bool :=
  (s.flows i).active && (s.flows i).state == .waiting && (s.flows i).eachRegion != 0 &&
    (s.flows i).eachRegion == s.activeEachRegion &&
    (s.flows i).currentNode == (s.flows i).eachRegion.toUInt16

/-- The node where a flow stands; an item that waits is still at the template of its region. -/
def place (s : GroupExecution) (i : FlowIndex) : UInt16 :=
  if s.itemWaits i then (s.eachRegion? (s.flows i).eachRegion).elim 0 (·.template)
  else (s.flows i).currentNode

/-- An active flow stands at a node of the region. -/
def standsIn (s : GroupExecution) (region : DeadlineRegion) (i : FlowIndex) : Bool :=
  (s.flows i).active && region.firstNode ≤ s.place i && s.place i ≤ region.lastNode

/-- The deadline region of a number. -/
def deadlineRegion? (s : GroupExecution) (regionId : UInt8) : Option DeadlineRegion :=
  if regionId = 0 then none else s.deadlineRegions[regionId.toNat - 1]?

/-- The deliveries of a region that are out. -/
def sentIn (s : GroupExecution) (region : DeadlineRegion) : List FlowIndex :=
  (List.finRange maxFlows).filter fun i => s.standsIn region i && (s.flows i).state == .sent

/-! ## What an expiry is for -/

/-- A call that succeeds. -/
def Succeeds (image : Image) (s : GroupExecution) (op : GroupOp) (s' : GroupExecution) : Prop :=
  match op with
  | .prepare i => ∃ frame, s.prepare image i = .ok (frame, s')
  | .markSent i => s.markSent i = .ok s'
  | .markNotSent i => ∃ bound, s.markNotSent image bound i = some (.ok, s')
  | .markUnknown i => ∃ bound, s.markUnknown image bound i = some (.ok, s')
  | .acceptResult i result => ∃ bound, s.acceptResult image bound i result = some (.ok, s')
  | .expireRegion regionId => ∃ bound, s.expireRegion image bound regionId = some (.ok, s')

/-- Behind a state, after any number of calls that succeed; one that fails and changes nothing
needs no step. -/
def After (image : Image) (s t : GroupExecution) : Prop :=
  Relation.ReflTransGen (fun s t => ∃ op, s.Succeeds image op t) s t

/-- What an expiry that succeeds does to a region. -/
structure Expires (image : Image) (s : GroupExecution) (region : DeadlineRegion)
    (s' : GroupExecution) : Prop where
  /-- There was a flow in the region. -/
  stands : ∃ i, s.standsIn region i = true
  /-- The deliveries of the region that are out end as unknown, each once and none as not sent.
  If there are none, one flow ends as not sent. -/
  entries : ∃ entries, s'.entered = s.entered ++ entries ∧
    ((s.sentIn region ≠ [] ∧ (∀ entry ∈ entries, entry.outcome = .unknown) ∧
      entries.map (·.flow.requestId) = (s.sentIn region).map fun i => (s.flows i).requestId) ∨
    (s.sentIn region = [] ∧ ∃ entry, entries = [entry] ∧ entry.outcome = .notSent))
  /-- No flow of the region goes on. -/
  closed : ∀ i, s.standsIn region i = true → (s'.flows i).active = false
  /-- What is out later was sent before and stood elsewhere, or was prepared later. -/
  later : ∀ t, After image s' t → ∀ k, t.Sent k →
    (s.Sent k ∧ s.standsIn region k = false ∧ (t.flows k).requestId = (s.flows k).requestId) ∨
      (s.nextRequestId ≠ 0 ∧ s.nextRequestId ≤ (t.flows k).requestId)
  precedence : s.pendingOutcome.precedence ≤ s'.pendingOutcome.precedence

/-- Expiry on a region: it succeeds as it should, or it changes nothing. -/
def ExpiryLaw (image : Image) (s : GroupExecution) (regionId : UInt8) (r : RuntimeResult)
    (s' : GroupExecution) : Prop :=
  (r = .ok → ∃ region, s.deadlineRegion? regionId = some region ∧ Expires image s region s') ∧
    (r ≠ .ok → s' = s)

/-- The edge along which a delivery that is out becomes unknown. -/
def unknownEdge (image : Image) (s : GroupExecution) (i : FlowIndex) : Option Edge :=
  image.groupFindEdge 4 (s.flows i).currentNode 0

/-- An item that waits is counted into the region at most when some flow stands there. -/
def Counted (s : GroupExecution) (region : DeadlineRegion) : Prop :=
  (∃ i, s.itemWaits i = true ∧ s.flowInRegion region i = true) →
    ∃ i, s.standsIn region i = true

/-- If the first delivery in the region that is out can become unknown, so can the others. -/
def Alike (image : Image) (s : GroupExecution) (region : DeadlineRegion) : Prop :=
  ∀ i, firstIndex (s.sentInRegion region) = some i → (unknownEdge image s i).isSome = true →
    ∀ j, s.sentInRegion region j = true → (unknownEdge image s j).isSome = true

/-- The states in which an expiry does what it should. -/
def Expirable (image : Image) (s : GroupExecution) (regionId : UInt8) : Prop :=
  s.complete = false → ∀ region, s.deadlineRegion? regionId = some region →
    s.Counted region ∧ Alike image s region

section Places

variable {s : GroupExecution} {region : DeadlineRegion} {i : FlowIndex}

theorem not_itemWaits_of_state (h : (s.flows i).state ≠ .waiting) : s.itemWaits i = false := by
  cases hwaits : s.itemWaits i with
  | false => rfl
  | true =>
      simp only [itemWaits, Bool.and_eq_true, beq_iff_eq] at hwaits
      exact absurd hwaits.1.1.1.2 h

/-- Only for an item that waits the current node is not the place. -/
theorem standsIn_eq (h : s.itemWaits i = false) :
    s.standsIn region i = s.flowInRegion region i := by
  simp only [standsIn, place, h, flowInRegion, Bool.false_eq_true, if_false]

/-- A delivery that is out is where its current node is. -/
theorem standsIn_sent : (s.standsIn region i && (s.flows i).state == .sent) =
    s.sentInRegion region i := by
  rw [sentInRegion]
  by_cases hsent : (s.flows i).state = .sent
  · rw [standsIn_eq (not_itemWaits_of_state (by rw [hsent]; decide))]
  · rw [beq_false_of_ne hsent, Bool.and_false, Bool.and_false]

theorem sentIn_eq : s.sentIn region =
    (List.finRange maxFlows).filter (s.sentInRegion region) := by
  rw [sentIn]
  exact List.filter_congr fun i _ => standsIn_sent

theorem mem_sentIn : i ∈ s.sentIn region ↔ s.sentInRegion region i = true := by
  rw [sentIn_eq, List.mem_filter]
  simp

theorem sentInRegion_sent (h : s.sentInRegion region i = true) : s.Sent i := by
  simp only [sentInRegion, flowInRegion, Bool.and_eq_true, beq_iff_eq] at h
  exact ⟨h.1.1.1, h.2⟩

theorem standsIn_active (h : s.standsIn region i = true) : (s.flows i).active = true := by
  simp only [standsIn, Bool.and_eq_true] at h
  exact h.1.1

/-- A delivery of the region that is out is one of those that end. -/
theorem mem_sentIn_of_stands (h : s.standsIn region i = true) (hsent : s.Sent i) :
    i ∈ s.sentIn region := by
  rw [mem_sentIn, ← standsIn_sent, h, hsent.2]
  rfl

theorem firstIndex_sent : firstIndex (s.sentInRegion region) = (s.sentIn region).head? := by
  rw [sentIn_eq, firstIndex, ← List.head?_filter]

end Places

/-! ## The loop over the deliveries that are out -/

section Loop

variable {image : Image} {bound : Nat} {s t : GroupExecution} {region : DeadlineRegion}
variable {i : FlowIndex} {o : Outcome}

/-- A delivery that can end does so, whatever the bound. -/
theorem deliveryOutcome_ends {required : ExecutionState} {kind : UInt8} {edge : Edge}
    (hkind : kind = 3 ∨ kind = 4) (hbound : 0 < bound) (hactive : (s.flows i).active = true)
    (hstate : (s.flows i).state = required)
    (hedge : image.groupFindEdge kind (s.flows i).currentNode 0 = some edge) :
    ∃ s', deliveryOutcome image bound s i required kind o = some (.ok, s') := by
  obtain ⟨bound, rfl⟩ := Nat.exists_eq_succ_of_ne_zero hbound.ne'
  obtain ⟨hmem, hsource, -⟩ := Image.mem_of_groupFindEdge hedge
  have hterminal := Image.notSent_unknown_terminal image hmem (hsource ▸ hkind)
  rw [deliveryOutcome, if_neg (by simp [hactive, hstate]), hedge]
  simp only [enterEdge, arrive, hterminal]
  exact ⟨_, rfl⟩

theorem recordTerminal_nextRequestId (s : GroupExecution) (i : FlowIndex) (o : Outcome) :
    (s.recordTerminal i o).nextRequestId = s.nextRequestId := by
  unfold recordTerminal maybeComplete
  split_ifs <;> simp only [recordOutcome, cutOff, setFlow] <;> split_ifs <;> rfl

theorem recordTerminal_precedence (s : GroupExecution) (i : FlowIndex) (o : Outcome) :
    s.pendingOutcome.precedence ≤ (s.recordTerminal i o).pendingOutcome.precedence := by
  rw [recordTerminal_pendingOutcome]
  split_ifs with h
  · exact h.le
  · exact le_rfl

/-- The loop has ended these flows of the region as unknown. -/
structure Progress (s : GroupExecution) (ended : List FlowIndex) (t : GroupExecution) : Prop where
  /-- Nothing has happened yet. -/
  start : ended = [] → t = s
  entries : ∃ entries, t.entered = s.entered ++ entries ∧
    (∀ entry ∈ entries, entry.outcome = .unknown) ∧
      entries.map (·.flow.requestId) = ended.map fun i => (s.flows i).requestId
  released : ∀ i ∈ ended, (t.flows i).active = false
  /-- What is out stays as it is. -/
  sent : ∀ i ∉ ended, s.Sent i → t.flows i = s.flows i
  /-- What is not out is cut off. -/
  unsent : ended ≠ [] → ∀ i, ¬ s.Sent i → (t.flows i).active = false
  nextRequestId : t.nextRequestId = s.nextRequestId
  precedence : s.pendingOutcome.precedence ≤ t.pendingOutcome.precedence

theorem progress_start (s : GroupExecution) : Progress s [] s where
  start _ := rfl
  entries := ⟨[], by simp⟩
  released := by simp
  sent _ _ _ := rfl
  unsent h := absurd rfl h
  nextRequestId := rfl
  precedence := le_rfl

/-- One more delivery ends. -/
theorem Progress.retires {ended : List FlowIndex} {t' : GroupExecution} (h : Progress s ended t)
    (hsent : s.Sent i) (hnot : i ∉ ended) (hretires : t.Retires i .unknown t') :
    Progress s (ended ++ [i]) t' := by
  obtain ⟨f, hf, rfl⟩ := hretires
  have hid : (f (t.flows i)).requestId = (s.flows i).requestId := by
    obtain ⟨value, sourceType, destinationType, node, hplace⟩ := hf (t.flows i)
    rw [hplace, h.sent i hnot hsent]
  obtain ⟨entries, hentries, hunknown, hids⟩ := h.entries
  have hnext : (t.setFlow i f).nextRequestId = t.nextRequestId := rfl
  have hother : ∀ k, k ≠ i → (t.setFlow i f).flows k = t.flows k := fun k hk =>
    setFlow_flows_of_ne t f hk
  refine ⟨by simp, ⟨entries ++ [{ outcome := .unknown, flow := f (t.flows i) }], ?_, ?_, ?_⟩,
    ?_, ?_, ?_, ?_, ?_⟩
  · rw [recordTerminal_entered, setFlow_flows_self, ← List.append_assoc, ← hentries]
    rfl
  · intro entry hentry
    rcases List.mem_append.mp hentry with hentry | hentry
    · exact hunknown entry hentry
    · rw [List.mem_singleton.mp hentry]
  · rw [List.map_append, List.map_append, hids, List.map_singleton, List.map_singleton, hid]
  · intro k hk
    by_cases hki : k = i
    · rw [hki]
      exact recordTerminal_released _ i _
    · have hkended : k ∈ ended := by simpa [hki] using hk
      rw [recordTerminal_flows]
      split_ifs
      · rfl
      · rw [hother k hki]
        exact h.released k hkended
  · intro k hk hksent
    have hki : k ≠ i := fun heq => hk (by simp [heq])
    have hkt := h.sent k (fun hmem => hk (by simp [hmem])) hksent
    rw [recordTerminal_flows, if_neg, hother k hki, hkt]
    rintro (heq | ⟨-, -, hstate⟩)
    · exact hki heq
    · rw [hother k hki, hkt, hksent.2] at hstate
      exact hstate rfl
  · intro _ k hk
    have hki : k ≠ i := fun heq => hk (heq ▸ hsent)
    rw [recordTerminal_flows]
    split_ifs with hreleased
    · rfl
    · rw [hother k hki] at hreleased ⊢
      cases hended : ended with
      | nil =>
          rw [h.start hended] at hreleased ⊢
          by_contra hactive
          rw [Bool.not_eq_false] at hactive
          exact hreleased (.inr ⟨by decide, hactive, fun hstate => hk ⟨hactive, hstate⟩⟩)
      | cons first rest => exact h.unsent (by simp [hended]) k hk
  · rw [recordTerminal_nextRequestId, hnext, h.nextRequestId]
  · exact h.precedence.trans (recordTerminal_precedence (t.setFlow i f) i .unknown)

/-- On a flow that has not ended yet the loop sees what was there before it. -/
theorem Progress.sentInRegion {ended : List FlowIndex} (h : Progress s ended t) (hnot : i ∉ ended) :
    t.sentInRegion region i = s.sentInRegion region i := by
  by_cases hsent : s.Sent i
  · rw [GroupExecution.sentInRegion, GroupExecution.sentInRegion, flowInRegion, flowInRegion,
      h.sent i hnot hsent]
  · have hbefore : s.sentInRegion region i = false := by
      by_contra hin
      exact hsent (sentInRegion_sent (Bool.not_eq_false _ ▸ hin))
    rw [hbefore]
    by_cases hended : ended = []
    · rw [h.start hended, hbefore]
    · rw [GroupExecution.sentInRegion, flowInRegion, h.unsent hended i hsent]
      rfl

/-- **The loop ends the deliveries one by one**, up to the first that cannot become unknown. -/
theorem each_expireSent (hbound : 0 < bound) : ∀ (rounds : List FlowIndex) {ended : List FlowIndex}
    {t : GroupExecution}, Progress s ended t → rounds.Nodup → (∀ i ∈ rounds, i ∉ ended) →
    ∃ r t' more, Call.each (expireSent image bound region) rounds t = some (r, t') ∧
      Progress s (ended ++ more) t' ∧
      (∀ i ∈ more, (unknownEdge image s i).isSome = true) ∧
      ((r = .ok ∧ more = rounds.filter (s.sentInRegion region)) ∨
        (r ≠ .ok ∧ ∃ j rest, rounds.filter (s.sentInRegion region) = more ++ j :: rest ∧
          unknownEdge image s j = none))
  | [], ended, t, h, _, _ =>
      ⟨.ok, t, [], rfl, by rwa [List.append_nil], by simp, .inl ⟨rfl, rfl⟩⟩
  | i :: rounds, ended, t, h, hnodup, hnot => by
      obtain ⟨hi, hnodup⟩ := List.nodup_cons.mp hnodup
      have hinot := hnot i (by simp)
      have hrest : ∀ k ∈ rounds, k ∉ ended := fun k hk => hnot k (by simp [hk])
      rw [Call.each, expireSent, h.sentInRegion hinot, List.filter_cons]
      by_cases hin : s.sentInRegion region i = true
      swap
      · rw [if_neg hin, Call.andThen_done, if_neg hin]
        exact each_expireSent hbound rounds h hnodup hrest
      rw [if_pos hin, if_pos hin]
      have hsent := sentInRegion_sent hin
      have hsame := h.sent i hinot hsent
      cases hedge : unknownEdge image s i with
      | none =>
          refine ⟨.invalidImage, t, [], ?_, by rwa [List.append_nil], by simp,
            .inr ⟨by decide, i, _, rfl, hedge⟩⟩
          have hnone : image.groupFindEdge 4 (t.flows i).currentNode 0 = none := hsame ▸ hedge
          rw [markUnknown, deliveryOutcome, if_neg (by simp [hsame, hsent.1, hsent.2]), hnone]
          rfl
      | some edge =>
          have hsome : image.groupFindEdge 4 (t.flows i).currentNode 0 = some edge :=
            hsame ▸ hedge
          obtain ⟨t₁, hcall⟩ := deliveryOutcome_ends (o := .unknown) (.inr rfl) hbound
            (hsame ▸ hsent.1) (hsame ▸ hsent.2) hsome
          rcases deliveryOutcome_retires (.inr rfl) hcall with ⟨hbad, -⟩ | ⟨-, -, -, hretires⟩
          · exact absurd rfl hbad
          have hnext := h.retires hsent hinot hretires
          obtain ⟨r, t', more, hloop, hprogress, hmore, hcase⟩ := each_expireSent hbound rounds
            hnext hnodup fun k hk hmem => by
              rcases List.mem_append.mp hmem with hmem | hmem
              · exact hrest k hk hmem
              · exact hi (List.mem_singleton.mp hmem ▸ hk)
          refine ⟨r, t', i :: more, ?_, by simpa using hprogress, ?_, ?_⟩
          · have hdone : markUnknown image bound t i = Call.done t₁ := hcall
            rw [hdone, Call.andThen_done]
            exact hloop
          · rw [List.forall_mem_cons]
            exact ⟨by rw [hedge]; rfl, hmore⟩
          · rcases hcase with ⟨hr, hall⟩ | ⟨hr, j, rest, hsplit, hnone⟩
            · exact .inl ⟨hr, by rw [hall]⟩
            · exact .inr ⟨hr, j, rest, by rw [hsplit]; rfl, hnone⟩

end Loop

/-! ## Behind an expiry -/

section Afterwards

variable {image : Image} {bound : Nat} {s t u : GroupExecution} {region : DeadlineRegion}

/-- What calls that succeed can make of the deliveries that are out. -/
structure Since (s t : GroupExecution) : Prop where
  number : t.nextRequestId = 0 ∨ (s.nextRequestId ≠ 0 ∧ s.nextRequestId ≤ t.nextRequestId)
  out : ∀ k, (t.flows k).Out →
    ((s.flows k).Out ∧ (t.flows k).requestId = (s.flows k).requestId) ∨
      (s.nextRequestId ≠ 0 ∧ s.nextRequestId ≤ (t.flows k).requestId)

theorem since_refl (s : GroupExecution) : Since s s where
  number := by
    by_cases h : s.nextRequestId = 0
    · exact .inl h
    · exact .inr ⟨h, UInt64.le_refl _⟩
  out _ hout := .inl ⟨hout, rfl⟩

/-- A call that numbers no delivery and keeps those that are out. -/
theorem Since.keeps (h : Since s t) (hnumber : u.nextRequestId = t.nextRequestId)
    (hout : ∀ k, (u.flows k).Out →
      (t.flows k).Out ∧ (u.flows k).requestId = (t.flows k).requestId) : Since s u where
  number := hnumber ▸ h.number
  out k hk := by
    obtain ⟨hbefore, hid⟩ := hout k hk
    rw [hid]
    exact h.out k hbefore

theorem Since.keeps_same (h : Since s t) (hnumber : u.nextRequestId = t.nextRequestId)
    (hout : ∀ k, (u.flows k).Out → u.flows k = t.flows k) : Since s u :=
  h.keeps hnumber fun k hk => by
    have hsame := hout k hk
    exact ⟨hsame ▸ hk, by rw [hsame]⟩

theorem Closes.nextRequestId {i : FlowIndex} {o : Outcome} (h : t.Closes i o u) :
    u.nextRequestId = t.nextRequestId := by
  obtain ⟨f, -, -, rfl⟩ := h
  rw [recordTerminal_nextRequestId]
  rfl

theorem Since.closes (h : Since s t) {i : FlowIndex} {o : Outcome} (hcloses : t.Closes i o u) :
    Since s u :=
  h.keeps_same hcloses.nextRequestId fun k hk => by
    rcases hcloses.flows k with hreleased | ⟨-, hsame⟩
    · rw [hk.1] at hreleased
      cases hreleased
    · exact hsame

/-- No cascade numbers a delivery. -/
theorem stable_nextRequestId (n : UInt64) :
    Stable (fun _ => True) fun s => s.nextRequestId = n where
  free _ _ _ _ := trivial
  waiting _ _ _ _ _ := trivial
  coordinator _ _ := trivial
  setFlow _ _ _ h _ := h
  recordTerminal s i o h _ _ := (recordTerminal_nextRequestId s i o).trans h
  maybeComplete s h := by
    unfold maybeComplete
    split_ifs <;> exact h
  sameButEach _ _ h hsame _ := hsame.nextRequestId.trans h

theorem Since.succeeds (h : Since s t) {op : GroupOp} (hop : t.Succeeds image op u) :
    Since s u := by
  cases op with
  | prepare i =>
      obtain ⟨frame, hp⟩ := hop
      have hnumbered : t.nextRequestId ≠ 0 := by
        intro hzero
        unfold prepare at hp
        simp only [hzero, if_true] at hp
        split at hp <;> cases hp
      obtain ⟨-, -, -, -, rfl⟩ := prepare_ok hp
      obtain ⟨hstart, hle⟩ := h.number.resolve_left hnumbered
      refine ⟨?_, fun k hk => ?_⟩
      · by_cases hwrap : t.nextRequestId + 1 = 0
        · exact .inl hwrap
        · refine .inr ⟨hstart, UInt64.le_trans hle ?_⟩
          change t.nextRequestId ≤ t.nextRequestId + 1
          have hne : t.nextRequestId.toNat + 1 ≠ 2 ^ 64 := fun hmax => hwrap (by
            apply UInt64.toNat_inj.mp
            rw [UInt64.toNat_add]
            simp [hmax])
          have hlt := t.nextRequestId.toNat_lt
          rw [UInt64.le_iff_toNat_le, UInt64.toNat_add, UInt64.toNat_one]
          omega
      · by_cases hki : k = i
        · rw [hki, setFlow_flows_self]
          exact .inr ⟨hstart, hle⟩
        · rw [setFlow_flows_of_ne _ _ hki] at hk ⊢
          exact h.out k hk
  | markSent i =>
      obtain ⟨hactive, hprepared, rfl⟩ := markSent_ok hop
      refine h.keeps rfl fun k hk => ?_
      by_cases hki : k = i
      · rw [hki, setFlow_flows_self]
        exact ⟨⟨hactive, .inl hprepared⟩, rfl⟩
      · rw [setFlow_flows_of_ne _ _ hki] at hk ⊢
        exact ⟨hk, rfl⟩
  | markNotSent i =>
      obtain ⟨bound, hcall⟩ := hop
      rcases deliveryOutcome_cases (.inl rfl) hcall with ⟨hbad, -⟩ | ⟨-, -, -, hcloses⟩
      · exact absurd rfl hbad
      · exact h.closes hcloses
  | markUnknown i =>
      obtain ⟨bound, hcall⟩ := hop
      rcases deliveryOutcome_cases (.inr rfl) hcall with ⟨hbad, -⟩ | ⟨-, -, -, hcloses⟩
      · exact absurd rfl hbad
      · exact h.closes hcloses
  | acceptResult i result =>
      obtain ⟨bound, hcall⟩ := hop
      rcases acceptResult_cases hcall with ⟨hbad, -⟩ | ⟨-, ho, l, -, hland⟩
      · exact absurd rfl hbad
      have hnumber : u.nextRequestId = t.nextRequestId :=
        landsWith_keeps (stable_nextRequestId t.nextRequestId) trivial
          (fun s hs => (recordTerminal_nextRequestId s i .appError).trans hs) ho rfl hland
      exact h.keeps_same hnumber fun k hk => (acceptResult_out hcall hk).2
  | expireRegion regionId =>
      obtain ⟨bound, hcall⟩ := hop
      exact expireRegion_keeps (I := Since s) (fun _ _ _ _ h _ _ hcloses => h.closes hcloses) h hcall

theorem since_after (h : After image s t) : Since s t := by
  induction h with
  | refl => exact since_refl s
  | tail _ hstep ih =>
      obtain ⟨op, hop⟩ := hstep
      exact ih.succeeds hop

/-- The region is empty, and outside it only what was sent goes on. -/
structure Clears (s : GroupExecution) (region : DeadlineRegion) (s' : GroupExecution) : Prop where
  nextRequestId : s'.nextRequestId = s.nextRequestId
  kept : ∀ k, (s'.flows k).active = true →
    s.Sent k ∧ s.standsIn region k = false ∧ s'.flows k = s.flows k

theorem Clears.closed (h : Clears s region t) {k : FlowIndex} (hk : s.standsIn region k = true) :
    (t.flows k).active = false := by
  by_contra hactive
  obtain ⟨-, hout, -⟩ := h.kept k (Bool.not_eq_false _ ▸ hactive)
  rw [hk] at hout
  cases hout

theorem Clears.later (h : Clears s region t) (hafter : After image t u) {k : FlowIndex}
    (hk : u.Sent k) :
    (s.Sent k ∧ s.standsIn region k = false ∧ (u.flows k).requestId = (s.flows k).requestId) ∨
      (s.nextRequestId ≠ 0 ∧ s.nextRequestId ≤ (u.flows k).requestId) := by
  rw [← h.nextRequestId]
  refine ((since_after hafter).out k ⟨hk.1, .inr hk.2⟩).imp_left fun ⟨hout, hid⟩ => ?_
  obtain ⟨hsent, hoff, hsame⟩ := h.kept k hout.1
  exact ⟨hsent, hoff, by rw [hid, hsame]⟩

end Afterwards

/-! ## When an expiry does what it should -/

section Expiry

variable {image : Image} {bound : Nat} {s s' : GroupExecution} {region : DeadlineRegion}
variable {regionId : UInt8}

/-- The deliveries that are out have all ended. -/
theorem Progress.expires (h : Progress s (s.sentIn region) s') (hsent : s.sentIn region ≠ []) :
    Expires image s region s' := by
  have hclears : Clears s region s' := by
    refine ⟨h.nextRequestId, fun k hk => ?_⟩
    have hout : s.Sent k := by
      by_contra hunsent
      rw [h.unsent hsent k hunsent] at hk
      cases hk
    have hnot : k ∉ s.sentIn region := by
      intro hmem
      rw [h.released k hmem] at hk
      cases hk
    refine ⟨hout, ?_, h.sent k hnot hout⟩
    by_contra hstands
    exact hnot (mem_sentIn_of_stands (Bool.not_eq_false _ ▸ hstands) hout)
  obtain ⟨entries, hentries, hunknown, hids⟩ := h.entries
  refine ⟨?_, ⟨entries, hentries, .inl ⟨hsent, hunknown, hids⟩⟩, fun _ => hclears.closed,
    fun _ hafter _ => hclears.later hafter, h.precedence⟩
  obtain ⟨i, hi⟩ := List.exists_mem_of_ne_nil _ hsent
  rw [mem_sentIn, ← standsIn_sent, Bool.and_eq_true] at hi
  exact ⟨i, hi.1⟩

/-- Nothing was out in the region, and one flow has ended as not sent. -/
theorem expires_notSent {i : FlowIndex} (hsent : s.sentIn region = [])
    (hretires : s.Retires i .notSent s')
    (hstands : ∃ k, s.standsIn region k = true) : Expires image s region s' := by
  have hflows := hretires.closes.flows
  have hnumber := hretires.closes.nextRequestId
  obtain ⟨f, hf, rfl⟩ := hretires
  have hclears : Clears s region ((s.setFlow i f).recordTerminal i .notSent) := by
    refine ⟨hnumber, fun k hk => ?_⟩
    obtain ⟨hki, hsame⟩ := (hflows k).resolve_left (by rw [hk]; decide)
    have hactive : (s.flows k).active = true := hsame ▸ hk
    have hout : s.Sent k := by
      refine ⟨hactive, ?_⟩
      by_contra hstate
      rw [recordTerminal_flows, setFlow_flows_of_ne s f hki,
        if_pos (.inr ⟨by decide, hactive, hstate⟩)] at hk
      cases hk
    refine ⟨hout, ?_, hsame⟩
    by_contra hin
    have hmem := mem_sentIn_of_stands (Bool.not_eq_false _ ▸ hin) hout
    rw [hsent] at hmem
    cases hmem
  refine ⟨hstands, ⟨_, recordTerminal_entered, .inr ⟨hsent, _, rfl, rfl⟩⟩,
    fun _ => hclears.closed, fun _ hafter _ => hclears.later hafter, ?_⟩
  exact recordTerminal_precedence (s.setFlow i f) i .notSent

/-- A call that fails and changes nothing is within the law. -/
theorem expiryLaw_unchanged {r : RuntimeResult} (hr : r ≠ .ok) :
    ExpiryLaw image s regionId r s :=
  ⟨fun hok => absurd hok hr, fun _ => rfl⟩

theorem expiryLaw_ok (hregion : s.deadlineRegion? regionId = some region) :
    ExpiryLaw image s regionId .ok s' ↔ Expires image s region s' := by
  refine ⟨fun h => ?_, fun h => ⟨fun _ => ⟨region, hregion, h⟩, fun hbad => absurd rfl hbad⟩⟩
  obtain ⟨found, hfound, hexpires⟩ := h.1 rfl
  obtain rfl := Option.some.inj (hregion.symm.trans hfound)
  exact hexpires

/-- If the first flow in the region ends as not sent, some flow has to stand there. -/
theorem expiryLaw_notSent {i : FlowIndex} (hregion : s.deadlineRegion? regionId = some region)
    (hsent : s.sentIn region = []) (hin : s.flowInRegion region i = true)
    (hretires : s.Retires i .notSent s') :
    ExpiryLaw image s regionId .ok s' ↔ s.Counted region := by
  rw [expiryLaw_ok hregion]
  refine ⟨fun h _ => h.stands, fun h => expires_notSent hsent hretires ?_⟩
  cases hwaits : s.itemWaits i with
  | true => exact h ⟨i, hwaits, hin⟩
  | false => exact ⟨i, (standsIn_eq hwaits).trans hin⟩

theorem counted_of_not_waits {i : FlowIndex} (hwaits : s.itemWaits i = false)
    (hin : s.flowInRegion region i = true) : s.Counted region :=
  fun _ => ⟨i, (standsIn_eq hwaits).trans hin⟩

/-- Nothing is out in the region. -/
theorem expireRegion_unsent (hregion : s.deadlineRegion? regionId = some region)
    (hopen : s.complete = false) (hsent : s.sentIn region = []) :
    ∃ r s', s.expireRegion image (bound + 1) regionId = some (r, s') ∧
      (ExpiryLaw image s regionId r s' ↔ s.Counted region) := by
  have hnone : (List.finRange maxFlows).any (s.sentInRegion region) = false := by
    rw [sentIn_eq, List.filter_eq_nil_iff] at hsent
    rw [List.any_eq_false]
    exact hsent
  have hself : ∀ i, s.Retires i .notSent (s.recordTerminal i .notSent) := fun i =>
    ⟨id, fun _ => ⟨_, _, _, _, rfl⟩, by simp [setFlow]⟩
  rw [deadlineRegion?] at hregion
  rw [expireRegion, hregion]
  simp only [hopen, Bool.false_eq_true, if_false, hnone]
  change s.deadlineRegion? regionId = some region at hregion
  cases hfirst : firstIndex (s.flowInRegion region) with
  | none =>
      refine ⟨.invalidState, s, rfl, iff_of_true (expiryLaw_unchanged (by decide)) ?_⟩
      rintro ⟨i, -, hin⟩
      rw [firstIndex_none.mp hfirst i] at hin
      cases hin
  | some i =>
      have hin := firstIndex_some hfirst
      have hactive : (s.flows i).active = true := by
        simp only [flowInRegion, Bool.and_eq_true] at hin
        exact hin.1.1
      dsimp only
      by_cases hprepared : (s.flows i).state = .prepared
      · have hwaits : s.itemWaits i = false := not_itemWaits_of_state (by rw [hprepared]; decide)
        rw [if_pos hprepared]
        cases hedge : image.groupFindEdge 3 (s.flows i).currentNode 0 with
        | none =>
            refine ⟨.invalidImage, s, ?_, iff_of_true (expiryLaw_unchanged (by decide))
              (counted_of_not_waits hwaits hin)⟩
            rw [markNotSent, deliveryOutcome, if_neg (by simp [hactive, hprepared]), hedge]
            rfl
        | some edge =>
            obtain ⟨t, hcall⟩ := deliveryOutcome_ends (o := .notSent) (.inl rfl)
              (Nat.succ_pos bound) hactive hprepared hedge
            rcases deliveryOutcome_retires (.inl rfl) hcall with ⟨hbad, -⟩ | ⟨-, -, -, hretires⟩
            · exact absurd rfl hbad
            · exact ⟨.ok, t, hcall, expiryLaw_notSent hregion hsent hin hretires⟩
      rw [if_neg hprepared]
      cases hedge : image.groupFindEdge 3 (s.flows i).currentNode 0 with
      | none => exact ⟨.ok, _, rfl, expiryLaw_notSent hregion hsent hin (hself i)⟩
      | some edge =>
          by_cases hready : (s.flows i).state = .ready
          · obtain ⟨t, hcall⟩ := deliveryOutcome_ends (o := .notSent) (.inl rfl)
              (Nat.succ_pos bound) hactive hready hedge
            rcases deliveryOutcome_retires (.inl rfl) hcall with ⟨hbad, -⟩ | ⟨-, -, -, hretires⟩
            · exact absurd rfl hbad
            rw [deliveryOutcome, if_neg (by simp [hactive, hready]), hedge] at hcall
            refine ⟨.ok, t, ?_, expiryLaw_notSent hregion hsent hin hretires⟩
            dsimp only
            rw [if_pos hready]
            exact hcall
          · refine ⟨.ok, _, ?_, expiryLaw_notSent hregion hsent hin (hself i)⟩
            dsimp only
            rw [if_neg hready]
            rfl

/-- Something is out in the region. -/
theorem expireRegion_sent (hregion : s.deadlineRegion? regionId = some region)
    (hopen : s.complete = false) (hsent : s.sentIn region ≠ []) :
    ∃ r s', s.expireRegion image (bound + 1) regionId = some (r, s') ∧
      (ExpiryLaw image s regionId r s' ↔ Alike image s region) := by
  have hany : (List.finRange maxFlows).any (s.sentInRegion region) = true := by
    obtain ⟨i, hi⟩ := List.exists_mem_of_ne_nil _ hsent
    exact List.any_eq_true.mpr ⟨i, List.mem_finRange i, mem_sentIn.mp hi⟩
  obtain ⟨r, t, more, hloop, hprogress, hmore, hcase⟩ :=
    @each_expireSent image (bound + 1) s region (Nat.succ_pos bound) (List.finRange maxFlows) [] s
      (progress_start s) (List.nodup_finRange _) (by simp)
  rw [List.nil_append] at hprogress
  rw [← sentIn_eq] at hcase
  refine ⟨r, t, ?_, ?_⟩
  · rw [deadlineRegion?] at hregion
    rw [expireRegion, hregion]
    simp only [hopen, Bool.false_eq_true, if_false, hany, if_true]
    exact hloop
  rcases hcase with ⟨rfl, rfl⟩ | ⟨hr, j, rest, hsplit, hnone⟩
  · refine iff_of_true ((expiryLaw_ok hregion).mpr (hprogress.expires hsent)) ?_
    exact fun _ _ _ k hk => hmore k (mem_sentIn.mpr hk)
  have hj : s.sentInRegion region j = true := mem_sentIn.mp (by rw [hsplit]; simp)
  cases more with
  | nil =>
      obtain rfl := hprogress.start rfl
      refine iff_of_true (expiryLaw_unchanged hr) fun i hi hedge => ?_
      rw [firstIndex_sent, hsplit] at hi
      obtain rfl := Option.some.inj hi
      rw [hnone] at hedge
      cases hedge
  | cons first more =>
      refine iff_of_false (fun h => ?_) fun h => ?_
      · have hfirst : s.sentInRegion region first = true := mem_sentIn.mp (by rw [hsplit]; simp)
        have hended := hprogress.released first (by simp)
        rw [h.2 hr, (sentInRegion_sent hfirst).1] at hended
        cases hended
      · have hedge := h first (by rw [firstIndex_sent, hsplit]; rfl) (hmore first (by simp)) j hj
        rw [hnone] at hedge
        cases hedge

/-- **An expiry does what it should exactly in the expirable states.** -/
theorem expireRegion_lawful_iff (image : Image) (bound : Nat) (s : GroupExecution)
    (regionId : UInt8) :
    ∃ r s', s.expireRegion image (bound + 1) regionId = some (r, s') ∧
      (ExpiryLaw image s regionId r s' ↔ Expirable image s regionId) := by
  cases hregion : s.deadlineRegion? regionId with
  | none =>
      refine ⟨.invalidState, s, ?_, iff_of_true (expiryLaw_unchanged (by decide)) ?_⟩
      · rw [deadlineRegion?] at hregion
        rw [expireRegion, hregion]
        rfl
      · intro _ region hsome
        rw [hregion] at hsome
        cases hsome
  | some region =>
      cases hopen : s.complete with
      | true =>
          refine ⟨.invalidState, s, ?_, iff_of_true (expiryLaw_unchanged (by decide)) ?_⟩
          · rw [deadlineRegion?] at hregion
            rw [expireRegion, hregion]
            simp only [hopen, if_true]
            rfl
          · intro hfalse
            rw [hopen] at hfalse
            cases hfalse
      | false =>
          have hexpirable : Expirable image s regionId ↔ s.Counted region ∧ Alike image s region := by
            refine ⟨fun h => h hopen region hregion, fun h _ found hfound => ?_⟩
            obtain rfl := Option.some.inj (hregion.symm.trans hfound)
            exact h
          rw [hexpirable]
          by_cases hsent : s.sentIn region = []
          · obtain ⟨r, t, hcall, hlaw⟩ := @expireRegion_unsent image bound _ _ _
              hregion hopen hsent
            have halike : Alike image s region := fun i hi => by
              rw [firstIndex_sent, hsent] at hi
              cases hi
            exact ⟨r, t, hcall, by rw [hlaw, and_iff_left halike]⟩
          · obtain ⟨r, t, hcall, hlaw⟩ := @expireRegion_sent image bound _ _ _ hregion
              hopen hsent
            obtain ⟨i, hi⟩ := List.exists_mem_of_ne_nil _ hsent
            rw [mem_sentIn, ← standsIn_sent, Bool.and_eq_true] at hi
            have hcounted : s.Counted region := fun _ => ⟨i, hi.1⟩
            exact ⟨r, t, hcall, by rw [hlaw, and_iff_right hcounted]⟩

end Expiry

/-! ## A deadline that ends an item elsewhere -/

/-- A list is made under a deadline, and then its items go through another action. -/
def deadlineEachLayout : Image.Layout where
  inputType := 1
  successType := 2
  errors := [1]
  contracts := [.of 1, .of 2]
  types := [Image.boolType, (2, [7, 0, 1, 0, 3, 0, 0, 0, 3, 0, 0, 0, 0, 0, 0, 0])]
  nodes := [.action1 1, .action1 2, .terminal 1, .terminal 2, .terminal 3, .terminal 4]
  edges := [.wire 0 0 1 1, { Edge.wire 1 1 6 1 with sourceType := 2, targetType := 2 },
    .wire 2 1 2 4, .bare 3 1 5, .bare 4 1 6,
    .wire 8 1 1 2, .wire 1 2 7 1, .wire 2 2 2 4, .bare 3 2 5, .bare 4 2 6,
    { Edge.wire 9 1 2 3 with sourceType := 2, targetType := 2 }]
  regions := [[1, 0] ++ Image.Layout.u16 1 ++ Image.Layout.u16 6 ++ Image.Layout.u16 0 ++
      Bytes.writeU64 1000,
    [1, 0] ++ Image.Layout.u16 1 ++ Image.Layout.u16 1 ++ Image.Layout.u16 1 ++
      Bytes.writeU64 10,
    [2, 2] ++ Image.Layout.u16 2 ++ Image.Layout.u16 2 ++ Image.Layout.u16 1 ++
      Image.Layout.u16 1 ++ Image.Layout.u16 2 ++ Image.Layout.u16 3 ++ Image.Layout.u16 0]

set_option maxRecDepth 20000 in
theorem deadlineEach_valid :
    (Image.imageValidate deadlineEachLayout.encode).toOption.isSome = true := by
  decide +kernel

def deadlineEach : Image := deadlineEachLayout.image deadlineEach_valid

/-- The list is there, and the second of its two items is back before the first. -/
def secondItemFirst : List GroupOp :=
  [.prepare 0, .markSent 0,
    .acceptResult 0 { boolResult 1 1 .success with
      sourceType := 2, destinationType := 2, payload := [2, 0, 0, 0, 0, 0, 0, 0, 0, 1] },
    .prepare 0, .prepare 1, .markSent 0, .markSent 1, .acceptResult 1 (boolResult 3 2 .success)]

def secondItemWaits : Option GroupExecution :=
  runFrom deadlineEach (fun _ _ => true) 20 secondItemFirst 1 128 16 1 [1]

set_option maxRecDepth 20000 in
/-- No flow is at the first node any more, and its deadline ends the item that waits. -/
theorem expireRegion_unlawful : ¬ ∀ (image : Image) (s : GroupExecution),
    (system image).Reach s → ∀ (bound : Nat) (regionId : UInt8) (r : RuntimeResult)
      (s' : GroupExecution), s.expireRegion image bound regionId = some (r, s') →
        ExpiryLaw image s regionId r s' := by
  intro h
  have hsome : secondItemWaits.isSome = true := by decide +kernel
  have hobs : secondItemWaits.all (fun s =>
      s.deadlineRegions[1]?.any (fun region =>
        (List.finRange maxFlows).all fun i => !s.standsIn region i) &&
      (s.expireRegion deadlineEach 5 2).any (·.1 == .ok)) = true := by decide +kernel
  obtain ⟨s, hs⟩ := Option.isSome_iff_exists.mp hsome
  rw [hs, Option.all_some, Bool.and_eq_true] at hobs
  obtain ⟨hregion, hcall⟩ := hobs
  obtain ⟨region, hregion, hnone⟩ := Option.any_eq_true _ _ |>.mp hregion
  obtain ⟨⟨r, s'⟩, hcall, hok⟩ := Option.any_eq_true _ _ |>.mp hcall
  obtain rfl : r = .ok := beq_iff_eq.mp hok
  have hreach : (system deadlineEach).Reach s :=
    reachWhere_runFrom deadlineEach (fun _ _ _ => trivial) hs
  obtain ⟨found, hfound, hexpires⟩ := (h deadlineEach s hreach 5 2 .ok s' hcall).1 rfl
  obtain rfl := Option.some.inj (hregion.symm.trans hfound)
  obtain ⟨i, hi⟩ := hexpires.stands
  have hoff := List.all_eq_true.mp hnone i (List.mem_finRange i)
  rw [hi] at hoff
  cases hoff

end GroupExecution

end Hermas
