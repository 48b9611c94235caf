import Hermas.Base.Check
import Hermas.Saga.LogScan
import Mathlib.Data.List.Chain
import Mathlib.Tactic.SplitIfs

/-!
# What an accepted saga log says

The scanner has one entry for each compensation that is under way, and clears it when
the compensation has finished. Here the records of one execution are read by themselves:
`Next` says which record may come behind which, and the entry of an execution stands
where its last record has left it. So the records of every execution are a chain, except
that the cleared entry takes a new start like any other.
-/

namespace Hermas.Saga.Log

/-! ## The records of one execution -/

/-- The records of a file, front to back. -/
def logRecords (bytes : Bytes) : List Record :=
  (bytes.records recordSize (bytes.length / recordSize)).filterMap fun b => (decode b).toOption

/-- The records of one execution. -/
def recordsOf (rs : List Record) (executionId : UInt64) : List Record :=
  rs.filter (·.executionId == executionId)

/-- Both records name the same reverse request, its route and its step. -/
def SameDelivery (p r : Record) : Prop :=
  p.requestId = r.requestId ∧ p.forwardNode = r.forwardNode ∧ p.appId = r.appId ∧
    p.actionId = r.actionId ∧ p.ordinal = r.ordinal

/-- The ordinals that were undone, in the order of the file. -/
def succeeded (own : List Record) : List Nat :=
  (own.filter (·.kind = .stepSucceeded)).map (·.ordinal.toNat)

/-- The delivery of a record is still open behind it. -/
def Kind.IsOpen (kind : Kind) : Prop := kind = .deliveryPrepared ∨ kind = .deliverySent

/-- The record closes a delivery. -/
def Kind.IsClosing (kind : Kind) : Prop :=
  kind = .stepSucceeded ∨ kind = .stepFailed ∨ kind = .stepUnknown

/-- Two records of an execution, one behind the other, keep the order of a delivery. -/
structure InOrder (p r : Record) : Prop where
  /-- What is sent was prepared. -/
  sent : r.kind = .deliverySent → p.kind = .deliveryPrepared ∧ SameDelivery p r
  /-- What is closed is open. -/
  closed : r.kind.IsClosing → p.kind.IsOpen ∧ SameDelivery p r
  /-- What was compensated, or refused by its action, was sent. -/
  returned : r.kind = .stepSucceeded ∨ r.kind = .stepFailed ∧ r.outcome = .appError →
    p.kind = .deliverySent
  /-- An open delivery is closed before anything else happens. -/
  next : p.kind.IsOpen → r.kind = .deliverySent ∨ r.kind.IsClosing

/-- What the records of one execution should be. -/
structure Law (own : List Record) : Prop where
  /-- The steps are undone downwards from the ordinal of the start, none left out. -/
  dense : ∀ started rest, own = started :: rest → started.kind = .started ∧
    ∃ count ≤ started.ordinal.toNat,
      succeeded own = (List.range count).map (started.ordinal.toNat - ·)
  once : (succeeded own).Nodup
  ordered : own.IsChain InOrder
  /-- Nothing comes behind the end. -/
  closed : ∀ before r after, own = before ++ r :: after → r.kind = .finished → after = []

theorem recordsOf_snoc_self (rs : List Record) (r : Record) :
    recordsOf (rs ++ [r]) r.executionId = recordsOf rs r.executionId ++ [r] := by
  simp [recordsOf]

theorem recordsOf_snoc_of_ne (rs : List Record) {r : Record} {e : UInt64}
    (h : r.executionId ≠ e) : recordsOf (rs ++ [r]) e = recordsOf rs e := by
  simp [recordsOf, h]

/-! ## Which record comes behind which -/

inductive Next (p r : Record) : Prop
  | first (kind : r.kind = .deliveryPrepared) (behind : p.kind = .started)
      (ordinal : r.ordinal.toNat = p.ordinal.toNat)
  | prepared (kind : r.kind = .deliveryPrepared) (behind : p.kind = .stepSucceeded)
      (ordinal : r.ordinal.toNat + 1 = p.ordinal.toNat)
  | sent (kind : r.kind = .deliverySent) (behind : p.kind = .deliveryPrepared)
      (same : SameDelivery p r)
  | succeeded (kind : r.kind = .stepSucceeded) (behind : p.kind = .deliverySent)
      (same : SameDelivery p r)
  | failed (kind : r.kind = .stepFailed) (behind : p.kind = .deliverySent ∧ r.outcome = .appError ∨
      p.kind = .deliveryPrepared ∧ r.outcome = .notSent) (same : SameDelivery p r)
  | unknown (kind : r.kind = .stepUnknown) (behind : p.kind.IsOpen) (same : SameDelivery p r)
  | done (kind : r.kind = .finished) (behind : p.kind = .stepSucceeded) (last : p.ordinal.toNat = 1)
      (outcome : r.outcome = .success)
  | stopped (kind : r.kind = .finished) (behind : p.kind = .stepFailed ∨ p.kind = .stepUnknown)
      (outcome : r.outcome = p.outcome)

/-- A compensation that has finished starts again. -/
def Restarts (p r : Record) : Prop := p.kind = .finished ∧ r.kind = .started

theorem Next.kind_ne_started {p r : Record} (h : Next p r) : r.kind ≠ .started := by
  cases h <;> simp_all

theorem Next.behind_ne_finished {p r : Record} (h : Next p r) : p.kind ≠ .finished := by
  cases h <;> simp_all [Kind.IsOpen]
  all_goals grind

theorem Next.inOrder {p r : Record} (h : Next p r) : InOrder p r := by
  constructor <;> cases h <;> simp_all [Kind.IsOpen, Kind.IsClosing] <;> grind

/-- The step that is undone next behind a record. -/
def Record.remaining (r : Record) : Nat :=
  if r.kind = .stepSucceeded then r.ordinal.toNat - 1 else r.ordinal.toNat

theorem valid_ordinal {r : Record} (h : validateRecord r = .ok) (hk : r.kind.isAction = true) :
    0 < r.ordinal.toNat := by
  simp only [validateRecord] at h
  split_ifs at h with _ _ hroute
  have hne : r.ordinal ≠ 0 := by
    intro hzero
    simp [hk, hzero] at hroute
  exact Nat.pos_of_ne_zero fun hzero => hne (UInt16.toNat_inj.mp hzero)

/-- **The steps behind a record are undone downwards from it.** The induction carries the step that
each record leaves to be undone next. -/
theorem succeeded_chain {rest : List Record} : ∀ {p : Record}, (p :: rest).IsChain Next →
    (∀ r ∈ rest, validateRecord r = .ok) →
    ∃ count ≤ p.remaining, succeeded rest = (List.range count).map (p.remaining - ·) := by
  induction rest with
  | nil => intro p _ _; exact ⟨0, Nat.zero_le _, rfl⟩
  | cons r rest ih =>
      intro p hchain hvalid
      rw [List.isChain_cons_cons] at hchain
      obtain ⟨hnext, hrest⟩ := hchain
      obtain ⟨count, hcount, hsteps⟩ := ih hrest fun t ht => hvalid t (by simp [ht])
      -- a record that undoes nothing hands the next step on
      have hand (hkind : r.kind ≠ .stepSucceeded) (hsame : r.remaining = p.remaining) :
          ∃ count ≤ p.remaining, succeeded (r :: rest) =
            (List.range count).map (p.remaining - ·) := by
        refine ⟨count, hsame ▸ hcount, ?_⟩
        rw [succeeded, List.filter_cons_of_neg (by simp [hkind]), ← succeeded, hsteps, hsame]
      -- behind the end there is nothing
      have hend (hkind : r.kind = .finished) :
          ∃ count ≤ p.remaining, succeeded (r :: rest) =
            (List.range count).map (p.remaining - ·) := by
        refine ⟨0, Nat.zero_le _, ?_⟩
        cases rest with
        | nil => simp [succeeded, hkind]
        | cons t rest =>
            rw [List.isChain_cons_cons] at hrest
            exact absurd hkind hrest.1.behind_ne_finished
      cases hnext with
      | first kind behind ordinal =>
          exact hand (by simp [kind]) (by simp [Record.remaining, kind, behind, ordinal])
      | prepared kind behind ordinal =>
          exact hand (by simp [kind]) (by simp [Record.remaining, kind, behind, ← ordinal])
      | sent kind behind same =>
          exact hand (by simp [kind]) (by simp [Record.remaining, kind, behind, same.2.2.2.2])
      | failed kind behind same =>
          refine hand (by simp [kind]) ?_
          rcases behind with ⟨behind, -⟩ | ⟨behind, -⟩ <;>
            simp [Record.remaining, kind, behind, same.2.2.2.2]
      | unknown kind behind same =>
          refine hand (by simp [kind]) ?_
          rcases behind with behind | behind <;>
            simp [Record.remaining, kind, behind, same.2.2.2.2]
      | done kind behind last outcome => exact hend kind
      | stopped kind behind outcome => exact hend kind
      | succeeded kind behind same =>
          have hp : p.remaining = r.ordinal.toNat := by
            simp [Record.remaining, behind, same.2.2.2.2]
          have hr : r.remaining = r.ordinal.toNat - 1 := by simp [Record.remaining, kind]
          have hpos := valid_ordinal (hvalid r (by simp)) (by rw [kind]; rfl)
          rw [hr] at hcount hsteps
          refine ⟨count + 1, by omega, ?_⟩
          rw [succeeded, List.filter_cons_of_pos (by simp [kind]), List.map_cons, ← succeeded, hsteps,
            List.range_succ_eq_map, List.map_cons, List.map_map, hp]
          refine congrArg (_ :: ·) (List.map_congr_left fun k _ => ?_)
          simp only [Function.comp_apply]
          omega

/-- What the scanner has made sure of the records of one execution. -/
structure Chained (own : List Record) : Prop where
  first : ∀ r ∈ own.head?, r.kind = .started
  chain : own.IsChain fun p r => Next p r ∨ Restarts p r
  valid : ∀ r ∈ own, validateRecord r = .ok

/-- The records of an execution that starts once. -/
theorem Chained.law {own : List Record} (h : Chained own)
    (honce : ∀ r ∈ own.tail, r.kind ≠ .started) : Law own := by
  have hchain : own.IsChain Next :=
    h.chain.imp_of_mem_tail_imp fun p r _ hr hnext =>
      hnext.resolve_right fun hrestart => honce r hr hrestart.2
  have hdense : ∀ started rest, own = started :: rest → started.kind = .started ∧
      ∃ count ≤ started.ordinal.toNat,
        succeeded own = (List.range count).map (started.ordinal.toNat - ·) := by
    rintro started rest rfl
    have hkind := h.first started rfl
    have hremaining : started.remaining = started.ordinal.toNat := by
      simp [Record.remaining, hkind]
    obtain ⟨count, hcount, hsteps⟩ := succeeded_chain hchain fun r hr => h.valid r (by simp [hr])
    rw [hremaining] at hcount hsteps
    refine ⟨hkind, count, hcount, ?_⟩
    rw [← hsteps, succeeded, List.filter_cons_of_neg (by simp [hkind]), ← succeeded]
  refine ⟨hdense, ?_, hchain.imp fun _ _ => Next.inOrder, ?_⟩
  · cases own with
    | nil => simp [succeeded]
    | cons started rest =>
        obtain ⟨-, count, hcount, hsteps⟩ := hdense started rest rfl
        rw [hsteps]
        refine List.nodup_range.map_on fun a ha b hb hab => ?_
        rw [List.mem_range] at ha hb
        omega
  · rintro before r after rfl hkind
    cases after with
    | nil => rfl
    | cons t after =>
        exact absurd hkind (List.isChain_cons_cons.mp hchain.right_of_append).1.behind_ne_finished

/-- A second start comes behind the end. -/
theorem Chained.starts_once {own : List Record} (h : Chained own) (hlaw : Law own) :
    ∀ r ∈ own.tail, r.kind ≠ .started := by
  intro r hr hkind
  cases own with
  | nil => simp at hr
  | cons first rest =>
      obtain ⟨before, after, hrest⟩ := List.append_of_mem hr
      rw [List.tail_cons] at hrest
      obtain ⟨front, p, hfront⟩ : ∃ front p, first :: before = front ++ [p] :=
        ⟨_, _, (List.dropLast_append_getLast (List.cons_ne_nil first before)).symm⟩
      have hown : first :: rest = front ++ p :: r :: after := by
        rw [hrest, ← List.cons_append, hfront, List.append_assoc]
        rfl
      have hchain := h.chain
      rw [hown] at hchain
      rcases (List.isChain_cons_cons.mp hchain.right_of_append).1 with hnext | hrestart
      · exact hnext.kind_ne_started hkind
      · exact List.cons_ne_nil r after (hlaw.closed front p (r :: after) hown hrestart.1)

/-! ## What one record can do -/

theorem findActive_some {xs : Entries} {e : UInt64} {i : Fin maxActive}
    (h : findActive xs e = some i) : (xs i).active = true ∧ (xs i).value.executionId = e := by
  simpa using firstIndex_some h

theorem findActive_none {xs : Entries} {e : UInt64} :
    findActive xs e = none ↔ ∀ i, (xs i).active = true → (xs i).value.executionId ≠ e := by
  simp [findActive, firstIndex_none]

/-- A record starts a compensation, or continues one that is under way. -/
theorem transition_ok {xs xs' : Entries} {r : Record} (h : transition xs r = .ok xs') :
    (r.kind = .started ∧ findActive xs r.executionId = none ∧
      ∃ i, (xs i).active = false ∧
        xs' = Function.update xs i { xs i with
          active := true
          value := { (xs i).value with
            executionId := r.executionId
            workflowId := r.workflowId
            imageFingerprint := r.imageFingerprint
            nextOrdinal := r.ordinal } }) ∨
    (r.kind ≠ .started ∧ ∃ i, findActive xs r.executionId = some i ∧
      ∃ x, transitionKnown (xs i) r = .ok x ∧ xs' = Function.update xs i x) := by
  unfold transition at h
  by_cases hk : r.kind = .started
  · rw [if_pos hk] at h
    cases hf : findActive xs r.executionId with
    | some i => simp [hf] at h
    | none =>
        cases hi : firstIndex (fun i => !(xs i).active) with
        | none => simp [hf, hi] at h
        | some i =>
            simp only [hf, hi, Except.ok.injEq] at h
            exact .inl ⟨hk, rfl, i, by simpa using firstIndex_some hi, h.symm⟩
  · rw [if_neg hk] at h
    cases hf : findActive xs r.executionId with
    | none => simp [hf] at h
    | some i =>
        simp only [hf] at h
        split_ifs at h
        cases ht : transitionKnown (xs i) r with
        | error e => simp [ht, Except.map] at h
        | ok x =>
            rw [ht] at h
            exact .inr ⟨hk, i, rfl, x, ht, (Except.ok.inj h).symm⟩

/-- An entry stands where the last record of its execution has left it. -/
def Stands (last : Record) (x : ScanActive) : Prop :=
  match last.kind with
  | .started => x.delivery = .none ∧ x.terminal = false ∧ x.value.nextOrdinal = last.ordinal
  | .deliveryPrepared => x.delivery = .prepared ∧ x.terminal = false ∧ routeMatches x.value last
  | .deliverySent => x.delivery = .sent ∧ x.terminal = false ∧ routeMatches x.value last
  | .stepSucceeded =>
      x.delivery = .none ∧ x.terminal = false ∧ x.value.nextOrdinal = last.ordinal - 1
  | .stepFailed =>
      x.delivery = .none ∧ x.terminal = true ∧ x.value.terminalOutcome = last.outcome
  | .stepUnknown =>
      x.delivery = .none ∧ x.terminal = true ∧ x.value.terminalOutcome = last.outcome
  | .finished => False

/-- Two records that match the route of an entry name the same delivery. -/
theorem sameDelivery_of_matches {x : Active} {p r : Record} (hp : routeMatches x p = true)
    (hr : routeMatches x r = true) : SameDelivery p r := by
  simp only [routeMatches, Bool.and_eq_true, beq_iff_eq] at hp hr
  obtain ⟨⟨⟨⟨hp1, hp2⟩, hp3⟩, hp4⟩, hp5⟩ := hp
  obtain ⟨⟨⟨⟨hr1, hr2⟩, hr3⟩, hr4⟩, hr5⟩ := hr
  exact ⟨hp1.symm.trans hr1, hp2.symm.trans hr2, hp3.symm.trans hr3, hp4.symm.trans hr4,
    hp5.symm.trans hr5⟩

/-- The entry of a delivery that is not open has no route to match. -/
theorem Stands.of_open {last : Record} {x : ScanActive} (h : Stands last x)
    (hdelivery : x.delivery ≠ .none) :
    (x.delivery = .prepared ∧ last.kind = .deliveryPrepared ∨
      x.delivery = .sent ∧ last.kind = .deliverySent) ∧
    x.terminal = false ∧ routeMatches x.value last = true := by
  unfold Stands at h
  split at h <;> simp_all

/-- Without an open delivery the entry stands behind a start or a step that was closed. -/
theorem Stands.of_closed {last : Record} {x : ScanActive} (h : Stands last x)
    (hdelivery : x.delivery = .none) :
    x.terminal = false ∧ (last.kind = .started ∧ x.value.nextOrdinal = last.ordinal ∨
      last.kind = .stepSucceeded ∧ x.value.nextOrdinal = last.ordinal - 1) ∨
    x.terminal = true ∧ (last.kind = .stepFailed ∨ last.kind = .stepUnknown) ∧
      x.value.terminalOutcome = last.outcome := by
  unfold Stands at h
  split at h <;> simp_all

theorem sub_one_toNat {n : UInt16} (h : 0 < n.toNat) : (n - 1).toNat + 1 = n.toNat := by
  have h1 : (1 : UInt16) ≤ n := UInt16.le_iff_toNat_le.mpr h
  rw [UInt16.toNat_sub_of_le _ _ h1]
  exact Nat.sub_add_cancel h

/-- The entry that a record leaves behind. -/
def LeftBy (r : Record) (x y : ScanActive) : Prop :=
  (r.kind ≠ .finished ∧ y.active = x.active ∧ y.value.executionId = x.value.executionId ∧
    Stands r y) ∨ (r.kind = .finished ∧ y = {})

theorem next_prepared {last r : Record} {x y : ScanActive} (h : Stands last x)
    (hlast : validateRecord last = .ok) (hk : r.kind = .deliveryPrepared)
    (ht : transitionPrepared x r = .ok y) : Next last r ∧ LeftBy r x y := by
  unfold transitionPrepared at ht
  split_ifs at ht with hrefused
  simp only [not_or, not_not] at hrefused
  obtain ⟨hdelivery, hterminal, hordinal⟩ := hrefused
  obtain rfl := Except.ok.inj ht
  refine ⟨?_, .inl ⟨by simp [hk], rfl, rfl, ?_⟩⟩
  · rcases h.of_closed hdelivery with ⟨-, ⟨behind, hnext⟩ | ⟨behind, hnext⟩⟩ | ⟨hstopped, -⟩
    · exact .first hk behind (by rw [hordinal, hnext])
    · have hpos := valid_ordinal hlast (by rw [behind]; rfl)
      exact .prepared hk behind (by rw [hordinal, hnext, sub_one_toNat hpos])
    · exact absurd hstopped hterminal
  · simp [Stands, hk, routeMatches, hordinal, hterminal]

theorem next_sent {last r : Record} {x y : ScanActive} (h : Stands last x)
    (hk : r.kind = .deliverySent) (ht : transitionSent x r = .ok y) :
    Next last r ∧ LeftBy r x y := by
  unfold transitionSent at ht
  split_ifs at ht with hrefused
  simp only [not_or, not_not] at hrefused
  obtain ⟨hdelivery, hroute⟩ := hrefused
  obtain rfl := Except.ok.inj ht
  obtain ⟨hphase, hterminal, hmatches⟩ := h.of_open (by rw [hdelivery]; decide)
  have hbehind : last.kind = .deliveryPrepared := by simpa [hdelivery] using hphase
  refine ⟨.sent hk hbehind (sameDelivery_of_matches hmatches hroute), .inl ⟨by simp [hk], rfl, rfl, ?_⟩⟩
  simpa [Stands, hk, hterminal, routeMatches] using hroute

theorem next_closed {last r : Record} {x y : ScanActive} (h : Stands last x)
    (hk : r.kind.IsClosing) (ht : transitionClosed x r = .ok y) :
    Next last r ∧ LeftBy r x y := by
  unfold transitionClosed at ht
  split_ifs at ht with hrefused hsucceeded
  · simp only [not_or, not_not] at hrefused
    obtain ⟨hroute, hcloses⟩ := hrefused
    obtain rfl := Except.ok.inj ht
    have hdelivery : x.delivery = .sent := by simpa [closes, hsucceeded] using hcloses
    obtain ⟨hphase, hterminal, hmatches⟩ := h.of_open (by rw [hdelivery]; decide)
    have hbehind : last.kind = .deliverySent := by simpa [hdelivery] using hphase
    refine ⟨.succeeded hsucceeded hbehind (sameDelivery_of_matches hmatches hroute),
      .inl ⟨by simp [hsucceeded], rfl, rfl, ?_⟩⟩
    have hordinal : x.value.nextOrdinal = r.ordinal := by
      simp only [routeMatches, Bool.and_eq_true, beq_iff_eq] at hroute
      exact hroute.2
    simp [Stands, hsucceeded, hterminal, hordinal]
  · simp only [not_or, not_not] at hrefused
    obtain ⟨hroute, hcloses⟩ := hrefused
    obtain rfl := Except.ok.inj ht
    have hdelivery : x.delivery ≠ .none := by
      intro hnone
      simp [closes, hnone] at hcloses
    obtain ⟨hphase, -, hmatches⟩ := h.of_open hdelivery
    have hsame := sameDelivery_of_matches hmatches hroute
    rcases hk with hk | hk | hk
    · exact absurd hk hsucceeded
    · refine ⟨.failed hk ?_ hsame, .inl ⟨by simp [hk], rfl, rfl, by simp [Stands, hk]⟩⟩
      rcases hphase with ⟨hx, hbehind⟩ | ⟨hx, hbehind⟩
      · exact .inr ⟨hbehind, by simpa [closes, hk, hx] using hcloses⟩
      · exact .inl ⟨hbehind, by simpa [closes, hk, hx] using hcloses⟩
    · refine ⟨.unknown hk ?_ hsame, .inl ⟨by simp [hk], rfl, rfl, by simp [Stands, hk]⟩⟩
      exact hphase.imp And.right And.right

theorem next_finished {last r : Record} {x y : ScanActive} (h : Stands last x)
    (hlast : validateRecord last = .ok) (hk : r.kind = .finished)
    (ht : transitionFinished x r = .ok y) : Next last r ∧ LeftBy r x y := by
  simp only [transitionFinished] at ht
  split_ifs at ht with hrefused
  simp only [not_or, not_and, not_not] at hrefused
  obtain ⟨hdelivery, houtcome⟩ := hrefused
  obtain rfl := Except.ok.inj ht
  refine ⟨?_, .inr ⟨hk, rfl⟩⟩
  rcases h.of_closed hdelivery with ⟨hterminal, hbehind⟩ | ⟨hterminal, hbehind, hlastOutcome⟩
  · have hdone : x.value.nextOrdinal = 0 ∧ r.outcome = .success := by
      simpa [hterminal] using houtcome
    rcases hbehind with ⟨hstarted, hnext⟩ | ⟨hsucceeded, hnext⟩
    · -- a start names at least one step
      have hzero : last.ordinal = 0 := hnext.symm.trans hdone.1
      simp [validateRecord, hstarted, hzero, Kind.isAction] at hlast
    · have hpos := valid_ordinal hlast (by rw [hsucceeded]; rfl)
      have hone := sub_one_toNat hpos
      rw [← hnext, hdone.1] at hone
      exact .done hk hsucceeded hone.symm hdone.2
  · have hsame : x.value.terminalOutcome = r.outcome := by simpa [hterminal] using houtcome
    exact .stopped hk hbehind (hsame.symm.trans hlastOutcome)

/-- **A record that continues a compensation comes next in it.** -/
theorem next_known {last r : Record} {x y : ScanActive} (h : Stands last x)
    (hlast : validateRecord last = .ok) (ht : transitionKnown x r = .ok y) :
    Next last r ∧ LeftBy r x y := by
  unfold transitionKnown at ht
  split at ht
  · cases ht
  · exact next_prepared h hlast ‹_› ht
  · exact next_sent h ‹_› ht
  · exact next_closed h (.inl ‹_›) ht
  · exact next_closed h (.inr (.inl ‹_›)) ht
  · exact next_closed h (.inr (.inr ‹_›)) ht
  · exact next_finished h hlast ‹_› ht

/-! ## Every accepted prefix -/

/-- The table of the scanner beside the records it has read. -/
structure Tracks (rs : List Record) (xs : Entries) : Prop where
  unique : ∀ i j, (xs i).active = true → (xs j).active = true →
    (xs i).value.executionId = (xs j).value.executionId → i = j
  /-- A free entry carries nothing over into its next use. -/
  cleared : ∀ i, (xs i).active = false → xs i = {}
  stands : ∀ i, (xs i).active = true →
    ∃ last ∈ (recordsOf rs (xs i).value.executionId).getLast?, Stands last (xs i)
  /-- No compensation that is under way is lost. -/
  listed : ∀ e, ∀ last ∈ (recordsOf rs e).getLast?, last.kind ≠ .finished →
    ∃ i, (xs i).active = true ∧ (xs i).value.executionId = e
  chained : ∀ e, Chained (recordsOf rs e)

theorem tracks_init : Tracks [] fun _ => {} where
  unique i j hi := by cases hi
  cleared _ _ := rfl
  stands i hi := by cases hi
  listed e last hlast := by cases hlast
  chained e := ⟨by simp [recordsOf], .nil, by simp [recordsOf]⟩

theorem Chained.snoc {own : List Record} {r : Record} (h : Chained own)
    (hr : validateRecord r = .ok) (hfirst : own = [] → r.kind = .started)
    (hlast : ∀ last ∈ own.getLast?, Next last r ∨ Restarts last r) : Chained (own ++ [r]) where
  first s hs := by
    cases own with
    | nil =>
        obtain rfl : r = s := by simpa using hs
        exact hfirst rfl
    | cons t own => exact h.first s hs
  chain := h.chain.append (.singleton r) fun last hl s hs => by
    obtain rfl : r = s := by simpa using hs
    exact hlast last hl
  valid s hs := by
    rcases List.mem_append.mp hs with hs | hs
    · exact h.valid s hs
    · rwa [List.mem_singleton.mp hs]

/-- A record touches the one entry of its execution, and leaves it where it says. -/
theorem Tracks.update {rs : List Record} {xs : Entries} {r : Record} {i : Fin maxActive}
    {y : ScanActive} (h : Tracks rs xs)
    (hown : (xs i).active = true → (xs i).value.executionId = r.executionId)
    (hothers : ∀ j, j ≠ i → (xs j).active = true → (xs j).value.executionId ≠ r.executionId)
    (hy : (y.active = true ∧ y.value.executionId = r.executionId ∧ Stands r y) ∨
      (r.kind = .finished ∧ y = {}))
    (hchained : Chained (recordsOf rs r.executionId ++ [r])) :
    Tracks (rs ++ [r]) (Function.update xs i y) := by
  have hlastOwn : (recordsOf (rs ++ [r]) r.executionId).getLast? = some r := by
    rw [recordsOf_snoc_self, List.getLast?_append_of_ne_nil _ (by simp)]
    rfl
  have hactive (hact : y.active = true) : y.value.executionId = r.executionId ∧ Stands r y := by
    rcases hy with ⟨-, hid, hstands⟩ | ⟨-, rfl⟩
    · exact ⟨hid, hstands⟩
    · cases hact
  refine ⟨?_, ?_, ?_, ?_, ?_⟩
  · intro j k hj hk he
    by_cases hji : j = i <;> by_cases hki : k = i <;>
      simp only [hji, hki, Function.update_self, Function.update_of_ne, ne_eq,
        not_false_iff] at hj hk he ⊢
    · exact absurd (he.symm.trans (hactive hj).1) (hothers k hki hk)
    · exact absurd (he.trans (hactive hk).1) (hothers j hji hj)
    · exact h.unique j k hj hk he
  · intro j hj
    by_cases hji : j = i
    · rw [hji, Function.update_self] at hj ⊢
      rcases hy with ⟨hact, -⟩ | ⟨-, hempty⟩
      · rw [hj] at hact
        cases hact
      · exact hempty
    · rw [Function.update_of_ne hji] at hj ⊢
      exact h.cleared j hj
  · intro j hj
    by_cases hji : j = i
    · rw [hji, Function.update_self] at hj ⊢
      obtain ⟨hid, hstands⟩ := hactive hj
      rw [hid]
      exact ⟨r, hlastOwn, hstands⟩
    · rw [Function.update_of_ne hji] at hj ⊢
      rw [recordsOf_snoc_of_ne rs (hothers j hji hj).symm]
      exact h.stands j hj
  · intro e last hlast hkind
    by_cases he : r.executionId = e
    · subst he
      rw [hlastOwn] at hlast
      obtain rfl : r = last := by simpa using hlast
      rcases hy with ⟨hact, hid, -⟩ | ⟨hfinished, -⟩
      · exact ⟨i, by rw [Function.update_self]; exact ⟨hact, hid⟩⟩
      · exact absurd hfinished hkind
    · rw [recordsOf_snoc_of_ne rs he] at hlast
      obtain ⟨j, hj, hid⟩ := h.listed e last hlast hkind
      have hji : j ≠ i := by
        rintro rfl
        exact he ((hown hj).symm.trans hid)
      exact ⟨j, by rw [Function.update_of_ne hji]; exact ⟨hj, hid⟩⟩
  · intro e
    by_cases he : r.executionId = e
    · subst he
      rw [recordsOf_snoc_self]
      exact hchained
    · rw [recordsOf_snoc_of_ne rs he]
      exact h.chained e

/-- **One accepted record keeps the table beside the records.** -/
theorem tracks_transition {rs : List Record} {xs xs' : Entries} {r : Record} (h : Tracks rs xs)
    (hr : validateRecord r = .ok) (ht : transition xs r = .ok xs') : Tracks (rs ++ [r]) xs' := by
  rcases transition_ok ht with ⟨hk, hnone, i, hfree, rfl⟩ | ⟨hk, i, hfound, y, hy, rfl⟩
  · have hothers := findActive_none.mp hnone
    -- the execution is new to the scanner: it has no record, or has finished
    have hbehind : ∀ last ∈ (recordsOf rs r.executionId).getLast?, last.kind = .finished := by
      intro last hlast
      by_contra hkind
      obtain ⟨j, hj, hid⟩ := h.listed _ last hlast hkind
      exact hothers j hj hid
    refine h.update (fun hact => by rw [hfree] at hact; cases hact) (fun j _ hj => hothers j hj)
      (.inl ⟨rfl, rfl, ?_⟩)
      ((h.chained _).snoc hr (fun _ => hk) fun last hlast => .inr ⟨hbehind last hlast, hk⟩)
    simp [Stands, hk, h.cleared i hfree]
  · obtain ⟨hact, hid⟩ := findActive_some hfound
    obtain ⟨last, hlast, hstands⟩ := h.stands i hact
    rw [hid] at hlast
    have hvalid := (h.chained _).valid last (List.mem_of_mem_getLast? hlast)
    obtain ⟨hnext, hleft⟩ := next_known hstands hvalid hy
    have hothers : ∀ j, j ≠ i → (xs j).active = true → (xs j).value.executionId ≠ r.executionId :=
      fun j hji hj he => hji (h.unique j i hj hact (he.trans hid.symm))
    refine h.update (fun _ => hid) hothers ?_
      ((h.chained _).snoc hr (fun hnil => ?_) fun p hp => ?_)
    · rcases hleft with ⟨-, hactive, hsame, hstands'⟩ | hfinished
      · exact .inl ⟨hactive.trans hact, hsame.trans hid, hstands'⟩
      · exact .inr hfinished
    · rw [hnil] at hlast
      cases hlast
    · obtain rfl : last = p := by rw [Option.mem_def] at hlast hp; simpa [hlast] using hp
      exact .inl hnext

theorem scanRecord_ok {st st' : ScanState} {r : Record} (h : scanRecord st r = .ok st') :
    transition st.entries r = .ok st'.entries := by
  unfold scanRecord at h
  by_cases hsequence : r.sequence = st.nextSequence
  · rw [if_neg (not_not.mpr hsequence)] at h
    obtain ⟨xs, hxs, hst⟩ := bind_ok.mp h
    rw [hxs, ← pure_ok.mp hst]
  · rw [if_pos hsequence] at h
    cases h

/-- **Every accepted list of records is tracked.** -/
theorem tracks_scanRecords {rs : List Record} :
    ∀ {before : List Record} {st st' : ScanState}, Tracks before st.entries →
      (∀ r ∈ rs, validateRecord r = .ok) → scanRecords st rs = .ok st' →
      Tracks (before ++ rs) st'.entries := by
  induction rs with
  | nil =>
      intro before st st' h _ hs
      obtain rfl : st = st' := by simpa [scanRecords, pure, Except.pure] using hs
      simpa using h
  | cons r rs ih =>
      intro before st st' h hvalid hs
      rw [scanRecords, List.foldlM_cons, bind_ok] at hs
      obtain ⟨next, hnext, hs⟩ := hs
      have h' := tracks_transition h (hvalid r (by simp)) (scanRecord_ok hnext)
      rw [List.append_cons]
      exact ih h' (fun t ht => hvalid t (by simp [ht])) hs

/-! ## Accepted files -/

/-- **The records of every execution of an accepted file are a chain.** -/
theorem chained_of_scan {source : Bytes} {summary : Summary} (h : scan source = .ok summary)
    (e : UInt64) : Chained (recordsOf (logRecords source) e) := by
  unfold scan at h
  split_ifs at h
  cases hfold : (source.records recordSize (source.length / recordSize)).foldlM scanBytes {} with
  | error reason => rw [hfold] at h; cases h
  | ok st =>
      have hrecords : scanRecords {} (logRecords source) = .ok st := (foldlM_decoded hfold).1
      have hvalid : ∀ r ∈ logRecords source, validateRecord r = .ok := by
        intro r hr
        obtain ⟨piece, -, hpiece⟩ := mem_of_decoded hr
        exact (decode_ok hpiece).valid
      have htracks := @tracks_scanRecords _ [] _ _ tracks_init hvalid hrecords
      exact htracks.chained e

/--
**The law of an accepted saga log.** The records of an execution obey it exactly if none of them but
the first starts the execution: the scanner, which has cleared the entry of a compensation that
finished, accepts a second start.
-/
theorem scan_law_iff {source : Bytes} {summary : Summary} (h : scan source = .ok summary)
    (e : UInt64) : Law (recordsOf (logRecords source) e) ↔
      ∀ r ∈ (recordsOf (logRecords source) e).tail, r.kind ≠ .started :=
  ⟨(chained_of_scan h e).starts_once, (chained_of_scan h e).law⟩

/-- A compensation of one step that was undone, and started a second time. -/
def restartedRecords : List Record :=
  let route (sequence : UInt64) (kind : Kind) (outcome : Outcome) : Record := {
    kind, outcome, sequence, executionId := 1, workflowId := 1, requestId := 5, forwardNode := 2,
    appId := 1, actionId := 3, ordinal := 1, imageFingerprint := 7 }
  let started (sequence : UInt64) : Record := {
    kind := .started, outcome := .appError, sequence, executionId := 1, workflowId := 1,
    ordinal := 1, imageFingerprint := 7 }
  [ started 1, route 2 .deliveryPrepared .none, route 3 .deliverySent .none,
    route 4 .stepSucceeded .success,
    { kind := .finished, outcome := .success, sequence := 5, executionId := 1, workflowId := 1,
      imageFingerprint := 7 },
    started 6, route 7 .deliveryPrepared .none, route 8 .deliverySent .none,
    route 9 .stepSucceeded .success ]

/-- The file up to the end of the compensation obeys the law. -/
theorem scan_law_iff_finished : Law (recordsOf (logRecords (file (restartedRecords.take 5))) 1) := by
  have haccepted : ∃ summary, scan (file (restartedRecords.take 5)) = .ok summary :=
    ⟨{ recordCount := 5, nextSequence := 6, active := [] }, by decide +kernel⟩
  obtain ⟨summary, h⟩ := haccepted
  exact (scan_law_iff h 1).mpr (by decide +kernel)

/-- The whole file is accepted as well, and its only step is undone twice. -/
theorem restarted_breaks_law : ¬ ∀ (source : Bytes) (summary : Summary), scan source = .ok summary →
    ∀ e, Law (recordsOf (logRecords source) e) := by
  intro hall
  have haccepted : scan (file restartedRecords) =
      .ok { recordCount := 9, nextSequence := 10, active := [{
        executionId := 1, workflowId := 1, imageFingerprint := 7, nextOrdinal := 0 }] } := by
    decide +kernel
  have htwice : ¬ (succeeded (recordsOf (logRecords (file restartedRecords)) 1)).Nodup := by
    decide +kernel
  exact htwice (hall _ _ haccepted 1).once

end Hermas.Saga.Log
