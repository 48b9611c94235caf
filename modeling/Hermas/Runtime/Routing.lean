import Hermas.Base.Worklist
import Hermas.Runtime.GroupRoute

/-!
# The way of a value, step by step

When a value enters an edge it may be copied, collected, unwrapped or handed on, and a
call takes it all the way to where everything is at rest. Here the way is cut into
tasks: `advance` does one of them, and says what is left to do in front of the rest. A
call that enters an edge follows the list that begins with that task.
-/

namespace Hermas

open Image (Edge EachRegion)

namespace GroupExecution

/-- Something to do on the way of a value. -/
inductive Task where
  | enter (i : FlowIndex) (edge : Edge) (outcome : Outcome)
  /-- A branch of a fork goes on. -/
  | branch (forkNode : UInt16) (tag : Nat) (i : FlowIndex)
  /-- A field of a join goes on or is dropped. -/
  | field (joinNode : UInt16) (tag : Nat) (i : FlowIndex)
  /-- All fields of a join have gone. -/
  | settle
  /-- The items of a region whose turn it is are collected. -/
  | flush (regionId : UInt8)
  /-- The collection of the active region goes on. -/
  | finish
  /-- The active region admits items. -/
  | refill
  | admitItems (regionId : UInt8) (region : EachRegion)

/-! ## One task -/

/-- An item has been collected. -/
def collectItem (s : GroupExecution) (ready : FlowIndex) : GroupExecution :=
  { s with
    eachCollection := s.eachCollection ++ (s.flows ready).value
    eachFlushItem := s.eachFlushItem + 1 }.setFlow ready Flow.flushed

/-- The collection is the coordinator's value, and no region is active. -/
def handOver (s : GroupExecution) : GroupExecution :=
  let s' := s.setFlow s.eachCoordinatorFlow fun flow =>
    { flow with value := s.eachCollection, active := true, eachRegion := 0 }
  { s' with activeEachRegion := 0 }

/-- A region has begun with the items of a flow. -/
def beginEach (s : GroupExecution) (i : FlowIndex) (regionId : UInt8) (items : List (Nat × Nat)) :
    GroupExecution :=
  { s with
    eachSourceSnapshot := (s.flows i).value
    eachItems := items
    activeEachRegion := regionId
    eachCoordinatorFlow := i
    eachItemCount := items.length
    eachNextItem := 0
    eachCompletedItems := 0
    eachFlushItem := 0
    eachCollection := collectionHead items.length }.setFlow i fun flow =>
      { flow with active := false, eachRegion := 0 }

/-- The next item has a slot. -/
def placeItem (s : GroupExecution) (slot : FlowIndex) (regionId : UInt8) (value : Bytes) :
    GroupExecution :=
  { s with eachNextItem := s.eachNextItem + 1 }.setFlow slot fun flow =>
    { flow with active := true, eachRegion := regionId, itemIndex := s.eachNextItem, value }

/-- The value of the next item. -/
def nextItem (s : GroupExecution) : Bytes :=
  let item := s.eachItems.getD s.eachNextItem (0, 0)
  s.eachSourceSnapshot.slice item.1 item.2

/-- A flow waits at a collect point. -/
def waitToCollect (s : GroupExecution) (i : FlowIndex) : GroupExecution :=
  { s.setFlow i fun flow => { flow with state := .waiting } with
    eachCompletedItems := s.eachCompletedItems + 1 }

variable (image : Image)

/-- The case behind a dispatch that a value goes on with. -/
def dispatchCase (value : Bytes) (dispatchNode : UInt16) : Option Edge :=
  if value.length < 8 ∨ value.readU32 4 ≠ 0 ∨ 255 < value.readU32 0 then none
  else (image.groupFindEdge 5 dispatchNode (value.readU32 0).toUInt8).filter fun edge =>
    image.validateValue edge.sourceType (value.drop 8)

/-- The items of a list that a region begins with. -/
def eachList (s : GroupExecution) (i : FlowIndex) (regionId : UInt8) : Option (List (Nat × Nat)) :=
  match s.eachRegion? regionId with
  | none => none
  | some region =>
      if s.activeEachRegion ≠ 0 ∨ Protocol.maxPayloadSize < (s.flows i).value.length then none
      else (image.listItems region.sourceList (s.flows i).value maxEachItems).filter fun items =>
        items.length ≤ region.bound.toNat

/-- The arrival of a flow that stands in front of a node. -/
def advanceArrival (i : FlowIndex) (edge : Edge) (outcome : Outcome) (s : GroupExecution) :
    Option (List Task × GroupExecution) :=
  if edge.targetKind = 1 then
    some ([], s.setFlow i fun flow => { flow with state := .ready, active := true })
  else if edge.targetKind = 4 then
    let node := image.node edge.targetNode
    let branchCount := node.subtype.toNat
    if node.kind ≠ 4 then none
    else
      match takeBranches i (branchCount - 1) [i] s with
      | (.ok, flows, s) => some (((List.range branchCount).zip flows).map fun branch =>
          .branch edge.targetNode branch.1 branch.2, s)
      | _ => none
  else if edge.targetKind = 3 then
    (dispatchCase image (s.flows i).value edge.targetNode).map fun next =>
      ([.enter i next outcome], s.setFlow i fun flow => { flow with value := flow.value.drop 8 })
  else if edge.targetKind = 5 then
    let node := image.node edge.targetNode
    let branchCount := node.subtype.toNat
    let s := s.setFlow i fun flow => { flow with
      joinNode := edge.targetNode
      joinTag := edge.caseTag
      state := .waiting }
    if node.kind ≠ 5 then none
    else
      match s.branchFlows edge.targetNode branchCount with
      | none => some ([], s.maybeComplete)
      | some flows => some ((((List.range branchCount).zip flows).map fun branch =>
          .field edge.targetNode branch.1 branch.2) ++ [.settle], s)
  else if edge.targetKind = 6 then
    (eachList image s i edge.targetNode.toUInt8).map fun items =>
      ([if items.length = 0 then .finish else .refill],
        s.beginEach i edge.targetNode.toUInt8 items)
  else if edge.targetKind = 7 then
    let regionId := edge.targetNode.toUInt8
    if regionId = 0 ∨ regionId ≠ s.activeEachRegion ∨ (s.flows i).eachRegion ≠ regionId ∨
        s.eachItemCount ≤ (s.flows i).itemIndex then none
    else some ([.flush regionId], s.waitToCollect i)
  else if edge.targetKind = 2 then some ([], s.recordTerminal i outcome)
  else none

/-- Do one task. -/
def advance : Worklist Task GroupExecution
  | .enter i edge outcome, s => advanceArrival image i edge outcome (s.aim i edge)
  | .branch forkNode tag i, s =>
      (image.groupFindEdge 6 forkNode (UInt8.ofNat tag)).map fun edge => ([.enter i edge .none], s)
  | .field joinNode tag i, s =>
      match image.groupFindEdge 7 joinNode (UInt8.ofNat tag) with
      | some edge => some ([.enter i edge .success], s)
      | none => some ([], s.setFlow i Flow.released)
  | .settle, s => some ([], s.maybeComplete)
  | .flush regionId, s =>
      match s.flushCandidate regionId with
      | none => some ([if s.eachFlushItem = s.eachItemCount then .finish else .refill], s)
      | some ready =>
          if Protocol.maxPayloadSize - s.eachCollection.length < (s.flows ready).value.length then
            none
          else some ([.flush regionId], s.collectItem ready)
  | .finish, s =>
      match s.eachRegion? s.activeEachRegion with
      | none => none
      | some region =>
          if (s.flows s.eachCoordinatorFlow).valueCapacity < s.eachCollection.length ∨
              ¬ image.validateValue region.collected s.eachCollection then none
          else (image.groupFindEdge 9 s.activeEachRegion.toUInt16 0).map fun edge =>
            ([.enter s.eachCoordinatorFlow edge .success], s.handOver)
  | .refill, s => (s.eachRegion? s.activeEachRegion).map fun region =>
      ([.admitItems s.activeEachRegion region], s)
  | .admitItems regionId region, s =>
      if region.concurrency.toNat ≤ s.activeInRegion regionId ∨
          s.eachItemCount ≤ s.eachNextItem then some ([], s)
      else
        match s.freeFlow with
        | none => none
        | some slot =>
            if (s.flows slot).valueCapacity < s.nextItem.length then none
            else (image.groupFindEdge 8 regionId.toUInt16 0).map fun edge =>
              ([.enter slot edge .none, .admitItems regionId region],
                s.placeItem slot regionId s.nextItem)

/-- What an arrival that comes to nothing leaves behind. -/
def leftArrival (i : FlowIndex) (edge : Edge) (s : GroupExecution) : GroupExecution :=
  let node := image.node edge.targetNode
  let value := (s.flows i).value
  if edge.targetKind = 4 then
    if node.kind ≠ 4 then s else (takeBranches i (node.subtype.toNat - 1) [i] s).2.2
  else if edge.targetKind = 3 then
    if value.length < 8 ∨ value.readU32 4 ≠ 0 ∨ 255 < value.readU32 0 ∨
        (image.groupFindEdge 5 edge.targetNode (value.readU32 0).toUInt8).isNone then s
    else s.setFlow i fun flow => { flow with value := flow.value.drop 8 }
  else if edge.targetKind = 5 then
    s.setFlow i fun flow => { flow with
      joinNode := edge.targetNode
      joinTag := edge.caseTag
      state := .waiting }
  else if edge.targetKind = 6 then
    match s.eachRegion? edge.targetNode.toUInt8 with
    | none => s
    | some region =>
        if s.activeEachRegion ≠ 0 ∨ Protocol.maxPayloadSize < value.length then s
        else { s with
          eachSourceSnapshot := value
          eachItems := (image.listItems region.sourceList value maxEachItems).getD s.eachItems }
  else s

/-- What a task that cannot be done leaves behind. -/
def left : Task → GroupExecution → GroupExecution
  | .enter i edge _, s => leftArrival image i edge (s.aim i edge)
  | .finish, s =>
      match s.eachRegion? s.activeEachRegion with
      | none => s
      | some region =>
          let coordinator := s.eachCoordinatorFlow
          if (s.flows coordinator).valueCapacity < s.eachCollection.length then s
          else if ¬ image.validateValue region.collected s.eachCollection then
            s.setFlow coordinator fun flow => { flow with value := s.eachCollection }
          else s.handOver
  | .admitItems regionId _, s =>
      match s.freeFlow with
      | none => s
      | some slot =>
          if (s.flows slot).valueCapacity < s.nextItem.length then
            { s with eachNextItem := s.eachNextItem + 1 }.setFlow slot fun flow =>
              { flow with active := true, eachRegion := regionId, itemIndex := s.eachNextItem }
          else s.placeItem slot regionId s.nextItem
  | .branch .., s | .field .., s | .settle, s | .flush _, s | .refill, s => s

/-! ## The interpreter follows its tasks -/

section Follows

open Worklist (Follows follows_done follows_report follows_none follows_each)

variable {image}
variable {enter : FlowIndex → Edge → Outcome → GroupExecution → Call RuntimeResult GroupExecution}
variable {s : GroupExecution} {i : FlowIndex} {edge : Edge} {o : Outcome}

/-- Entering follows the task of the same name. -/
def EnterFollows (image : Image) (enter : FlowIndex → Edge → Outcome → GroupExecution →
    Call RuntimeResult GroupExecution) : Prop :=
  ∀ i edge o s, Follows (advance image) (left image) (enter i edge o s) [.enter i edge o] s

theorem eachFinish_follows (he : EnterFollows image enter) :
    Follows (advance image) (left image) (eachFinish image enter s) [.finish] s := by
  cases hregion : s.eachRegion? s.activeEachRegion with
  | none =>
      simp only [eachFinish, hregion]
      exact follows_report RuntimeResult.noConfusion (by simp only [advance, hregion]) []
        (by simp [left, hregion])
  | some region =>
      simp only [eachFinish, hregion, copyValue]
      by_cases hfits : (s.flows s.eachCoordinatorFlow).valueCapacity < s.eachCollection.length
      · rw [if_pos hfits]
        exact follows_report RuntimeResult.noConfusion (by simp [advance, hregion, hfits]) []
          (by simp [left, hregion, hfits])
      rw [if_neg hfits, Call.andThen_done]
      simp only [setFlow_flows_self]
      by_cases hvalid : image.validateValue region.collected s.eachCollection = true
      · rw [if_neg (by simpa using hvalid)]
        cases hedge : image.groupFindEdge 9 s.activeEachRegion.toUInt16 0 with
        | none =>
            exact follows_report RuntimeResult.noConfusion (by simp [advance, hregion, hedge]) []
              (by simp [left, hregion, hfits, hvalid, handOver])
        | some edge =>
            refine Follows.step (show advance image .finish s =
              some ([.enter s.eachCoordinatorFlow edge .success], s.handOver) by
                simp [advance, hregion, hfits, hvalid, hedge]) ?_
            have hnext := he s.eachCoordinatorFlow edge .success s.handOver
            simpa [handOver, hvalid] using hnext
      · rw [if_pos hvalid]
        exact follows_report RuntimeResult.noConfusion (by simp [advance, hregion, hvalid]) []
          (by simp [left, hregion, hfits, hvalid])

theorem copyValue_placeItem {slot : FlowIndex} {regionId : UInt8} {value : Bytes} :
    copyValue ({ s with eachNextItem := s.eachNextItem + 1 }.setFlow slot fun flow =>
        { flow with active := true, eachRegion := regionId, itemIndex := s.eachNextItem }) slot
        value =
      if (s.flows slot).valueCapacity < value.length then
        Call.report .bufferTooSmall ({ s with eachNextItem := s.eachNextItem + 1 }.setFlow slot
          fun flow =>
            { flow with active := true, eachRegion := regionId, itemIndex := s.eachNextItem })
      else Call.done (s.placeItem slot regionId value) := by
  simp [copyValue, placeItem]

theorem admitItems_follows (he : EnterFollows image enter) {regionId : UInt8}
    {region : EachRegion} : ∀ (rounds : Nat) (s : GroupExecution),
      Follows (advance image) (left image) (admitItems image enter regionId region rounds s)
        [.admitItems regionId region] s := by
  intro rounds
  induction rounds with
  | zero => intro s; exact follows_none
  | succ rounds ih =>
      intro s
      unfold admitItems
      split
      · rename_i hfull
        exact Follows.step (by simp only [advance, if_pos hfull]) follows_done
      rename_i hroom
      cases hslot : s.freeFlow with
      | none =>
          exact follows_report RuntimeResult.noConfusion (by simp [advance, hroom, hslot]) []
            (by simp [left, hslot])
      | some slot =>
          change Follows (advance image) (left image) ((copyValue _ slot s.nextItem).andThen _) _ s
          rw [copyValue_placeItem]
          by_cases hfits : (s.flows slot).valueCapacity < s.nextItem.length
          · rw [if_pos hfits]
            exact follows_report RuntimeResult.noConfusion
              (by simp [advance, hroom, hslot, hfits]) [] (by simp [left, hslot, hfits])
          rw [if_neg hfits, Call.andThen_done]
          cases hedge : image.groupFindEdge 8 regionId.toUInt16 0 with
          | none =>
              exact follows_report RuntimeResult.noConfusion
                (by simp [advance, hroom, hslot, hedge]) [] (by simp [left, hslot, hfits])
          | some edge =>
              refine Follows.step (show advance image (.admitItems regionId region) s =
                some ([.enter slot edge .none, .admitItems regionId region],
                  s.placeItem slot regionId s.nextItem) by
                simp [advance, hroom, hslot, hfits, hedge]) ?_
              exact (he slot edge .none _).andThen ih

theorem eachAdmit_follows (he : EnterFollows image enter) {rounds : Nat} :
    Follows (advance image) (left image) (eachAdmit image enter rounds s) [.refill] s := by
  unfold eachAdmit
  cases hregion : s.eachRegion? s.activeEachRegion with
  | none => exact follows_report RuntimeResult.noConfusion (by simp [advance, hregion]) [] rfl
  | some region =>
      exact Follows.step (by simp [advance, hregion]) (admitItems_follows he rounds s)

/-- The flush loop, and what the region does behind it. -/
theorem flushItems_follows (he : EnterFollows image enter) {regionId : UInt8} {rounds' : Nat} :
    ∀ (rounds : Nat) (s : GroupExecution),
      Follows (advance image) (left image) ((flushItems regionId rounds s).andThen fun s =>
          if s.eachFlushItem = s.eachItemCount then eachFinish image enter s
          else eachAdmit image enter rounds' s) [.flush regionId] s := by
  intro rounds
  induction rounds with
  | zero => intro s; exact follows_none
  | succ rounds ih =>
      intro s
      unfold flushItems
      cases hready : s.flushCandidate regionId with
      | none =>
          rw [Call.andThen_done]
          refine Follows.step (by simp only [advance, hready]; rfl) ?_
          by_cases hdone : s.eachFlushItem = s.eachItemCount
          · rw [if_pos hdone, if_pos hdone]
            exact eachFinish_follows he
          · rw [if_neg hdone, if_neg hdone]
            exact eachAdmit_follows he
      | some ready =>
          simp only
          split
          · rename_i hlong
            exact follows_report RuntimeResult.noConfusion (by simp [advance, hready, hlong]) []
              rfl
          · rename_i hfits
            exact Follows.step (show advance image (.flush regionId) s =
              some ([.flush regionId], s.collectItem ready) by simp [advance, hready, hfits]) (ih _)

theorem eachCollect_follows (he : EnterFollows image enter) {rounds : Nat}
    (hk : edge.targetKind = 7) :
    Follows (advance image) (left image) (eachCollect image enter rounds i edge.targetNode.toUInt8 (s.aim i edge))
      [.enter i edge o] s := by
  unfold eachCollect
  split
  · rename_i hbad
    exact follows_report RuntimeResult.noConfusion (by simp [advance, advanceArrival, hk, hbad]) []
      (by simp [left, leftArrival, hk])
  · rename_i hopen
    exact Follows.step (by simp [advance, advanceArrival, hk, hopen])
      (flushItems_follows he (maxFlows + 1) ((s.aim i edge).waitToCollect i))

theorem eachStart_follows (he : EnterFollows image enter) {rounds : Nat}
    (hk : edge.targetKind = 6) :
    Follows (advance image) (left image) (eachStart image enter rounds i edge.targetNode.toUInt8 (s.aim i edge))
      [.enter i edge o] s := by
  have hadvance : advance image (.enter i edge o) s =
      (eachList image (s.aim i edge) i edge.targetNode.toUInt8).map fun items =>
        ([if items.length = 0 then .finish else .refill],
          (s.aim i edge).beginEach i edge.targetNode.toUInt8 items) := by
    simp [advance, advanceArrival, hk]
  have hleft : left image (.enter i edge o) s =
      match (s.aim i edge).eachRegion? edge.targetNode.toUInt8 with
      | none => s.aim i edge
      | some region =>
          if (s.aim i edge).activeEachRegion ≠ 0 ∨
              Protocol.maxPayloadSize < ((s.aim i edge).flows i).value.length then s.aim i edge
          else { s.aim i edge with
            eachSourceSnapshot := ((s.aim i edge).flows i).value
            eachItems := (image.listItems region.sourceList ((s.aim i edge).flows i).value
              maxEachItems).getD (s.aim i edge).eachItems } := by
    simp only [left, leftArrival, hk, show ¬ (6 : UInt8) = 4 by decide,
      show ¬ (6 : UInt8) = 3 by decide, show ¬ (6 : UInt8) = 5 by decide, if_false, if_true]
  generalize s.aim i edge = t at hadvance hleft ⊢
  generalize edge.targetNode.toUInt8 = regionId at hadvance hleft ⊢
  unfold eachStart
  cases hregion : t.eachRegion? regionId with
  | none =>
      exact follows_report RuntimeResult.noConfusion (by simp [hadvance, eachList, hregion]) []
        (by rw [hleft, hregion])
  | some region =>
      simp only
      split
      · rename_i hactive
        exact follows_report RuntimeResult.noConfusion
          (by simp [hadvance, eachList, hregion, hactive]) [] (by simp [hleft, hregion, hactive])
      rename_i hactive
      split
      · rename_i hlong
        exact follows_report RuntimeResult.noConfusion
          (by simp [hadvance, eachList, hregion, hlong]) [] (by simp [hleft, hregion, hlong])
      rename_i hlong
      cases hitems : image.listItems region.sourceList (t.flows i).value maxEachItems with
      | none =>
          exact follows_report RuntimeResult.noConfusion
            (by simp [hadvance, eachList, hregion, hitems]) []
            (by simp only [hleft, hregion, not_or.mpr ⟨hactive, hlong⟩, if_false, hitems]; rfl)
      | some items =>
          simp only
          split
          · rename_i hbound
            exact follows_report RuntimeResult.noConfusion
              (by simp [hadvance, eachList, hregion, hitems, Option.filter, hbound]) []
              (by simp only [hleft, hregion, not_or.mpr ⟨hactive, hlong⟩, if_false, hitems]; rfl)
          rename_i hbound
          have hlist : eachList image t i regionId = some items := by
            simp only [eachList, hregion, hitems, not_or.mpr ⟨hactive, hlong⟩, if_false]
            rw [Option.filter_some, if_pos (decide_eq_true (Nat.not_lt.mp hbound))]
          refine Follows.step (show advance image (.enter i edge o) s =
            some ([if items.length = 0 then .finish else .refill], t.beginEach i regionId items) by
              rw [hadvance, hlist]; rfl) ?_
          change Follows (advance image) (left image) (if items.length = 0 then
            eachFinish image enter (t.beginEach i regionId items)
            else eachAdmit image enter rounds (t.beginEach i regionId items)) _ _
          by_cases hempty : items.length = 0
          · rw [if_pos hempty, if_pos hempty]
            exact eachFinish_follows he
          · rw [if_neg hempty, if_neg hempty]
            exact eachAdmit_follows he

theorem routeDispatch_follows (he : EnterFollows image enter) (hk : edge.targetKind = 3) :
    Follows (advance image) (left image) (routeDispatch image enter i edge.targetNode o (s.aim i edge))
      [.enter i edge o] s := by
  have hadvance : advance image (.enter i edge o) s =
      (dispatchCase image ((s.aim i edge).flows i).value edge.targetNode).map fun next =>
        ([.enter i next o],
          (s.aim i edge).setFlow i fun flow => { flow with value := flow.value.drop 8 }) := by
    simp [advance, advanceArrival, hk]
  have hleft : left image (.enter i edge o) s =
      if ((s.aim i edge).flows i).value.length < 8 ∨ ((s.aim i edge).flows i).value.readU32 4 ≠ 0 ∨
          255 < ((s.aim i edge).flows i).value.readU32 0 ∨ (image.groupFindEdge 5 edge.targetNode
            (((s.aim i edge).flows i).value.readU32 0).toUInt8).isNone then s.aim i edge
      else (s.aim i edge).setFlow i fun flow => { flow with value := flow.value.drop 8 } := by
    simp only [left, leftArrival, hk, show ¬ (3 : UInt8) = 4 by decide, if_false, if_true]
  generalize s.aim i edge = t at hadvance hleft ⊢
  unfold routeDispatch
  simp only
  split
  · rename_i hshort
    exact follows_report RuntimeResult.noConfusion (by simp [hadvance, dispatchCase, hshort]) []
      (by rw [hleft, if_pos (.inl hshort)])
  rename_i hlong
  split
  · rename_i htag
    exact follows_report RuntimeResult.noConfusion
      (by rw [hadvance, dispatchCase, if_pos (.inr htag)]; rfl) []
      (by rw [hleft, if_pos (.inr (htag.imp_right .inl))])
  rename_i htag
  have hopen : ¬ ((t.flows i).value.length < 8 ∨ (t.flows i).value.readU32 4 ≠ 0 ∨
      255 < (t.flows i).value.readU32 0) := not_or.mpr ⟨hlong, htag⟩
  cases hnext : image.groupFindEdge 5 edge.targetNode ((t.flows i).value.readU32 0).toUInt8 with
  | none =>
      exact follows_report RuntimeResult.noConfusion
        (by rw [hadvance, dispatchCase, if_neg hopen, hnext]; rfl) []
        (by rw [hleft, hnext, if_pos (.inr (.inr (.inr rfl)))])
  | some next =>
      simp only [setFlow_flows_self]
      by_cases hvalid : image.validateValue next.sourceType ((t.flows i).value.drop 8) = true
      · rw [if_neg (by simpa using hvalid)]
        refine Follows.step ?_ (he i next o _)
        rw [hadvance, dispatchCase, if_neg hopen, hnext, Option.filter_some, if_pos hvalid]
        rfl
      · rw [if_pos hvalid]
        refine follows_report RuntimeResult.noConfusion ?_ [] ?_
        · rw [hadvance, dispatchCase, if_neg hopen, hnext, Option.filter_some, if_neg hvalid]
          rfl
        · rw [hleft, hnext, if_neg]
          simpa using hopen

theorem enterFork_follows (he : EnterFollows image enter) (hk : edge.targetKind = 4) :
    Follows (advance image) (left image) (enterFork image enter i edge.targetNode (s.aim i edge))
      [.enter i edge o] s := by
  unfold enterFork
  simp only
  by_cases hnode : (image.node edge.targetNode).kind = 4
  · rw [if_neg (not_not.mpr hnode)]
    cases htake : takeBranches i ((image.node edge.targetNode).subtype.toNat - 1) [i]
        (s.aim i edge) with
    | mk r rest =>
        obtain ⟨flows, t⟩ := rest
        by_cases hr : r = .ok
        · subst hr
          refine Follows.step (show advance image (.enter i edge o) s = some
            (((List.range (image.node edge.targetNode).subtype.toNat).zip flows).map fun branch =>
              .branch edge.targetNode branch.1 branch.2, t) by
            simp [advance, advanceArrival, hk, hnode, htake]) ?_
          rw [List.map_eq_flatMap]
          refine follows_each _ (fun branch _ u => ?_) t
          cases hedge : image.groupFindEdge 6 edge.targetNode (UInt8.ofNat branch.1) with
          | none =>
              simp only [enterBranch, hedge]
              exact follows_report RuntimeResult.noConfusion (by simp [advance, hedge]) [] rfl
          | some next =>
              simp only [enterBranch, hedge]
              exact Follows.step (by simp [advance, hedge]) (he branch.2 next .none u)
        · have hnone : advance image (.enter i edge o) s = none := by
            cases r <;> first | exact absurd rfl hr | simp [advance, advanceArrival, hk, hnode, htake]
          have hleft : t = left image (.enter i edge o) s := by
            simp [left, leftArrival, hk, hnode, htake]
          cases r <;> first | exact absurd rfl hr | exact follows_report hr hnone [] hleft
  · rw [if_pos hnode]
    exact follows_report RuntimeResult.noConfusion (by simp [advance, advanceArrival, hk, hnode]) []
      (by simp [left, leftArrival, hk, hnode])

theorem resolveJoin_follows (he : EnterFollows image enter) (hk : edge.targetKind = 5) :
    Follows (advance image) (left image) (resolveJoin image enter edge.targetNode
        ((s.aim i edge).setFlow i fun flow => { flow with
          joinNode := edge.targetNode
          joinTag := edge.caseTag
          state := .waiting })) [.enter i edge o] s := by
  have hadvance : advance image (.enter i edge o) s = advanceArrival image i edge o (s.aim i edge) :=
    rfl
  simp only [advanceArrival, hk, show ¬ (5 : UInt8) = 1 by decide, show ¬ (5 : UInt8) = 4 by decide,
    show ¬ (5 : UInt8) = 3 by decide, if_false, if_true] at hadvance
  have hleft : (s.aim i edge).setFlow i (fun flow => { flow with
      joinNode := edge.targetNode
      joinTag := edge.caseTag
      state := .waiting }) = left image (.enter i edge o) s := by
    simp only [left, leftArrival, hk, show ¬ (5 : UInt8) = 4 by decide,
      show ¬ (5 : UInt8) = 3 by decide, if_false, if_true]
  generalize (s.aim i edge).setFlow i (fun flow => { flow with
    joinNode := edge.targetNode
    joinTag := edge.caseTag
    state := .waiting }) = t at hadvance hleft ⊢
  unfold resolveJoin
  simp only
  by_cases hnode : (image.node edge.targetNode).kind = 5
  · rw [if_neg (not_not.mpr hnode)] at hadvance ⊢
    cases hflows : t.branchFlows edge.targetNode (image.node edge.targetNode).subtype.toNat with
    | none => exact Follows.step (by rw [hadvance, hflows]) follows_done
    | some flows =>
        rw [hflows] at hadvance
        refine Follows.step hadvance (Follows.andThen ?_ fun u => ?_)
        · rw [List.map_eq_flatMap]
          refine follows_each _ (fun branch _ u => ?_) t
          cases hedge : image.groupFindEdge 7 edge.targetNode (UInt8.ofNat branch.1) with
          | none =>
              simp only [releaseBranch, hedge]
              exact Follows.step (by simp only [advance, hedge]) follows_done
          | some next =>
              simp only [releaseBranch, hedge]
              exact Follows.step (by simp only [advance, hedge]) (he branch.2 next .success u)
        · exact Follows.step (by simp only [advance]) follows_done
  · rw [if_pos hnode] at hadvance ⊢
    exact follows_report RuntimeResult.noConfusion hadvance [] hleft

/-- **A call that enters an edge follows its task.** -/
theorem enterEdge_follows (image : Image) : ∀ bound, EnterFollows image (enterEdge image bound) := by
  intro bound
  induction bound with
  | zero => intro i edge o s; exact follows_none
  | succ bound ih =>
      intro i edge o s
      rw [enterEdge, arrive]
      split
      · rename_i hk
        exact Follows.step (by simp [advance, advanceArrival, hk]) follows_done
      split
      · rename_i hk
        exact enterFork_follows ih hk
      split
      · rename_i hk
        exact routeDispatch_follows ih hk
      split
      · rename_i hk
        exact resolveJoin_follows ih hk
      split
      · rename_i hk
        exact eachStart_follows ih hk
      split
      · rename_i hk
        exact eachCollect_follows ih hk
      split
      · rename_i hk
        exact Follows.step (by simp [advance, advanceArrival, hk]) follows_done
      · rename_i h1 h4 h3 h5 h6 h7 h2
        exact follows_report RuntimeResult.noConfusion
          (by simp only [advance, advanceArrival, h1, h2, h3, h4, h5, h6, h7, if_false]) []
          (by simp only [left, leftArrival, h3, h4, h5, h6, if_false])

end Follows

/-! ## What a task needs -/

/-- The slots that a fork may take. -/
def spareFlows (s : GroupExecution) (source : FlowIndex) : Finset FlowIndex :=
  Finset.univ.filter fun k => (s.flows k).active = false ∧ k ≠ source

variable {image : Image} {s : GroupExecution} {i : FlowIndex}

theorem mem_spareFlows {k : FlowIndex} :
    k ∈ s.spareFlows i ↔ (s.flows k).active = false ∧ k ≠ i := by
  simp [spareFlows]

/-- What a fork takes: spare slots, each with its value. -/
theorem takeBranches_taken : ∀ {count : Nat} {flows flows' : List FlowIndex}
    {s t : GroupExecution}, takeBranches i count flows s = (.ok, flows', t) →
      ∃ taken, flows' = flows ++ taken ∧ taken.length = count ∧ taken.Nodup ∧
        (∀ k ∈ taken, k ∈ s.spareFlows i) ∧
        t = { s with flows := fun k =>
          if k ∈ taken then { s.flows k with active := true, value := (s.flows i).value }
          else s.flows k } := by
  intro count
  induction count with
  | zero =>
      intro flows flows' s t h
      obtain ⟨-, rfl, rfl⟩ := h
      exact ⟨[], by simp, rfl, List.nodup_nil, by simp, by simp⟩
  | succ count ih =>
      intro flows flows' s t h
      rw [takeBranches] at h
      split at h
      · cases h
      rename_i slot hslot
      have hfree := firstIndex_some hslot
      simp only [Bool.and_eq_true, Bool.not_eq_true', bne_iff_ne, ne_eq] at hfree
      simp only [setFlow_flows_self, setFlow_flows_of_ne s _ (Ne.symm hfree.2)] at h
      split at h
      · cases h
      rw [setFlow_setFlow] at h
      obtain ⟨taken, rfl, hlen, hnodup, hspare, ht⟩ := ih h
      have hnew : slot ∉ taken := by
        intro hmem
        have hactive := (mem_spareFlows.mp (hspare slot hmem)).1
        simp at hactive
      refine ⟨slot :: taken, by simp, by simp [hlen], List.nodup_cons.mpr ⟨hnew, hnodup⟩,
        fun k hk => ?_, ?_⟩
      · rcases List.mem_cons.mp hk with rfl | hk
        · exact mem_spareFlows.mpr hfree
        · have hne : k ≠ slot := fun heq => hnew (heq ▸ hk)
          have hmem := mem_spareFlows.mp (hspare k hk)
          rw [setFlow_flows_of_ne _ _ hne] at hmem
          exact mem_spareFlows.mpr hmem
      · rw [ht]
        simp only [setFlow, Function.update_of_ne (Ne.symm hfree.2)]
        congr 1
        funext k
        by_cases hks : k = slot
        · subst hks
          simp [hnew]
        · simp [hks]

/-- What the arrival of a value needs, by the kind of the target. -/
def ArrivalFits (image : Image) (i : FlowIndex) (edge : Edge) (s : GroupExecution) : Prop :=
  if edge.targetKind = 1 ∨ edge.targetKind = 2 then True
  else if edge.targetKind = 4 then
    (image.node edge.targetNode).kind = 4 ∧
      (image.node edge.targetNode).subtype.toNat - 1 ≤ (s.spareFlows i).card ∧
      ∀ k, (s.flows i).value.length ≤ (s.flows k).valueCapacity
  else if edge.targetKind = 3 then
    (dispatchCase image (s.flows i).value edge.targetNode).isSome = true
  else if edge.targetKind = 5 then (image.node edge.targetNode).kind = 5
  else if edge.targetKind = 6 then (eachList image s i edge.targetNode.toUInt8).isSome = true
  else edge.targetKind = 7 ∧ edge.targetNode.toUInt8 ≠ 0 ∧
    edge.targetNode.toUInt8 = s.activeEachRegion ∧
    (s.flows i).eachRegion = edge.targetNode.toUInt8 ∧ (s.flows i).itemIndex < s.eachItemCount

/-- What a task needs to be done. -/
def Task.Fits (image : Image) : Task → GroupExecution → Prop
  | .enter i edge _, s => ArrivalFits image i edge s
  | .branch forkNode tag _, _ => (image.groupFindEdge 6 forkNode (UInt8.ofNat tag)).isSome
  | .flush regionId, s => ∀ ready ∈ s.flushCandidate regionId,
      (s.flows ready).value.length ≤ Protocol.maxPayloadSize - s.eachCollection.length
  | .finish, s => ∃ region, s.eachRegion? s.activeEachRegion = some region ∧
      s.eachCollection.length ≤ (s.flows s.eachCoordinatorFlow).valueCapacity ∧
      image.validateValue region.collected s.eachCollection = true ∧
      (image.groupFindEdge 9 s.activeEachRegion.toUInt16 0).isSome
  | .refill, s => (s.eachRegion? s.activeEachRegion).isSome
  | .admitItems regionId region, s =>
      s.activeInRegion regionId < region.concurrency.toNat → s.eachNextItem < s.eachItemCount →
        ∃ slot, s.freeFlow = some slot ∧ s.nextItem.length ≤ (s.flows slot).valueCapacity ∧
          (image.groupFindEdge 8 regionId.toUInt16 0).isSome
  | .field .., _ | .settle, _ => True

/-- The flow that a task is about to move. -/
def Task.hand : Task → Option FlowIndex
  | .enter i _ _ | .branch _ _ i | .field _ _ i => some i
  | _ => none

def InHand (tasks : List Task) (k : FlowIndex) : Prop := ∃ task ∈ tasks, task.hand = some k

theorem InHand.append_left {tasks : List Task} {k : FlowIndex} (h : InHand tasks k)
    (behind : List Task) : InHand (tasks ++ behind) k := by
  obtain ⟨task, hmem, hhand⟩ := h
  exact ⟨task, List.mem_append_left _ hmem, hhand⟩

/-- What one task makes of a flow: nothing, or it is taken in hand, put down, or made ready. -/
inductive Moved (image : Image) (task : Task) (onward : List Task) (s t : GroupExecution)
    (k : FlowIndex) : Prop
  | same (idle : task.hand ≠ some k) (flow : t.flows k = s.flows k)
  | taken (hand : InHand onward k)
  | released (inactive : (t.flows k).active = false)
  | waits (waiting : (t.flows k).state = .waiting)
  | ready {edge : Edge} {outcome : Outcome} (enters : task = .enter k edge outcome)
      (action : edge.targetKind = 1) (flow : t.flows k = { (s.aim k edge).flows k with
        state := .ready
        active := true })

theorem dispatchCase_some {value : Bytes} {dispatchNode : UInt16} {edge : Edge}
    (h : dispatchCase image value dispatchNode = some edge) :
    8 ≤ value.length ∧ value.readU32 4 = 0 ∧ value.readU32 0 ≤ 255 ∧
      image.groupFindEdge 5 dispatchNode (value.readU32 0).toUInt8 = some edge ∧
      image.validateValue edge.sourceType (value.drop 8) = true := by
  unfold dispatchCase at h
  split at h
  · cases h
  · rename_i hopen
    simp only [not_or, not_not, Nat.not_lt, UInt32.not_lt] at hopen
    obtain ⟨hfound, hvalid⟩ := Option.filter_eq_some_iff.mp h
    exact ⟨hopen.1, hopen.2.1, hopen.2.2, hfound, hvalid⟩

end GroupExecution

end Hermas
