import Hermas.Image.Graph
import Hermas.Runtime.GroupRun

/-!
# The storage of a group

A group is started on storage for eight values of one stride. No call moves the
storage, none writes more than a stride to a flow, and the each regions stay those
of the image: a value that does not fit is refused before it is copied.
-/

namespace Hermas

open Image (Edge Node EachRegion)

namespace GroupExecution

/-- Every flow has a stride of storage and keeps within it. -/
structure Sized (image : Image) (s : GroupExecution) : Prop where
  regions : s.eachRegions = image.eachRegions
  stride : s.valueStride ≤ Protocol.maxPayloadSize
  capacity : ∀ i, (s.flows i).valueCapacity = s.valueStride
  fits : ∀ i, (s.flows i).value.length ≤ s.valueStride

variable {image : Image} {s t : GroupExecution} {i : FlowIndex}

/-- The bookkeeping does not matter. -/
theorem Sized.congr (h : Sized image s) (hregions : t.eachRegions = s.eachRegions)
    (hstride : t.valueStride = s.valueStride) (hflows : t.flows = s.flows) : Sized image t where
  regions := hregions.trans h.regions
  stride := hstride ▸ h.stride
  capacity j := by rw [hflows, hstride]; exact h.capacity j
  fits j := by rw [hflows, hstride]; exact h.fits j

theorem Sized.setFlow (h : Sized image s) {f : Flow → Flow}
    (hcapacity : (f (s.flows i)).valueCapacity = (s.flows i).valueCapacity)
    (hfits : (f (s.flows i)).value.length ≤ s.valueStride) : Sized image (s.setFlow i f) where
  regions := h.regions
  stride := h.stride
  capacity j := by
    by_cases hj : j = i
    · subst hj
      rw [setFlow_flows_self, hcapacity]
      exact h.capacity j
    · rw [setFlow_flows_of_ne _ _ hj]
      exact h.capacity j
  fits j := by
    by_cases hj : j = i
    · subst hj
      rw [setFlow_flows_self]
      exact hfits
    · rw [setFlow_flows_of_ne _ _ hj]
      exact h.fits j

/-- A write that leaves the value alone. -/
theorem Sized.mark (h : Sized image s) {f : Flow → Flow}
    (hcapacity : (f (s.flows i)).valueCapacity = (s.flows i).valueCapacity)
    (hvalue : (f (s.flows i)).value = (s.flows i).value) : Sized image (s.setFlow i f) :=
  h.setFlow hcapacity (hvalue ▸ h.fits i)

theorem Sized.maybeComplete (h : Sized image s) : Sized image s.maybeComplete := by
  unfold GroupExecution.maybeComplete
  split
  · exact h.congr rfl rfl rfl
  split
  · exact h.congr rfl rfl rfl
  · exact h

theorem Sized.recordTerminal (h : Sized image s) (i : FlowIndex) (o : Outcome) :
    Sized image (s.recordTerminal i o) := by
  have hrecord : Sized image (s.recordOutcome i o) := by
    unfold recordOutcome
    dsimp only
    split
    · exact Sized.mark (s := { s with
        entered := s.entered ++ [{ outcome := o, flow := s.flows i }]
        pendingOutcome := o
        pendingFlow := i }) (h.congr rfl rfl rfl) rfl rfl
    · exact Sized.mark (s := { s with
        entered := s.entered ++ [{ outcome := o, flow := s.flows i }] }) (h.congr rfl rfl rfl) rfl rfl
  have hcut : ∀ {s : GroupExecution}, Sized image s → Sized image s.cutOff := by
    intro s h
    refine ⟨h.regions, h.stride, fun j => ?_, fun j => ?_⟩
    · simp only [cutOff]
      split <;> exact h.capacity j
    · simp only [cutOff]
      split <;> exact h.fits j
  unfold GroupExecution.recordTerminal
  dsimp only
  split
  · exact (hcut hrecord).maybeComplete
  · exact hrecord.maybeComplete

section Bodies

variable {enter : FlowIndex → Edge → Outcome → GroupExecution → Call RuntimeResult GroupExecution}

theorem copyValue_sized (h : Sized image s) (value : Bytes) :
    (s.copyValue i value).Keeps (Sized image) := by
  unfold copyValue
  split
  · exact Call.keeps_report h
  · rename_i hfits
    rw [h.capacity i, not_lt] at hfits
    exact Call.keeps_done (h.setFlow rfl hfits)

/-- Entering keeps the storage. -/
def EnterSized (image : Image)
    (enter : FlowIndex → Edge → Outcome → GroupExecution → Call RuntimeResult GroupExecution) :
    Prop :=
  ∀ i edge o s, Sized image s → (enter i edge o s).Keeps (Sized image)

theorem eachFinish_sized (he : EnterSized image enter) (h : Sized image s) :
    (eachFinish image enter s).Keeps (Sized image) := by
  unfold eachFinish
  dsimp only
  split
  · exact Call.keeps_report h
  · refine Call.keeps_andThen (copyValue_sized h _) fun t ht => ?_
    split
    · exact Call.keeps_report ht
    · have hmark : Sized image (t.setFlow s.eachCoordinatorFlow fun flow =>
          { flow with active := true, eachRegion := 0 }) := ht.mark rfl rfl
      have hset : Sized image { t.setFlow s.eachCoordinatorFlow fun flow =>
          { flow with active := true, eachRegion := 0 } with activeEachRegion := 0 } :=
        hmark.congr rfl rfl rfl
      split
      · exact Call.keeps_report hset
      · exact he _ _ _ _ hset

theorem flushItems_sized {regionId : UInt8} : ∀ (rounds : Nat) {s : GroupExecution},
    Sized image s → (flushItems regionId rounds s).Keeps (Sized image) := by
  intro rounds
  induction rounds with
  | zero => intro s _; exact Call.ensures_none
  | succ rounds ih =>
      intro s h
      unfold flushItems
      split
      · exact Call.keeps_done h
      · dsimp only
        split
        · exact Call.keeps_report h
        · rename_i ready _ _
          exact ih (Sized.mark (s := { s with
            eachCollection := s.eachCollection ++ (s.flows ready).value
            eachFlushItem := s.eachFlushItem + 1 }) (h.congr rfl rfl rfl) rfl rfl)

theorem admitItems_sized (he : EnterSized image enter) {regionId : UInt8} {region : EachRegion} :
    ∀ (rounds : Nat) {s : GroupExecution}, Sized image s →
      (admitItems image enter regionId region rounds s).Keeps (Sized image) := by
  intro rounds
  induction rounds with
  | zero => intro s _; exact Call.ensures_none
  | succ rounds ih =>
      intro s h
      unfold admitItems
      split
      · exact Call.keeps_done h
      split
      · exact Call.keeps_report h
      · rename_i slot _
        have hslot : Sized image (({ s with eachNextItem := s.eachNextItem + 1 }).setFlow slot
            fun flow =>
              { flow with active := true, eachRegion := regionId, itemIndex := s.eachNextItem }) :=
          Sized.mark (s := { s with eachNextItem := s.eachNextItem + 1 }) (h.congr rfl rfl rfl)
            rfl rfl
        refine Call.keeps_andThen (copyValue_sized hslot _) fun t ht => ?_
        split
        · exact Call.keeps_report ht
        · exact Call.keeps_andThen (he _ _ _ _ ht) fun u hu => ih hu

theorem eachAdmit_sized (he : EnterSized image enter) {rounds : Nat} (h : Sized image s) :
    (eachAdmit image enter rounds s).Keeps (Sized image) := by
  unfold eachAdmit
  split
  · exact Call.keeps_report h
  · exact admitItems_sized he rounds h

theorem eachCollect_sized (he : EnterSized image enter) {rounds : Nat} {regionId : UInt8}
    (h : Sized image s) : (eachCollect image enter rounds i regionId s).Keeps (Sized image) := by
  unfold eachCollect
  split
  · exact Call.keeps_report h
  · dsimp only
    have hmark : Sized image (s.setFlow i fun flow => { flow with state := .waiting }) :=
      h.mark rfl rfl
    have hset : Sized image { s.setFlow i fun flow => { flow with state := .waiting } with
        eachCompletedItems := s.eachCompletedItems + 1 } := hmark.congr rfl rfl rfl
    refine Call.keeps_andThen (flushItems_sized _ hset) fun t ht => ?_
    split
    · exact eachFinish_sized he ht
    · exact eachAdmit_sized he ht

theorem eachStart_sized (he : EnterSized image enter) {rounds : Nat} {regionId : UInt8}
    (h : Sized image s) : (eachStart image enter rounds i regionId s).Keeps (Sized image) := by
  unfold eachStart
  split
  · exact Call.keeps_report h
  dsimp only
  split
  · exact Call.keeps_report h
  split
  · exact Call.keeps_report h
  split
  · exact Call.keeps_report (h.congr rfl rfl rfl)
  split
  · exact Call.keeps_report (h.congr rfl rfl rfl)
  · have hput : ∀ t : GroupExecution, Sized image t → Sized image
        (t.setFlow i fun flow => { flow with active := false, eachRegion := 0 }) :=
      fun t ht => ht.mark rfl rfl
    split
    · exact eachFinish_sized he (hput _ (h.congr rfl rfl rfl))
    · exact eachAdmit_sized he (hput _ (h.congr rfl rfl rfl))

theorem routeDispatch_sized (he : EnterSized image enter) {node : UInt16} {o : Outcome}
    (h : Sized image s) : (routeDispatch image enter i node o s).Keeps (Sized image) := by
  unfold routeDispatch
  dsimp only
  split
  · exact Call.keeps_report h
  split
  · exact Call.keeps_report h
  split
  · exact Call.keeps_report h
  · have hdrop : Sized image (s.setFlow i fun flow => { flow with value := flow.value.drop 8 }) := by
      refine h.setFlow rfl ?_
      have := h.fits i
      rw [List.length_drop]
      omega
    split
    · exact Call.keeps_report hdrop
    · exact he _ _ _ _ hdrop

theorem resolveJoin_sized (he : EnterSized image enter) {joinNode : UInt16} (h : Sized image s) :
    (resolveJoin image enter joinNode s).Keeps (Sized image) := by
  unfold resolveJoin
  dsimp only
  split
  · exact Call.keeps_report h
  split
  · exact Call.keeps_done h.maybeComplete
  · refine Call.keeps_andThen (Call.keeps_each _ (fun branch _ t ht => ?_) s h)
      fun t ht => Call.keeps_done ht.maybeComplete
    unfold releaseBranch
    split
    · exact he _ _ _ _ ht
    · exact Call.keeps_done (ht.mark rfl rfl)

theorem takeBranches_sized (source : FlowIndex) : ∀ (count : Nat) (flows : List FlowIndex)
    {s : GroupExecution}, Sized image s → Sized image (takeBranches source count flows s).2.2 := by
  intro count
  induction count with
  | zero => intro flows s h; exact h
  | succ count ih =>
      intro flows s h
      unfold takeBranches
      split
      · exact h
      · dsimp only
        rename_i slot _
        have hmark : Sized image (s.setFlow slot fun flow => { flow with active := true }) :=
          h.mark rfl rfl
        split
        · exact hmark
        · exact ih _ (hmark.setFlow rfl (hmark.fits source))

theorem enterFork_sized (he : EnterSized image enter) {node : UInt16} (h : Sized image s) :
    (enterFork image enter i node s).Keeps (Sized image) := by
  unfold enterFork
  dsimp only
  split
  · exact Call.keeps_report h
  have htake := takeBranches_sized i ((image.node node).subtype.toNat - 1) [i] h
  split
  · rename_i flows t hflows
    rw [hflows] at htake
    refine Call.keeps_each _ (fun branch _ u hu => ?_) t htake
    unfold enterBranch
    split
    · exact Call.keeps_report hu
    · exact he _ _ _ _ hu
  · rename_i failed flows t _ hflows
    rw [hflows] at htake
    exact Call.keeps_report htake

theorem arrive_sized (he : EnterSized image enter) {rounds : Nat} {edge : Edge} {o : Outcome}
    (h : Sized image s) : (arrive image enter rounds i edge o s).Keeps (Sized image) := by
  unfold arrive
  split
  · exact Call.keeps_done (h.mark rfl rfl)
  split
  · exact enterFork_sized he h
  split
  · exact routeDispatch_sized he h
  split
  · exact resolveJoin_sized he (h.mark rfl rfl)
  split
  · exact eachStart_sized he h
  split
  · exact eachCollect_sized he h
  split
  · exact Call.keeps_done (h.recordTerminal i o)
  · exact Call.keeps_report h

end Bodies

/-- **Routing keeps the storage.** -/
theorem enterEdge_sized : ∀ bound, EnterSized image (enterEdge image bound) := by
  intro bound
  induction bound with
  | zero => intro i edge o s _; exact Call.ensures_none
  | succ bound ih =>
      intro i edge o s h
      rw [enterEdge]
      exact arrive_sized ih (h.mark rfl rfl)

theorem deliveryOutcome_sized {bound : Nat} {required : ExecutionState} {kind : UInt8}
    {o : Outcome} (h : Sized image s) :
    (deliveryOutcome image bound s i required kind o).Keeps (Sized image) := by
  unfold deliveryOutcome
  split
  · exact Call.keeps_report h
  split
  · exact Call.keeps_report h
  · exact enterEdge_sized bound _ _ _ _ (h.setFlow rfl (Nat.zero_le _))

theorem acceptResult_sized {bound : Nat} {result : Frame} (h : Sized image s) :
    (acceptResult image bound s i result).Keeps (Sized image) := by
  unfold acceptResult
  dsimp only
  split
  · exact Call.keeps_report h
  split
  · exact Call.keeps_report h
  split
  · exact Call.keeps_report h
  split
  · exact Call.keeps_report h
  split
  · exact Call.keeps_report h
  · rename_i hfits
    rw [not_or, h.capacity i, not_lt] at hfits
    exact enterEdge_sized bound _ _ _ _ (h.setFlow rfl hfits.1)

theorem expireRegion_sized {bound : Nat} {regionId : UInt8} (h : Sized image s) :
    (expireRegion image bound s regionId).Keeps (Sized image) := by
  unfold expireRegion
  split
  · exact Call.keeps_report h
  split
  · exact Call.keeps_report h
  split
  · refine Call.keeps_each _ (fun j _ t ht => ?_) s h
    unfold expireSent
    split
    · exact deliveryOutcome_sized ht
    · exact Call.keeps_done ht
  split
  · exact Call.keeps_report h
  · dsimp only
    split
    · exact deliveryOutcome_sized h
    split
    · split
      · exact enterEdge_sized bound _ _ _ _ (h.setFlow rfl (Nat.zero_le _))
      · exact Call.keeps_done (h.recordTerminal _ _)
    · exact Call.keeps_done (h.recordTerminal _ _)

theorem starts_sized (hs : Starts image s) : Sized image s := by
  obtain ⟨bound, executionId, capacity, stride, inputType, input, hstart⟩ := hs
  unfold start at hstart
  split at hstart
  · cases hstart
  rename_i harguments
  split at hstart
  · cases hstart
  split at hstart
  · cases hstart
  rename_i root _
  have hfresh : Sized image ((fresh image executionId stride).setFlow 0 fun flow =>
      { flow with value := input }) := by
    obtain ⟨deadlineMs, deadlines, hfresh⟩ := fresh_eq image executionId stride
    have hempty : Sized image (fresh image executionId stride) := by
      rw [hfresh]
      refine ⟨rfl, by show stride ≤ _; omega, fun j => ?_, fun j => ?_⟩
      · by_cases hj : j = 0 <;> simp [Function.update, hj]
      · by_cases hj : j = 0 <;> simp [Function.update, hj]
    refine hempty.setFlow rfl ?_
    rw [hfresh]
    show input.length ≤ stride
    omega
  dsimp only at hstart
  split at hstart
  · cases hstart
  · rename_i s₁ henter
    obtain rfl := Except.ok.inj (Option.some.inj hstart)
    exact enterEdge_sized bound _ _ _ _ hfresh _ _ henter
  · cases hstart

theorem performs_sized {op : GroupOp} (h : Sized image s) (hop : Performs image s op t) :
    Sized image t := by
  cases op with
  | prepare i =>
      rcases performs_prepare hop with rfl | ⟨frame, hp⟩
      · exact h
      · obtain ⟨-, -, -, -, rfl⟩ := prepare_ok hp
        exact Sized.mark (s := { s with nextRequestId := s.nextRequestId + 1 })
          (h.congr rfl rfl rfl) rfl rfl
  | markSent i =>
      rcases performs_markSent hop with rfl | hm
      · exact h
      · obtain ⟨-, -, rfl⟩ := markSent_ok hm
        exact h.mark rfl rfl
  | markNotSent i | markUnknown i =>
      obtain ⟨bound, r, hcall⟩ := hop
      exact deliveryOutcome_sized h _ _ hcall
  | acceptResult i result =>
      obtain ⟨bound, r, hcall⟩ := hop
      exact acceptResult_sized h _ _ hcall
  | expireRegion regionId =>
      obtain ⟨bound, r, hcall⟩ := hop
      exact expireRegion_sized h _ _ hcall

/-- **Every group on an image keeps to its storage**, in every run. -/
theorem sized_reachable {C : GroupExecution → GroupOp → Prop}
    (h : (system image).ReachWhere C s) : Sized image s :=
  h.invariant (P := Sized image) (fun _ hs => starts_sized hs)
    fun _ _ _ hs _ hop => performs_sized hs hop

end GroupExecution

end Hermas
