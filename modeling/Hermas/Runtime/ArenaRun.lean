import Hermas.Runtime.Arena

/-!
# No flow misses its slot

The tasks on the way of a value keep the arena, one by one. Behind the first task wait
only the other branches of a fork, the other fields of a join or the admission of
further items: the kernel lets a branch and an item enter an action and nothing else,
and a field a fork, an action or the success terminal. So no flow that waits for its
turn is cut off, and a region never begins or ends in between.
-/

namespace Hermas

open Compiler (EdgeSource EdgeTarget)
open Image (Edge EachRegion)

namespace Compiler

variable {image : Image} {edge : Edge}

theorem targetKind_of_some {target : EdgeTarget} (h : edgeTarget edge = some target) :
    edge.targetKind = (GraphBuilder.targetRecord target).1 := by
  unfold edgeTarget at h
  split at h <;> first | (obtain rfl := Option.some.inj h; assumption) | cases h

theorem sourceKind_of_some {source : EdgeSource} (h : edgeSource edge = some source) :
    edge.sourceKind = (GraphBuilder.sourceRecord source).1 := by
  unfold edgeSource at h
  split at h <;> first | (obtain rfl := Option.some.inj h; assumption) | cases h

/-- A branch and an item enter an action. -/
theorem Routed.branch (h : Routed image edge) (hk : edge.sourceKind = 6 ∨ edge.sourceKind = 8) :
    edge.targetKind = 1 := by
  obtain ⟨source, target, kind, hsource, htarget, -, hroute⟩ := h
  rw [sourceKind_of_some hsource] at hk
  rw [targetKind_of_some htarget]
  cases source with
  | forkBranch | eachItem => cases target <;> first | rfl | cases hroute
  | _ => simp [GraphBuilder.sourceRecord] at hk

/-- A field of a join enters a fork, an action or a terminal. -/
theorem Routed.field (h : Routed image edge) (hk : edge.sourceKind = 7) :
    edge.targetKind = 1 ∨ edge.targetKind = 4 ∨ edge.targetKind = 2 := by
  obtain ⟨source, target, kind, hsource, htarget, -, hroute⟩ := h
  rw [sourceKind_of_some hsource] at hk
  rw [targetKind_of_some htarget]
  cases source with
  | joinField => cases target <;> first | cases hroute | simp [GraphBuilder.targetRecord]
  | _ => simp [GraphBuilder.sourceRecord] at hk

/-- Neither the input nor a case nor an output enters a join or a collect point. -/
theorem Routed.opening (h : Routed image edge)
    (hk : edge.sourceKind = 0 ∨ edge.sourceKind = 5 ∨ edge.sourceKind = 9) :
    edge.targetKind ≠ 5 ∧ edge.targetKind ≠ 7 := by
  obtain ⟨source, target, kind, hsource, htarget, -, hroute⟩ := h
  rw [sourceKind_of_some hsource] at hk
  rw [targetKind_of_some htarget]
  cases source with
  | workflowInput | dispatchCase | eachOutput =>
      cases target <;> first | cases hroute | simp [GraphBuilder.targetRecord]
  | _ => simp [GraphBuilder.sourceRecord] at hk

end Compiler

namespace GroupExecution

/-! ## Tasks in order -/

/-- The flows that tasks are about to move. -/
def hands (tasks : List Task) : List FlowIndex := tasks.filterMap Task.hand

namespace Task

/-- Tasks that may wait behind others. -/
def Late (s : GroupExecution) : Task → Prop
  | .branch .. | .field .. | .settle => True
  | .admitItems regionId region =>
      regionId = s.activeEachRegion ∧ s.eachRegion? regionId = some region
  | _ => False

/-- Tasks that others may wait for. -/
def Ahead : Task → Prop
  | .enter _ edge o =>
      edge.targetKind = 1 ∨ edge.targetKind = 4 ∨ (edge.targetKind = 2 ∧ o = .success)
  | .flush _ | .finish | .refill => False
  | .branch .. | .field .. | .settle | .admitItems .. => True

/-- Tasks that may be the next. -/
def Due (image : Image) (s : GroupExecution) : Task → Prop
  | .enter _ edge _ => edge ∈ image.tables.edges
  | .flush regionId => regionId ≠ 0 ∧ regionId = s.activeEachRegion
  | .finish => s.eachFlushItem = s.eachItemCount
  | .refill => True
  | .branch .. | .field .. | .settle => True
  | .admitItems regionId region =>
      regionId = s.activeEachRegion ∧ s.eachRegion? regionId = some region

theorem Late.ahead {s : GroupExecution} {task : Task} (h : task.Late s) : task.Ahead := by
  cases task with
  | branch | field | settle | admitItems => trivial
  | enter | flush | finish | refill => cases h

theorem Late.due {image : Image} {s : GroupExecution} {task : Task} (h : task.Late s) :
    task.Due image s := by
  cases task with
  | branch | field | settle | admitItems => exact h
  | enter | flush | finish | refill => cases h

end Task

/-- The tasks are in order: those behind the first may wait, and it lets them; each has its own
flow, in use. -/
structure Queued (image : Image) (tasks : List Task) (s : GroupExecution) : Prop where
  due : ∀ task ∈ tasks.head?, task.Due image s
  late : ∀ task ∈ tasks.tail, task.Late s
  ahead : tasks.tail ≠ [] → ∀ task ∈ tasks.head?, task.Ahead
  busy : ∀ k ∈ hands tasks, (s.flows k).active = true
  nodup : (hands tasks).Nodup

/-- What a task that others wait for may do: it keeps the active region and the flows in use, takes
no flow in hand that was in use, and leads to a task that lets others wait. -/
structure Passes (task : Task) (onward : List Task) (s t : GroupExecution) : Prop where
  regions : t.eachRegions = s.eachRegions
  active : t.activeEachRegion = s.activeEachRegion
  stays : ∀ k, (s.flows k).active = true → task.hand ≠ some k → (t.flows k).active = true
  hands : ∀ k ∈ hands onward, task.hand = some k ∨ (s.flows k).active = false
  ahead : ∀ next ∈ onward.head?, next.Ahead

/-- What one task leads to. -/
structure Leads (image : Image) (bound : Nat) (task : Task) (onward : List Task)
    (s t : GroupExecution) : Prop where
  arena : Arena image bound t
  queued : Queued image onward t
  passes : task.Ahead → Passes task onward s t

variable {image : Image} {bound : Nat} {s t : GroupExecution} {task : Task}
variable {onward rest tasks : List Task} {i : FlowIndex} {edge : Edge} {o : Outcome}

theorem Queued.nil : Queued image [] s :=
  ⟨by simp, by simp, by simp, by simp [hands], by simp [hands]⟩

theorem Queued.single (hdue : task.Due image s)
    (hbusy : ∀ k, task.hand = some k → (s.flows k).active = true) : Queued image [task] s where
  due := by simpa using hdue
  late := by simp
  ahead := fun hne => absurd rfl hne
  busy := fun k hk => by
    obtain ⟨task', hmem, hhand⟩ := List.mem_filterMap.mp hk
    rw [List.mem_singleton.mp hmem] at hhand
    exact hbusy k hhand
  nodup := by
    cases hhand : task.hand with
    | none => simp [hands, hhand]
    | some k => simp [hands, hhand]

theorem Passes.late (h : Passes task onward s t) {task' : Task} (hlate : task'.Late s) :
    task'.Late t := by
  cases task' with
  | admitItems regionId region =>
      obtain ⟨hactive, hregion⟩ := hlate
      refine ⟨hactive.trans h.active.symm, ?_⟩
      rw [eachRegion?, h.regions]
      exact hregion
  | branch | field | settle => trivial
  | enter | flush | finish | refill => cases hlate

/-- **Tasks stay in order.** -/
theorem Queued.next (h : Queued image (task :: rest) s)
    (hleads : Leads image bound task onward s t) : Queued image (onward ++ rest) t := by
  cases rest with
  | nil => rw [List.append_nil]; exact hleads.queued
  | cons waiting rest =>
      have hahead : task.Ahead := h.ahead (by simp) task rfl
      have hpasses := hleads.passes hahead
      have hlate : ∀ task' ∈ waiting :: rest, task'.Late t := fun task' hmem =>
        hpasses.late (h.late task' hmem)
      have hnodup := h.nodup
      have hhands : hands (task :: waiting :: rest) =
          task.hand.toList ++ hands (waiting :: rest) := by
        cases hhand : task.hand <;> simp [hands, hhand]
      rw [hhands, List.nodup_append] at hnodup
      have hother : ∀ k ∈ hands (waiting :: rest), task.hand ≠ some k ∧
          (s.flows k).active = true := by
        intro k hk
        refine ⟨fun hhand => ?_, h.busy k (by rw [hhands]; exact List.mem_append_right _ hk)⟩
        exact hnodup.2.2 k (by simp [hhand]) k hk rfl
      have hsplit : hands (onward ++ waiting :: rest) = hands onward ++ hands (waiting :: rest) :=
        List.filterMap_append
      refine ⟨?_, ?_, ?_, ?_, ?_⟩
      · cases onward with
        | nil => simpa using (hlate waiting List.mem_cons_self).due
        | cons next onward => simpa using hleads.queued.due
      · intro task' hmem
        cases onward with
        | nil => exact hlate task' (List.mem_cons_of_mem _ hmem)
        | cons next onward =>
            rcases List.mem_append.mp hmem with hmem | hmem
            · exact hleads.queued.late task' hmem
            · exact hlate task' hmem
      · intro _
        cases onward with
        | nil => simpa using (hlate waiting List.mem_cons_self).ahead
        | cons next onward => simpa using hpasses.ahead
      · intro k hk
        rw [hsplit] at hk
        rcases List.mem_append.mp hk with hk | hk
        · exact hleads.queued.busy k hk
        · exact hpasses.stays k (hother k hk).2 (hother k hk).1
      · rw [hsplit, List.nodup_append]
        refine ⟨hleads.queued.nodup, hnodup.2.1, fun k hk l hl hkl => ?_⟩
        subst hkl
        rcases hpasses.hands k hk with hhand | hfree
        · exact (hother k hl).1 hhand
        · rw [(hother k hl).2] at hfree
          cases hfree

/-! ## What one task leads to -/

variable (image bound) in
/-- The slots that the target of an edge takes into use. A region that finds another one active is
refused and takes none. -/
def demand (edge : Edge) (s : GroupExecution) : Option Nat :=
  if edge.targetKind = 4 then some (image.node edge.targetNode).subtype.toNat
  else if edge.targetKind = 6 ∧ s.activeEachRegion = 0 then
    (s.eachRegion? edge.targetNode.toUInt8).map (·.concurrency.toNat)
  else none

variable (image bound) in
/-- A fork or a region is entered only if it fits under the bound, beside the other flows in use and
what the active region may still ask for. -/
def Task.Roomy : Task → GroupExecution → Prop
  | .enter i edge _, s => ∀ width ∈ demand image edge s,
      (s.busyFlows.erase i).card + s.reserve + width ≤ bound
  | _, _ => True

theorem hands_zip {task : Nat × FlowIndex → Task} (hhand : ∀ branch, (task branch).hand = some branch.2)
    {count : Nat} {flows : List FlowIndex} (hlen : flows.length ≤ count) :
    hands (((List.range count).zip flows).map task) = flows := by
  have hcomp : Task.hand ∘ task = some ∘ Prod.snd := funext hhand
  rw [hands, List.filterMap_map, hcomp, List.filterMap_eq_map]
  exact List.map_snd_zip (by rwa [List.length_range])

theorem hands_branches {node : UInt16} {count : Nat} {flows : List FlowIndex}
    (hlen : flows.length ≤ count) : hands (((List.range count).zip flows).map fun branch =>
      .branch node branch.1 branch.2) = flows := hands_zip (fun _ => rfl) hlen

theorem hands_fields {node : UInt16} {count : Nat} {flows : List FlowIndex}
    (hlen : flows.length ≤ count) : hands ((((List.range count).zip flows).map fun branch =>
      .field node branch.1 branch.2) ++ [.settle]) = flows := by
  rw [hands, List.filterMap_append]
  exact (List.append_nil _).trans (hands_zip (fun _ => rfl) hlen)

/-- Branches or fields that wait for each other, each with a flow of its own in use. -/
theorem Queued.of_late (hlate : ∀ task ∈ tasks, task.Late s)
    (hbusy : ∀ k ∈ hands tasks, (s.flows k).active = true) (hnodup : (hands tasks).Nodup) :
    Queued image tasks s where
  due := fun task hmem => (hlate task (List.mem_of_head? hmem)).due
  late := fun task hmem => hlate task (List.mem_of_mem_tail hmem)
  ahead := fun _ task hmem => (hlate task (List.mem_of_head? hmem)).ahead
  busy := hbusy
  nodup := hnodup

/-- The flow stands in front of the node, and the arena is as it was. -/
theorem Arena.aim (h : Arena image bound s) (i : FlowIndex) (edge : Edge) :
    Arena image bound (s.aim i edge) :=
  h.of_busy (aim_sameItems s i edge) fun k hk => by rwa [aim_active] at hk

/-- A fork that is entered gets its slots under the bound, also when it fails half way. -/
theorem Arena.enter_fork (h : Arena image bound s)
    (hroomy : (Task.enter i edge o).Roomy image bound s) (hk : edge.targetKind = 4)
    (hnode : (image.node edge.targetNode).kind = 4) {flows : List FlowIndex} :
    Arena image bound (takeBranches i ((image.node edge.targetNode).subtype.toNat - 1) flows
      (s.aim i edge)).2.2 := by
  have hbranches := Image.fork_branches image hnode
  have hsame : (s.aim i edge).busyFlows = s.busyFlows := by
    ext k
    rw [mem_busyFlows, mem_busyFlows, aim_active]
  have hroom := hroomy (image.node edge.targetNode).subtype.toNat (by simp [demand, hk])
  refine (h.aim i edge).fork ?_
  rw [hsame, (aim_sameItems s i edge).reserve_eq hsame]
  omega

theorem leads_ready (harena : Arena image bound s) (hbusy : (s.flows i).active = true) :
    Leads image bound (.enter i edge o) [] s ((s.aim i edge).setFlow i fun flow =>
      { flow with state := .ready, active := true }) where
  arena := (harena.aim i edge).setFlow i rfl rfl fun _ => by rwa [aim_active]
  queued := .nil
  passes := fun _ => {
    regions := rfl
    active := rfl
    stays := fun k hk hne => by
      have hki : k ≠ i := fun hki => hne (by rw [hki]; rfl)
      rwa [setFlow_flows_of_ne _ _ hki, aim_active]
    hands := fun k hk => by cases hk
    ahead := fun next hnext => by cases hnext }

theorem leads_fork (harena : Arena image bound s) (hbusy : (s.flows i).active = true)
    (hroomy : (Task.enter i edge o).Roomy image bound s) (hk : edge.targetKind = 4)
    (hnode : (image.node edge.targetNode).kind = 4) {flows : List FlowIndex}
    (htake : takeBranches i ((image.node edge.targetNode).subtype.toNat - 1) [i] (s.aim i edge) =
      (.ok, flows, t)) :
    Leads image bound (.enter i edge o) (((List.range (image.node edge.targetNode).subtype.toNat).zip
      flows).map fun branch => .branch edge.targetNode branch.1 branch.2) s t := by
  have hbranches := Image.fork_branches image hnode
  have harena' : Arena image bound (takeBranches i _ [i] (s.aim i edge)).2.2 :=
    harena.enter_fork hroomy hk hnode
  rw [htake] at harena'
  obtain ⟨taken, rfl, hlen, hnodup, hspare, rfl⟩ := takeBranches_taken htake
  have hfree : ∀ k ∈ taken, (s.flows k).active = false ∧ k ≠ i := fun k hmem => by
    have hspare := mem_spareFlows.mp (hspare k hmem)
    rwa [aim_active] at hspare
  have hhands := @hands_branches edge.targetNode (image.node edge.targetNode).subtype.toNat
    ([i] ++ taken) (by rw [List.length_append, hlen, List.length_singleton]; omega)
  have hlate : ∀ task ∈ ((List.range (image.node edge.targetNode).subtype.toNat).zip
      ([i] ++ taken)).map fun branch => Task.branch edge.targetNode branch.1 branch.2,
      ∀ u, task.Late u := List.forall_mem_map.mpr fun _ _ _ => trivial
  refine ⟨harena', .of_late (fun task hmem => hlate task hmem _) ?_ ?_, fun _ => {
    regions := rfl
    active := rfl
    stays := fun k hk _ => ?_
    hands := fun k hk => ?_
    ahead := fun next hnext => (hlate next (List.mem_of_head? hnext) s).ahead }⟩
  · intro k hk
    rw [hhands, List.singleton_append, List.mem_cons] at hk
    by_cases hmem : k ∈ taken
    · simp [hmem]
    · obtain rfl := hk.resolve_right hmem
      simp [hmem, hbusy]
  · rw [hhands]
    exact List.nodup_cons.mpr ⟨fun hmem => (hfree i hmem).2 rfl, hnodup⟩
  · by_cases hmem : k ∈ taken
    · simp [hmem]
    · simp [hmem, hk]
  · rw [hhands, List.singleton_append, List.mem_cons] at hk
    rcases hk with rfl | hmem
    · exact .inl rfl
    · exact .inr (hfree k hmem).1

theorem leads_dispatch (harena : Arena image bound s) (hbusy : (s.flows i).active = true)
    (hk : edge.targetKind = 3) {next : Edge}
    (hnext : dispatchCase image ((s.aim i edge).flows i).value edge.targetNode = some next) :
    Leads image bound (.enter i edge o) [.enter i next o] s ((s.aim i edge).setFlow i fun flow =>
      { flow with value := flow.value.drop 8 }) where
  arena := (harena.aim i edge).setFlow i rfl rfl id
  queued := .single (Image.mem_of_groupFindEdge (dispatchCase_some hnext).2.2.2.1).1
    fun k hhand => by
      obtain rfl := Option.some.inj hhand
      rwa [setFlow_flows_self, aim_active]
  passes := fun hahead => by simp [Task.Ahead, hk] at hahead

/-- The flows of a filled join are different ones. -/
theorem branchFlows_nodup {joinNode : UInt16} {count : Nat} (hcount : count ≤ 256)
    {flows : List FlowIndex} (h : s.branchFlows joinNode count = some flows) : flows.Nodup := by
  have hall := branchFlows_some h
  have htag : List.Forall₂ (fun tag i => UInt8.ofNat tag = (s.flows i).joinTag) (List.range count)
      flows := hall.imp fun tag i hi => by
    have hfound := firstIndex_some hi
    simp only [Bool.and_eq_true, beq_iff_eq] at hfound
    exact hfound.2.symm
  have htags : (List.range count).map UInt8.ofNat = flows.map fun i => (s.flows i).joinTag := by
    rw [← List.forall₂_eq_eq_eq, List.forall₂_map_left_iff, List.forall₂_map_right_iff]
    exact htag
  refine List.Nodup.of_map (fun i => (s.flows i).joinTag) ?_
  rw [← htags]
  refine List.Nodup.map_on (fun a ha b hb hab => ?_) List.nodup_range
  rw [List.mem_range] at ha hb
  rw [← UInt8.toNat_inj, UInt8.toNat_ofNat', UInt8.toNat_ofNat'] at hab
  omega

theorem leads_join (harena : Arena image bound s) (hk : edge.targetKind = 5)
    {flows : List FlowIndex}
    (ht : t = (s.aim i edge).setFlow i fun flow => { flow with
      joinNode := edge.targetNode
      joinTag := edge.caseTag
      state := .waiting })
    (hflows : t.branchFlows edge.targetNode (image.node edge.targetNode).subtype.toNat = some flows) :
    Leads image bound (.enter i edge o) ((((List.range (image.node edge.targetNode).subtype.toNat).zip
      flows).map fun branch => .field edge.targetNode branch.1 branch.2) ++ [.settle]) s t := by
  have hlen : (List.range (image.node edge.targetNode).subtype.toNat).length = flows.length :=
    (branchFlows_some hflows).length_eq
  rw [List.length_range] at hlen
  have hhands := @hands_fields edge.targetNode _ flows hlen.ge
  have hlate : ∀ task ∈ (((List.range (image.node edge.targetNode).subtype.toNat).zip flows).map
      fun branch => Task.field edge.targetNode branch.1 branch.2) ++ [.settle], task.Late t :=
    List.forall_mem_append.mpr
      ⟨List.forall_mem_map.mpr fun _ _ => trivial, List.forall_mem_singleton.mpr trivial⟩
  refine ⟨?_, .of_late hlate ?_ ?_, fun hahead => by simp [Task.Ahead, hk] at hahead⟩
  · rw [ht]
    exact (harena.aim i edge).setFlow i rfl rfl id
  · rw [hhands]
    intro k hmem
    have hsnd : ((List.range (image.node edge.targetNode).subtype.toNat).zip flows).map Prod.snd =
        flows := List.map_snd_zip (by rw [List.length_range]; exact hlen.ge)
    rw [← hsnd] at hmem
    obtain ⟨branch, hbranch, rfl⟩ := List.mem_map.mp hmem
    exact (branchFlows_wait hflows branch hbranch).1
  · rw [hhands]
    exact branchFlows_nodup (image.node edge.targetNode).subtype.toNat_lt.le hflows

theorem leads_each (harena : Arena image bound s)
    (hroomy : (Task.enter i edge o).Roomy image bound s) (hk : edge.targetKind = 6)
    {items : List (Nat × Nat)}
    (hitems : eachList image (s.aim i edge) i edge.targetNode.toUInt8 = some items) :
    Leads image bound (.enter i edge o) [if items.length = 0 then .finish else .refill] s
      ((s.aim i edge).beginEach i edge.targetNode.toUInt8 items) := by
  unfold eachList at hitems
  split at hitems
  · cases hitems
  rename_i region hregion
  split at hitems
  · cases hitems
  rename_i hopen
  rw [not_or, not_not] at hopen
  have hsame : (s.aim i edge).busyFlows = s.busyFlows := by
    ext k
    rw [mem_busyFlows, mem_busyFlows, aim_active]
  have hroom := hroomy region.concurrency.toNat (by
    have hactive : s.activeEachRegion = 0 := hopen.1
    have hfound : s.eachRegion? edge.targetNode.toUInt8 = some region := hregion
    simp [demand, hk, hactive, hfound])
  refine ⟨(harena.aim i edge).beginEach hregion hopen.1 ?_, ?_,
    fun hahead => by simp [Task.Ahead, hk] at hahead⟩
  · rw [hsame]
    omega
  · split
    · rename_i hempty
      exact .single hempty.symm fun k hhand => by cases hhand
    · exact .single trivial fun k hhand => by cases hhand

theorem leads_collect (harena : Arena image bound s) (hk : edge.targetKind = 7) {regionId : UInt8}
    (hne : regionId ≠ 0) (hactive : regionId = s.activeEachRegion) :
    Leads image bound (.enter i edge o) [.flush regionId] s ((s.aim i edge).waitToCollect i) where
  arena := by
    refine (harena.aim i edge).of_busy ?_ fun k hk => ?_
    · have hwaits : SameItems (s.aim i edge) ((s.aim i edge).setFlow i fun flow =>
          { flow with state := .waiting }) := .setFlow (s.aim i edge) i rfl rfl
      exact ⟨rfl, rfl, rfl, rfl, rfl, hwaits.region, hwaits.index⟩
    · by_cases hki : k = i
      · subst hki; simpa [waitToCollect] using hk
      · simpa [waitToCollect, setFlow, hki] using hk
  queued := .single ⟨hne, hactive⟩ fun k hhand => by cases hhand
  passes := fun hahead => by simp [Task.Ahead, hk] at hahead

theorem leads_terminal (harena : Arena image bound s) (hk : edge.targetKind = 2) :
    Leads image bound (.enter i edge o) [] s ((s.aim i edge).recordTerminal i o) where
  arena := (harena.aim i edge).recordTerminal i o
  queued := .nil
  passes := fun hahead => by
    have hsame := SameItems.recordTerminal (s.aim i edge) i o
    have hsuccess : o = .success := by simpa [Task.Ahead, hk] using hahead
    refine ⟨hsame.regions, hsame.active, fun k hk hne => ?_, fun k hk => (by cases hk),
      fun next hnext => by cases hnext⟩
    have hki : k ≠ i := fun hki => hne (by rw [hki]; rfl)
    rw [recordTerminal_flows, if_neg (by simp [hki, hsuccess]), aim_active]
    exact hk

theorem advanceArrival_leads (harena : Arena image bound s) (hbusy : (s.flows i).active = true)
    (hroomy : (Task.enter i edge o).Roomy image bound s)
    (h : advanceArrival image i edge o (s.aim i edge) = some (onward, t)) :
    Leads image bound (.enter i edge o) onward s t := by
  unfold advanceArrival at h
  split at h
  · obtain ⟨rfl, rfl⟩ := Prod.mk.inj (Option.some.inj h)
    exact leads_ready harena hbusy
  split at h
  · rename_i hk
    simp only at h
    split at h
    · cases h
    rename_i hnode
    split at h
    · rename_i flows t' htake
      obtain ⟨rfl, rfl⟩ := Prod.mk.inj (Option.some.inj h)
      exact leads_fork harena hbusy hroomy hk (not_not.mp hnode) htake
    · cases h
  split at h
  · rename_i hk
    obtain ⟨next, hnext, heq⟩ := Option.map_eq_some_iff.mp h
    obtain ⟨rfl, rfl⟩ := Prod.mk.inj heq
    exact leads_dispatch harena hbusy hk hnext
  split at h
  · rename_i hk
    simp only at h
    split at h
    · cases h
    split at h
    · obtain ⟨rfl, rfl⟩ := Prod.mk.inj (Option.some.inj h)
      exact ⟨((harena.aim i edge).setFlow i (f := fun flow => { flow with
        joinNode := edge.targetNode
        joinTag := edge.caseTag
        state := .waiting }) rfl rfl id).maybeComplete, .nil,
        fun hahead => by simp [Task.Ahead, hk] at hahead⟩
    · rename_i flows hflows
      obtain ⟨rfl, rfl⟩ := Prod.mk.inj (Option.some.inj h)
      exact leads_join harena hk rfl hflows
  split at h
  · rename_i hk
    obtain ⟨items, hitems, heq⟩ := Option.map_eq_some_iff.mp h
    obtain ⟨rfl, rfl⟩ := Prod.mk.inj heq
    exact leads_each harena hroomy hk hitems
  split at h
  · rename_i hk
    simp only at h
    split at h
    · cases h
    · rename_i hopen
      obtain ⟨rfl, rfl⟩ := Prod.mk.inj (Option.some.inj h)
      simp only [not_or, not_not] at hopen
      exact leads_collect harena hk hopen.1 hopen.2.1
  split at h
  · rename_i hk
    obtain ⟨rfl, rfl⟩ := Prod.mk.inj (Option.some.inj h)
    exact leads_terminal harena hk
  · cases h

/-- A region that is active keeps at least one item busy. -/
theorem Arena.concurrency_pos (h : Arena image bound s) {regionId : UInt8} {region : EachRegion}
    (hregion : s.eachRegion? regionId = some region) : 0 < region.concurrency.toNat := by
  unfold eachRegion? at hregion
  split at hregion
  · cases hregion
  · rw [h.regions] at hregion
    obtain ⟨classes, regions, hchecked⟩ := image.checked
    have hmem := List.mem_of_getElem? hregion
    rw [← hchecked.each_eq] at hmem
    exact Nat.pos_of_ne_zero fun hzero =>
      (hchecked.each_checked region hmem).concurrency_pos (UInt8.toNat_inj.mp hzero)

/-- **What a task leads to**, in an image whose edges the kernel admits. -/
theorem advance_leads (hrouted : ∀ edge ∈ image.tables.edges, Compiler.Routed image edge)
    (harena : Arena image bound s) (hdue : task.Due image s)
    (hbusy : ∀ k, task.hand = some k → (s.flows k).active = true)
    (hroomy : task.Roomy image bound s) (h : advance image task s = some (onward, t)) :
    Leads image bound task onward s t := by
  cases task with
  | enter i edge o => exact advanceArrival_leads harena (hbusy i rfl) hroomy h
  | branch forkNode tag i =>
      obtain ⟨next, hnext, heq⟩ := Option.map_eq_some_iff.mp h
      obtain ⟨rfl, rfl⟩ := Prod.mk.inj heq
      obtain ⟨hmem, hsource, -⟩ := Image.mem_of_groupFindEdge hnext
      refine ⟨harena, .single hmem hbusy, fun _ => ⟨rfl, rfl, fun _ hk _ => hk, fun k hk => ?_, ?_⟩⟩
      · exact .inl (by simpa [GroupExecution.hands, Task.hand, eq_comm] using hk)
      · simpa using .inl ((hrouted next hmem).branch (.inl hsource))
  | field joinNode tag i =>
      simp only [advance] at h
      split at h
      · rename_i next hnext
        obtain ⟨rfl, rfl⟩ := Prod.mk.inj (Option.some.inj h)
        obtain ⟨hmem, hsource, -⟩ := Image.mem_of_groupFindEdge hnext
        refine ⟨harena, .single hmem hbusy,
          fun _ => ⟨rfl, rfl, fun _ hk _ => hk, fun k hk => ?_, ?_⟩⟩
        · exact .inl (by simpa [GroupExecution.hands, Task.hand, eq_comm] using hk)
        · have hkind := (hrouted next hmem).field hsource
          simpa [Task.Ahead] using hkind
      · obtain ⟨rfl, rfl⟩ := Prod.mk.inj (Option.some.inj h)
        refine ⟨harena.setFlow i rfl rfl fun hk => (by cases hk), .nil,
          fun _ => ⟨rfl, rfl, fun k hk hne => ?_, fun k hk => (by cases hk), fun _ hnext => by cases hnext⟩⟩
        have hki : k ≠ i := fun hki => hne (by rw [hki]; rfl)
        rwa [setFlow_flows_of_ne _ _ hki]
  | settle =>
      obtain ⟨rfl, rfl⟩ := Prod.mk.inj (Option.some.inj h)
      have hsame := SameItems.maybeComplete s
      refine ⟨harena.maybeComplete, .nil, fun _ => ⟨hsame.regions, hsame.active, fun k hk _ => ?_,
        fun k hk => (by cases hk), fun _ hnext => by cases hnext⟩⟩
      rwa [maybeComplete_flows]
  | flush regionId =>
      obtain ⟨hne, hactive⟩ := hdue
      simp only [advance] at h
      split at h
      · obtain ⟨rfl, rfl⟩ := Prod.mk.inj (Option.some.inj h)
        refine ⟨harena, ?_, fun hahead => by cases hahead⟩
        split
        · rename_i hdone
          exact .single hdone fun k hhand => by cases hhand
        · exact .single trivial fun k hhand => by cases hhand
      rename_i ready hready
      split at h
      · cases h
      · obtain ⟨rfl, rfl⟩ := Prod.mk.inj (Option.some.inj h)
        subst hactive
        exact ⟨harena.collectItem hready hne, .single ⟨hne, rfl⟩ fun k hhand => (by cases hhand),
          fun hahead => by cases hahead⟩
  | finish =>
      simp only [advance] at h
      split at h
      · cases h
      rename_i region hregion
      split at h
      · cases h
      · obtain ⟨next, hnext, heq⟩ := Option.map_eq_some_iff.mp h
        obtain ⟨rfl, rfl⟩ := Prod.mk.inj heq
        refine ⟨harena.handOver hregion (harena.concurrency_pos hregion) hdue,
          .single (Image.mem_of_groupFindEdge hnext).1 fun k hhand => ?_, fun hahead => by cases hahead⟩
        obtain rfl := Option.some.inj hhand
        simp [handOver]
  | refill =>
      obtain ⟨region, hregion, heq⟩ := Option.map_eq_some_iff.mp h
      obtain ⟨rfl, rfl⟩ := Prod.mk.inj heq
      exact ⟨harena, .single ⟨rfl, hregion⟩ fun k hhand => (by cases hhand),
        fun hahead => by cases hahead⟩
  | admitItems regionId region =>
      obtain ⟨rfl, hregion⟩ := hdue
      simp only [advance] at h
      split at h
      · obtain ⟨rfl, rfl⟩ := Prod.mk.inj (Option.some.inj h)
        exact ⟨harena, .nil, fun _ => ⟨rfl, rfl, fun _ hk _ => hk, fun k hk => (by cases hk),
          fun _ hnext => by cases hnext⟩⟩
      rename_i hroom
      rw [not_or, Nat.not_le, Nat.not_le] at hroom
      split at h
      · cases h
      rename_i slot hslot
      have hfree : (s.flows slot).active = false := by simpa using firstIndex_some hslot
      split at h
      · cases h
      · obtain ⟨next, hnext, heq⟩ := Option.map_eq_some_iff.mp h
        obtain ⟨rfl, rfl⟩ := Prod.mk.inj heq
        obtain ⟨hmem, hsource, -⟩ := Image.mem_of_groupFindEdge hnext
        have haction := (hrouted next hmem).branch (.inr hsource)
        have hplaced : ((s.placeItem slot s.activeEachRegion s.nextItem).flows slot).active = true := by
          simp [placeItem]
        refine ⟨harena.placeItem hregion hroom.1 hroom.2 hfree fun _ => ⟨rfl, rfl, rfl⟩,
          ⟨?_, ?_, ?_, ?_, ?_⟩, fun _ => ⟨rfl, rfl, fun k hk _ => ?_, fun k hk => ?_, ?_⟩⟩
        · simpa [Task.Due] using hmem
        · simp only [List.tail_cons, List.forall_mem_singleton]
          exact ⟨rfl, hregion⟩
        · simp [Task.Ahead, haction]
        · simpa [GroupExecution.hands, Task.hand] using hplaced
        · exact List.nodup_singleton slot
        · have hne : k ≠ slot := by rintro rfl; rw [hfree] at hk; cases hk
          rwa [placeItem, setFlow_flows_of_ne _ _ hne]
        · obtain rfl : k = slot := by simpa [GroupExecution.hands, Task.hand] using hk
          exact .inr hfree
        · simp [Task.Ahead, haction]

end GroupExecution

end Hermas
