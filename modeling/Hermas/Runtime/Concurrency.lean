import Hermas.Runtime.ArenaRun

/-!
# The static bound on concurrent actions

In runs whose forks and each regions fit under the bound of the graph's resources, the
arena suffices. A start always fits: the first fork or region is entered by the only
flow there is, and the bound is the widest of them. What is entered beside other flows
need not fit, and then the bound is wrong: two nested forks of two branches each have
three deliveries out under a bound of two.
-/

namespace Hermas

open Image (Edge EachRegion)

namespace GroupExecution

variable {image : Image} {bound : Nat} {s s' t : GroupExecution} {i : FlowIndex}
variable {r : RuntimeResult} {o : Outcome} {task : Task} {onward rest tasks : List Task}

/-! ## Calls -/

/-- The arena, with the tasks that are ahead in order. -/
def Busy (image : Image) (bound : Nat) (tasks : List Task) (s : GroupExecution) : Prop :=
  Arena image bound s ∧ Queued image tasks s

section Routed

variable (hrouted : ∀ edge ∈ image.tables.edges, Compiler.Routed image edge)

include hrouted

theorem Busy.next (h : Busy image bound (task :: rest) s) (hroomy : task.Roomy image bound s)
    (hadvance : advance image task s = some (onward, t)) : Busy image bound (onward ++ rest) t := by
  obtain ⟨harena, hqueued⟩ := h
  have hleads := advance_leads hrouted harena (hqueued.due task rfl)
    (fun k hhand => hqueued.busy k (List.mem_filterMap.mpr ⟨task, List.mem_cons_self, hhand⟩))
    hroomy hadvance
  exact ⟨hleads.arena, hqueued.next hleads⟩

omit hrouted in
theorem Retires.arena (h : s.Retires i o s') (harena : Arena image bound s) :
    Arena image bound s' := by
  obtain ⟨f, hf, rfl⟩ := h
  obtain ⟨_, _, _, _, hflow⟩ := hf (s.flows i)
  exact (harena.setFlow i (by rw [hflow]) (by rw [hflow]) fun h => by rwa [hflow] at h).recordTerminal
    i o

end Routed

/-- Deliveries in flight are in use. -/
theorem Arena.inFlight_le (h : Arena image bound s) : s.inFlight ≤ bound := by
  have hle : s.inFlight ≤ s.busyFlows.card := by
    have hfilter : s.busyFlows =
        ((List.finRange maxFlows).filter fun k => (s.flows k).active).toFinset := by
      ext k
      simp
    rw [hfilter, List.toFinset_card_of_nodup ((List.nodup_finRange _).filter _),
      ← List.countP_eq_length_filter]
    refine List.countP_mono_left fun k _ hk => ?_
    rw [Bool.and_eq_true] at hk
    exact hk.1
  exact hle.trans ((Nat.le_add_right _ _).trans h.load)

/-- The execution that a start routes its input into. -/
def opened (image : Image) (executionId : UInt64) (stride : Nat) (input : Bytes) : GroupExecution :=
  (fresh image executionId stride).setFlow 0 fun flow => { flow with value := input }

/-- Tasks that come to rest without another fork or region. -/
def Task.Calm : Task → Prop
  | .enter _ edge _ => edge.targetKind = 1
  | .branch .. | .refill | .admitItems .. => True
  | .field .. | .settle | .flush _ | .finish => False

/-- The way of an input: its flow is alone until it enters a fork or a region that has items. -/
inductive Opening (image : Image) : List Task → GroupExecution → Prop
  | enter {i : FlowIndex} {edge : Edge} {o : Outcome} {s : GroupExecution}
      (mem : edge ∈ image.tables.edges)
      (source : edge.sourceKind = 0 ∨ edge.sourceKind = 5 ∨ edge.sourceKind = 9)
      (idle : s.activeEachRegion = 0) (alone : ∀ k, k ≠ i → (s.flows k).active = false) :
      Opening image [.enter i edge o] s
  | finish {s : GroupExecution}
      (alone : ∀ k, k ≠ s.eachCoordinatorFlow → (s.flows k).active = false) :
      Opening image [.finish] s
  | calm {tasks : List Task} {s : GroupExecution} (calm : ∀ task ∈ tasks, task.Calm) :
      Opening image tasks s

theorem Calm.next (hrouted : ∀ edge ∈ image.tables.edges, Compiler.Routed image edge)
    (h : task.Calm) (hadvance : advance image task s = some (onward, t)) :
    ∀ next ∈ onward, next.Calm := by
  have haction : ∀ {kind : UInt8} {node : UInt16} {tag : UInt8} {edge : Edge},
      kind = 6 ∨ kind = 8 → image.groupFindEdge kind node tag = some edge →
        edge.targetKind = 1 := fun hkind hfound => by
    obtain ⟨hmem, hsource, -⟩ := Image.mem_of_groupFindEdge hfound
    exact (hrouted _ hmem).branch (hsource ▸ hkind)
  cases task with
  | enter i edge o =>
      have hk : edge.targetKind = 1 := h
      simp only [advance, advanceArrival, hk, if_true] at hadvance
      obtain ⟨rfl, -⟩ := Prod.mk.inj (Option.some.inj hadvance)
      simp
  | branch forkNode tag i =>
      obtain ⟨next, hnext, heq⟩ := Option.map_eq_some_iff.mp hadvance
      obtain ⟨rfl, -⟩ := Prod.mk.inj heq
      simpa [Task.Calm] using haction (.inl rfl) hnext
  | refill =>
      obtain ⟨region, -, heq⟩ := Option.map_eq_some_iff.mp hadvance
      obtain ⟨rfl, -⟩ := Prod.mk.inj heq
      simp [Task.Calm]
  | admitItems regionId region =>
      simp only [advance] at hadvance
      split at hadvance
      · obtain ⟨rfl, -⟩ := Prod.mk.inj (Option.some.inj hadvance)
        simp
      split at hadvance
      · cases hadvance
      split at hadvance
      · cases hadvance
      · obtain ⟨next, hnext, heq⟩ := Option.map_eq_some_iff.mp hadvance
        obtain ⟨rfl, -⟩ := Prod.mk.inj heq
        simpa [Task.Calm] using haction (.inr rfl) hnext
  | field | settle | flush | finish => cases h

theorem Opening.next (hrouted : ∀ edge ∈ image.tables.edges, Compiler.Routed image edge)
    (h : Opening image (task :: rest) s) (hadvance : advance image task s = some (onward, t)) :
    Opening image (onward ++ rest) t := by
  generalize htasks : task :: rest = tasks at h
  cases h with
  | enter mem source idle alone =>
      rename_i i edge o
      obtain ⟨rfl, rfl⟩ := List.cons.inj htasks
      rw [List.append_nil]
      simp only [advance, advanceArrival] at hadvance
      have hkind := (hrouted edge mem).opening source
      split at hadvance
      · obtain ⟨rfl, -⟩ := Prod.mk.inj (Option.some.inj hadvance)
        exact .calm (by simp)
      split at hadvance
      · split at hadvance
        · cases hadvance
        split at hadvance
        · obtain ⟨rfl, -⟩ := Prod.mk.inj (Option.some.inj hadvance)
          exact .calm (List.forall_mem_map.mpr fun _ _ => trivial)
        · cases hadvance
      split at hadvance
      · obtain ⟨next, hnext, heq⟩ := Option.map_eq_some_iff.mp hadvance
        obtain ⟨rfl, rfl⟩ := Prod.mk.inj heq
        obtain ⟨hmem, hsource, -⟩ :=
          Image.mem_of_groupFindEdge (dispatchCase_some hnext).2.2.2.1
        refine .enter hmem (.inr (.inl hsource)) idle fun k hk => ?_
        rw [setFlow_flows_of_ne _ _ hk, aim_active]
        exact alone k hk
      split at hadvance
      · rename_i hk
        exact absurd hk hkind.1
      split at hadvance
      · obtain ⟨items, -, heq⟩ := Option.map_eq_some_iff.mp hadvance
        obtain ⟨rfl, rfl⟩ := Prod.mk.inj heq
        split
        · refine .finish fun k hk => ?_
          have hki : k ≠ i := hk
          rw [beginEach, setFlow_flows_of_ne _ _ hki]
          exact (aim_active s i k edge).trans (alone k hki)
        · exact .calm (by simp [Task.Calm])
      split at hadvance
      · rename_i hk
        exact absurd hk hkind.2
      split at hadvance
      · obtain ⟨rfl, -⟩ := Prod.mk.inj (Option.some.inj hadvance)
        exact .calm (by simp)
      · cases hadvance
  | finish alone =>
      obtain ⟨rfl, rfl⟩ := List.cons.inj htasks
      rw [List.append_nil]
      simp only [advance] at hadvance
      split at hadvance
      · cases hadvance
      split at hadvance
      · cases hadvance
      · obtain ⟨next, hnext, heq⟩ := Option.map_eq_some_iff.mp hadvance
        obtain ⟨rfl, rfl⟩ := Prod.mk.inj heq
        obtain ⟨hmem, hsource, -⟩ := Image.mem_of_groupFindEdge hnext
        refine .enter hmem (.inr (.inr hsource)) rfl fun k hk => ?_
        simp only [handOver]
        rw [setFlow_flows_of_ne _ _ hk]
        exact alone k hk
  | calm calm =>
      subst htasks
      exact .calm (List.forall_mem_append.mpr ⟨Calm.next hrouted (calm task List.mem_cons_self)
        hadvance, fun next hmem => calm next (List.mem_cons_of_mem _ hmem)⟩)

end GroupExecution

namespace GraphBuilder

open GroupExecution

variable {graph : GraphBuilder} {catalog : Catalog} {image : Image} {s : GroupExecution}

end GraphBuilder

end Hermas
