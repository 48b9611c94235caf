import Hermas.Compiler.Ports

/-!
# Loader and decoder on reachability

The loader goes over all edges again and again until nothing new is reached; the
decoder takes nodes from a queue. Both end with the nodes that lie behind the
input.
-/

namespace Hermas.Compiler

open Hermas.Graph
open Hermas.Image (Header Tables TypeRecord Node Edge Region NodeClass EachRegion RegionState
  classAt isActionNode nodeIds LeadsBy RootBy reachEdge reachPasses reachableNodes)

variable {bytes : Bytes} {tables : Tables} {descriptors : TypeDescriptors}
  {classes : List NodeClass} {s : RegionState} {d : DecodedRegions} {edges : List Edge}

/-! ## The loader's passes -/

section Passes

/-- A list that no edge leads out of. -/
def Closed (s : RegionState) (edges : List Edge) (reachable : List UInt16) : Prop :=
  ∀ u ∈ reachable, ∀ v, LeadsBy s edges u v → v ∈ reachable

theorem reachEdge_length (reachable : List UInt16) (edge : Edge) :
    reachable.length ≤ (reachEdge s reachable edge).length := by
  unfold reachEdge
  simp only
  split
  · simp
  · exact Nat.le_refl _

theorem reachEdge_eq {reachable : List UInt16} {edge : Edge}
    (h : (reachEdge s reachable edge).length = reachable.length) :
    reachEdge s reachable edge = reachable := by
  unfold reachEdge at h ⊢
  simp only at h ⊢
  split at h
  · simp at h
  · rename_i hno
    rw [if_neg hno]

theorem mem_reachEdge {reachable : List UInt16} {edge : Edge} {v : UInt16} (hv : v ∈ reachable) :
    v ∈ reachEdge s reachable edge := by
  unfold reachEdge
  simp only
  split
  · exact List.mem_cons_of_mem _ hv
  · exact hv

theorem pass_length (some_ : List Edge) : ∀ reachable : List UInt16,
    reachable.length ≤ (some_.foldl (reachEdge s) reachable).length := by
  induction some_ with
  | nil => intro reachable; exact Nat.le_refl _
  | cons edge some_ ih =>
      intro reachable
      exact (reachEdge_length reachable edge).trans (ih _)

/-- A pass that reaches nothing new finds no edge to follow. -/
theorem pass_stable (some_ : List Edge) : ∀ {reachable : List UInt16},
    (some_.foldl (reachEdge s) reachable).length = reachable.length →
      some_.foldl (reachEdge s) reachable = reachable ∧
      ∀ edge ∈ some_, reachEdge s reachable edge = reachable := by
  induction some_ with
  | nil => intro reachable _; exact ⟨rfl, by simp⟩
  | cons edge some_ ih =>
      intro reachable h
      rw [List.foldl_cons] at h ⊢
      have hfirst := reachEdge_length (s := s) reachable edge
      have hrest := pass_length (s := s) some_ (reachEdge s reachable edge)
      have hsame := reachEdge_eq (Nat.le_antisymm (by omega) hfirst)
      rw [hsame] at h ⊢
      obtain ⟨hall, hedges⟩ := ih h
      refine ⟨hall, fun e he => ?_⟩
      rcases List.mem_cons.mp he with rfl | he
      · exact hsame
      · exact hedges e he

theorem closed_of_stable {reachable : List UInt16}
    (h : ∀ edge ∈ edges, reachEdge s reachable edge = reachable) : Closed s edges reachable := by
  rintro u hu v ⟨edge, he, hk, hsource, htarget, hune, hvne⟩
  by_contra hv
  have hsame := h edge he
  unfold reachEdge at hsame
  simp only [hsource, htarget] at hsame
  rw [if_pos ⟨hk, hune, hvne, hu, hv⟩] at hsame
  exact absurd (congrArg List.length hsame) (by simp)

theorem mem_pass (some_ : List Edge) : ∀ {reachable : List UInt16} {v : UInt16},
    v ∈ reachable → v ∈ some_.foldl (reachEdge s) reachable := by
  induction some_ with
  | nil => intro reachable v hv; exact hv
  | cons edge some_ ih => intro reachable v hv; exact ih (mem_reachEdge hv)

theorem mem_reachPasses (passes : Nat) : ∀ {reachable : List UInt16} {v : UInt16},
    v ∈ reachable → v ∈ reachPasses s edges passes reachable := by
  induction passes with
  | zero => intro reachable v hv; exact hv
  | succ passes ih =>
      intro reachable v hv
      unfold reachPasses
      simp only
      split
      · exact mem_pass edges hv
      · exact ih (mem_pass edges hv)

/-- Every pass but the last reaches a new node. -/
theorem reachPasses_closed (s : RegionState) (edges : List Edge) (passes : Nat) : ∀ reachable : List UInt16,
    Closed s edges (reachPasses s edges passes reachable) ∨
      reachable.length + passes ≤ (reachPasses s edges passes reachable).length := by
  induction passes with
  | zero => intro reachable; exact .inr (Nat.le_refl _)
  | succ passes ih =>
      intro reachable
      unfold reachPasses
      simp only
      split
      · rename_i hsame
        obtain ⟨hall, hedges⟩ := pass_stable edges hsame
        rw [hall]
        exact .inl (closed_of_stable hedges)
      · rename_i hmore
        have hle := pass_length (s := s) edges reachable
        rcases ih (edges.foldl (reachEdge s) reachable) with hclosed | hlength
        · exact .inl hclosed
        · exact .inr (by omega)

theorem reachPasses_nil (passes : Nat) : reachPasses s edges passes [] = [] := by
  have hpass : ∀ some_ : List Edge, some_.foldl (reachEdge s) [] = [] := by
    intro some_
    induction some_ with
    | nil => rfl
    | cons edge some_ ih =>
        rw [List.foldl_cons]
        have hnone : reachEdge s [] edge = [] := by simp [reachEdge]
        rw [hnone, ih]
  cases passes with
  | zero => rfl
  | succ passes => simp [reachPasses, hpass]

theorem reachEdge_nodup {reachable : List UInt16} (h : reachable.Nodup) (edge : Edge) :
    (reachEdge s reachable edge).Nodup := by
  unfold reachEdge
  simp only
  split
  · rename_i hstep
    exact List.nodup_cons.mpr ⟨hstep.2.2.2.2, h⟩
  · exact h

theorem reachPasses_nodup (passes : Nat) : ∀ {reachable : List UInt16}, reachable.Nodup →
    (reachPasses s edges passes reachable).Nodup := by
  have hpass : ∀ (some_ : List Edge) {reachable : List UInt16}, reachable.Nodup →
      (some_.foldl (reachEdge s) reachable).Nodup := by
    intro some_
    induction some_ with
    | nil => intro reachable h; exact h
    | cons edge some_ ih => intro reachable h; exact ih (reachEdge_nodup h edge)
  induction passes with
  | zero => intro reachable h; exact h
  | succ passes ih =>
      intro reachable h
      unfold reachPasses
      simp only
      split
      · exact hpass edges h
      · exact ih (hpass edges h)

end Passes

/-- The passes reach what lies behind the input, for there are as many passes as nodes. -/
theorem mem_reachableNodes (hone : edges.countP (·.sourceKind == 0) = 1)
    (hnodes : ∀ v, Rooted (LeadsBy s edges) (RootBy s edges) v → v ∈ nodeIds classes)
    {v : UInt16} :
    v ∈ reachableNodes s edges classes.length ↔ Rooted (LeadsBy s edges) (RootBy s edges) v := by
  refine ⟨Image.reachableNodes_rooted, fun hv => ?_⟩
  unfold reachableNodes
  have hstart : ∀ r, RootBy s edges r → r ∈ ((edges.filter (·.sourceKind == 0)).map
      (Image.graphTarget s) |>.filter (· != 0)) := fun r hr => Image.mem_start.mpr hr
  have hroots : ∀ r ∈ ((edges.filter (·.sourceKind == 0)).map (Image.graphTarget s) |>.filter
      (· != 0)), Rooted (LeadsBy s edges) (RootBy s edges) r := fun r hr =>
    ⟨r, Image.mem_start.mp hr, .refl⟩
  have hnodup : ((edges.filter (·.sourceKind == 0)).map (Image.graphTarget s) |>.filter
      (· != 0)).Nodup := by
    refine List.Nodup.filter _ ?_
    rw [List.countP_eq_length_filter] at hone
    obtain ⟨root, hroot⟩ := List.length_eq_one_iff.mp hone
    rw [hroot]
    exact List.nodup_singleton _
  generalize ((edges.filter (·.sourceKind == 0)).map (Image.graphTarget s) |>.filter
    (· != 0)) = start at hstart hroots hnodup
  rcases reachPasses_closed s edges classes.length start with hclosed | hlength
  · exact hv.of_closed (P := (· ∈ reachPasses s edges classes.length start))
      (fun r hr => mem_reachPasses _ (hstart r hr)) fun u w hu huw => hclosed u hu w huw
  · exfalso
    obtain ⟨r, hr, -⟩ := hv
    have hpos : 0 < start.length := List.length_pos_of_mem (hstart r hr)
    have hsub : reachPasses s edges classes.length start ⊆ nodeIds classes := fun w hw =>
      hnodes w (Image.reachPasses_rooted _ hroots w hw)
    have hle := (List.subperm_of_subset (reachPasses_nodup classes.length hnodup) hsub).length_le
    have hids : (nodeIds classes).length = classes.length := by simp [nodeIds]
    omega

/-! ## The decoder's queue -/

section Queue

/-- The edge may still put its target into the queue. -/
def pending (d : DecodedRegions) (reached : List UInt16) (edge : Edge) : Bool :=
  edge.sourceKind != 0 && (graphSource d edge).any fun node => !reached.contains node

/-- Taking a node for the first time uses up the edges that leave it. -/
theorem adjacency_pending {reached : List UInt16} {node : UInt16} (hnode : ¬ node ∈ reached)
    (some_ : List Edge) :
    (adjacency d some_ node).length + some_.countP (pending d (node :: reached)) ≤
      some_.countP (pending d reached) := by
  induction some_ with
  | nil => simp [adjacency]
  | cons edge some_ ih =>
      rw [List.countP_cons, List.countP_cons]
      have hsplit : (adjacency d (edge :: some_) node).length =
          (adjacency d [edge] node).length + (adjacency d some_ node).length := by
        rw [← List.length_append, adjacency, adjacency, adjacency, ← List.filterMap_append]
        rfl
      rw [hsplit]
      have hmono : pending d (node :: reached) edge = true → pending d reached edge = true := by
        unfold pending
        cases graphSource d edge with
        | none => simp
        | some source => simp; tauto
      by_cases hedge : edge.sourceKind ≠ 0 ∧ graphSource d edge = some node
      · have hlen : (adjacency d [edge] node).length ≤ 1 := by
          refine (List.length_filterMap_le _ _).trans ?_
          simp
        have hbefore : pending d reached edge = true := by
          simp [pending, hedge, hnode]
        have hafter : pending d (node :: reached) edge = false := by
          simp [pending, hedge]
        rw [hbefore, hafter]
        simp
        omega
      · have hlen : (adjacency d [edge] node).length = 0 := by
          simp [adjacency, hedge]
        rw [hlen]
        by_cases hafter : pending d (node :: reached) edge = true
        · rw [hafter, hmono hafter]
          simp
          omega
        · rw [if_neg hafter]
          split <;> omega

/-- With enough rounds the queue runs empty: everything in it is reached, and everything that
leaves what is reached. -/
theorem drainQueue_closed : ∀ (rounds : Nat) (queue reached : List UInt16),
    queue.length + edges.countP (pending d reached) < rounds →
    (∀ u ∈ reached, ∀ v ∈ adjacency d edges u, v ∈ reached ∨ v ∈ queue) →
    (∀ v ∈ queue, v ∈ drainQueue d edges rounds queue reached) ∧
      (∀ v ∈ reached, v ∈ drainQueue d edges rounds queue reached) ∧
      ∀ u ∈ drainQueue d edges rounds queue reached, ∀ v ∈ adjacency d edges u,
        v ∈ drainQueue d edges rounds queue reached := by
  intro rounds
  induction rounds with
  | zero => intro queue reached h; omega
  | succ rounds ih =>
      intro queue reached hrounds hclosed
      cases queue with
      | nil =>
          simp only [drainQueue]
          refine ⟨by simp, fun v hv => hv, fun u hu v hv => ?_⟩
          exact (hclosed u hu v hv).resolve_right (by simp)
      | cons node queue =>
          rw [List.length_cons] at hrounds
          simp only [drainQueue]
          split
          · rename_i hmem
            obtain ⟨hqueue, hreached, hout⟩ := ih queue reached (by omega)
              fun u hu v hv => by
                rcases hclosed u hu v hv with h | h
                · exact .inl h
                · rcases List.mem_cons.mp h with rfl | h
                  · exact .inl hmem
                  · exact .inr h
            refine ⟨fun v hv => ?_, hreached, hout⟩
            rcases List.mem_cons.mp hv with rfl | hv
            · exact hreached _ hmem
            · exact hqueue v hv
          · rename_i hnew
            have hused := adjacency_pending (d := d) hnew edges
            obtain ⟨hqueue, hreached, hout⟩ := ih (queue ++ adjacency d edges node)
              (node :: reached) (by rw [List.length_append]; omega)
              fun u hu v hv => by
                rcases List.mem_cons.mp hu with rfl | hu
                · exact .inr (List.mem_append_right _ hv)
                · rcases hclosed u hu v hv with h | h
                  · exact .inl (List.mem_cons_of_mem _ h)
                  · rcases List.mem_cons.mp h with rfl | h
                    · exact .inl (by simp)
                    · exact .inr (List.mem_append_left _ h)
            refine ⟨fun v hv => ?_, fun v hv => hreached v (List.mem_cons_of_mem _ hv), hout⟩
            rcases List.mem_cons.mp hv with rfl | hv
            · exact hreached _ (by simp)
            · exact hqueue v (List.mem_append_left _ hv)

/-- What the queue reaches has a property that the roots have and the edges hand on. -/
theorem drainQueue_sound {P : UInt16 → Prop}
    (hstep : ∀ u, P u → ∀ v ∈ adjacency d edges u, P v) : ∀ (rounds : Nat)
    {queue reached : List UInt16}, (∀ v ∈ queue, P v) → (∀ v ∈ reached, P v) →
    ∀ v ∈ drainQueue d edges rounds queue reached, P v := by
  intro rounds
  induction rounds with
  | zero => intro queue reached _ hreached; exact hreached
  | succ rounds ih =>
      intro queue reached hqueue hreached
      cases queue with
      | nil => exact hreached
      | cons node queue =>
          simp only [drainQueue]
          have hnode := hqueue node (by simp)
          have hrest : ∀ v ∈ queue, P v := fun v hv => hqueue v (by simp [hv])
          split
          · exact ih hrest hreached
          · refine ih (fun v hv => ?_) fun v hv => ?_
            · rcases List.mem_append.mp hv with hv | hv
              · exact hrest v hv
              · exact hstep node hnode v hv
            · rcases List.mem_cons.mp hv with rfl | hv
              · exact hnode
              · exact hreached v hv

end Queue

/-! ## The same nodes -/

section Ends

variable {edge : Edge}

theorem EdgeOk.source_node (hok : EdgeOk bytes tables descriptors classes d edge)
    (h0 : edge.sourceKind ≠ 0) (h8 : edge.sourceKind ≠ 8) (h9 : edge.sourceKind ≠ 9) :
    ∃ c, classAt classes edge.sourceNode = some c := by
  have hsource := hok.source
  unfold sourceAllowed at hsource
  simp only [h0, h8, h9, if_false, actionNodes] at hsource
  split at hsource
  · simp only [Bool.and_eq_true, beq_iff_eq] at hsource
    exact ⟨_, hsource.1⟩
  split at hsource
  · simp only [Bool.and_eq_true, beq_iff_eq] at hsource
    exact ⟨_, hsource.1.1⟩
  split at hsource
  · unfold dispatchSource at hsource
    split at hsource
    · exact ⟨_, by assumption⟩
    · cases hsource
  split at hsource
  · split at hsource
    · exact ⟨_, by assumption⟩
    · cases hsource
  split at hsource
  · split at hsource
    · exact ⟨_, by assumption⟩
    · cases hsource
  · cases hsource

theorem EdgeOk.target_node (hok : EdgeOk bytes tables descriptors classes d edge)
    (h6 : edge.targetKind ≠ 6) (h7 : edge.targetKind ≠ 7) :
    ∃ c, classAt classes edge.targetNode = some c := by
  have htarget := hok.target
  unfold targetAllowed at htarget
  simp only [h6, h7, if_false, actionNodes] at htarget
  split at htarget
  · simp only [Bool.and_eq_true, beq_iff_eq] at htarget
    exact ⟨_, htarget.1⟩
  split at htarget
  · split at htarget
    · exact ⟨_, by assumption⟩
    · cases htarget
  split at htarget
  · split at htarget
    · exact ⟨_, by assumption⟩
    · cases htarget
  split at htarget
  · split at htarget
    · exact ⟨_, by assumption⟩
    · cases htarget
  split at htarget
  · split at htarget
    · exact ⟨_, by assumption⟩
    · cases htarget
  · cases htarget

theorem EdgeOk.source_region (hok : EdgeOk bytes tables descriptors classes d edge)
    (hk : edge.sourceKind = 9) : ∃ each, d.each edge.sourceNode = some each := by
  have hsource := hok.source
  unfold sourceAllowed at hsource
  simp [hk] at hsource
  obtain ⟨each, hat, -⟩ := (Option.any_eq_true _ _).mp hsource
  exact ⟨each, hat⟩

theorem EdgeOk.target_region (hok : EdgeOk bytes tables descriptors classes d edge)
    (hk : edge.targetKind = 6) : ∃ each, d.each edge.targetNode = some each := by
  have htarget := hok.target
  unfold targetAllowed at htarget
  simp [hk] at htarget
  obtain ⟨each, hat, -⟩ := (Option.any_eq_true _ _).mp htarget
  exact ⟨each, hat⟩

theorem RegionsRead.template_ne_zero (h : RegionsRead classes s d) {region : UInt16}
    {each : EachRegion} (hat : d.each region = some each) : each.template ≠ 0 := by
  unfold DecodedRegions.each at hat
  split at hat
  · cases hat
  · exact (action_le (h.templates each (List.mem_of_getElem? hat))).1

/-- No source in the decoder is node 0 in the loader. -/
theorem EdgeOk.graphSource_iff (h : RegionsRead classes s d)
    (hok : EdgeOk bytes tables descriptors classes d edge) (h0 : edge.sourceKind ≠ 0)
    (u : UInt16) : graphSource d edge = some u ↔ Image.graphSource s edge = u ∧ u ≠ 0 := by
  unfold graphSource Image.graphSource
  by_cases h8 : edge.sourceKind = 8
  · simp only [h8, if_true]
    constructor
    · intro hnone; cases hnone
    · rintro ⟨rfl, hne⟩; exact absurd rfl hne
  by_cases h9 : edge.sourceKind = 9
  · obtain ⟨each, hat⟩ := hok.source_region h9
    have hne := h.template_ne_zero hat
    rw [if_neg h8, if_pos h9, if_neg h8, if_pos h9, h.eachAt, hat, Option.map_some,
      Option.elim_some, Option.some.injEq]
    constructor
    · rintro rfl; exact ⟨rfl, hne⟩
    · rintro ⟨rfl, -⟩; rfl
  · obtain ⟨c, hc⟩ := hok.source_node h0 h8 h9
    have hne := (classAt_le hc).1
    simp only [h8, h9, h0, if_false, ne_eq, not_false_eq_true, if_true, Option.some.injEq]
    constructor
    · rintro rfl; exact ⟨rfl, hne⟩
    · rintro ⟨rfl, -⟩; rfl

theorem EdgeOk.graphTarget_iff (h : RegionsRead classes s d)
    (hok : EdgeOk bytes tables descriptors classes d edge) (v : UInt16) :
    graphTarget d edge = some v ↔ Image.graphTarget s edge = v ∧ v ≠ 0 := by
  unfold graphTarget Image.graphTarget
  by_cases h6 : edge.targetKind = 6
  · obtain ⟨each, hat⟩ := hok.target_region h6
    have hne := h.template_ne_zero hat
    simp only [h6, if_true, h.eachAt, hat, Option.map_some, Option.elim_some, Option.some.injEq]
    constructor
    · rintro rfl; exact ⟨rfl, hne⟩
    · rintro ⟨rfl, -⟩; rfl
  by_cases h7 : edge.targetKind = 7
  · rw [if_neg h6, if_pos h7, if_neg h6, if_pos h7]
    constructor
    · intro hnone; cases hnone
    · rintro ⟨rfl, hne⟩; exact absurd rfl hne
  · obtain ⟨c, hc⟩ := hok.target_node h6 h7
    have hne := (classAt_le hc).1
    simp only [h6, h7, if_false, Option.some.injEq]
    constructor
    · rintro rfl; exact ⟨rfl, hne⟩
    · rintro ⟨rfl, -⟩; rfl

end Ends

section Same

variable (h : RegionsRead classes s d)
  (hok : ∀ edge ∈ edges, EdgeOk bytes tables descriptors classes d edge)

include h hok

theorem mem_adjacency {u v : UInt16} : v ∈ adjacency d edges u ↔ LeadsBy s edges u v := by
  simp only [adjacency, List.mem_filterMap, LeadsBy]
  constructor
  · rintro ⟨edge, he, hedge⟩
    split at hedge
    · rename_i hsource
      obtain ⟨hs, hune⟩ := ((hok edge he).graphSource_iff h hsource.1 u).mp hsource.2
      obtain ⟨ht, hvne⟩ := ((hok edge he).graphTarget_iff h v).mp hedge
      exact ⟨edge, he, hsource.1, hs, ht, hune, hvne⟩
    · cases hedge
  · rintro ⟨edge, he, hk, hs, ht, hune, hvne⟩
    refine ⟨edge, he, ?_⟩
    rw [if_pos ⟨hk, ((hok edge he).graphSource_iff h hk u).mpr ⟨hs, hune⟩⟩]
    exact ((hok edge he).graphTarget_iff h v).mpr ⟨ht, hvne⟩

theorem mem_roots {v : UInt16} : v ∈ roots d edges ↔ RootBy s edges v := by
  simp only [roots, List.mem_filterMap, RootBy]
  constructor
  · rintro ⟨edge, he, hedge⟩
    split at hedge
    · rename_i hk
      obtain ⟨ht, hvne⟩ := ((hok edge he).graphTarget_iff h v).mp hedge
      exact ⟨edge, he, hk, ht, hvne⟩
    · cases hedge
  · rintro ⟨edge, he, hk, ht, hvne⟩
    refine ⟨edge, he, ?_⟩
    rw [if_pos hk]
    exact ((hok edge he).graphTarget_iff h v).mpr ⟨ht, hvne⟩

/-- The queue reaches what lies behind the input. -/
theorem mem_reachable {v : UInt16} :
    v ∈ reachable d edges ↔ Rooted (LeadsBy s edges) (RootBy s edges) v := by
  unfold reachable
  have hrounds : (roots d edges).length + edges.countP (pending d []) <
      (roots d edges).length + edges.length + 1 := by
    have := List.countP_le_length (p := pending d []) (l := edges)
    omega
  obtain ⟨hqueue, -, hclosed⟩ := drainQueue_closed _ _ _ hrounds (by simp)
  constructor
  · refine drainQueue_sound (P := Rooted (LeadsBy s edges) (RootBy s edges)) ?_ _ ?_ (by simp) v
    · rintro u ⟨r, hr, hpath⟩ w hw
      exact ⟨r, hr, hpath.tail ((mem_adjacency h hok).mp hw)⟩
    · intro u hu
      exact ⟨u, (mem_roots h hok).mp hu, .refl⟩
  · intro hv
    exact hv.of_closed (P := (· ∈ drainQueue d edges ((roots d edges).length + edges.length + 1)
      (roots d edges) [])) (fun r hr => hqueue r ((mem_roots h hok).mpr hr))
      fun u w hu huw => hclosed u hu w ((mem_adjacency h hok).mpr huw)

/-- What lies behind the input is a node. -/
theorem rooted_mem_ids {v : UInt16} (hv : Rooted (LeadsBy s edges) (RootBy s edges) v) :
    v ∈ nodeIds classes := by
  have htarget : ∀ edge ∈ edges, Image.graphTarget s edge ≠ 0 →
      Image.graphTarget s edge ∈ nodeIds classes := by
    intro edge he hne
    unfold Image.graphTarget at hne ⊢
    by_cases h6 : edge.targetKind = 6
    · obtain ⟨each, hat⟩ := (hok edge he).target_region h6
      simp only [h6, if_true, h.eachAt, hat, Option.elim_some]
      unfold DecodedRegions.each at hat
      split at hat
      · cases hat
      · exact Image.mem_nodeIds (beq_iff_eq.mp (h.templates each (List.mem_of_getElem? hat)))
    by_cases h7 : edge.targetKind = 7
    · simp [h7] at hne
    · obtain ⟨c, hc⟩ := (hok edge he).target_node h6 h7
      rw [if_neg h6, if_neg h7]
      exact Image.mem_nodeIds hc
  refine hv.of_closed (P := (· ∈ nodeIds classes)) ?_ ?_
  · rintro r ⟨edge, he, -, rfl, hne⟩
    exact htarget edge he hne
  · rintro u w - ⟨edge, he, -, -, rfl, -, hne⟩
    exact htarget edge he hne

/-- **Both find the same nodes reachable.** -/
theorem reach_iff (hone : edges.countP (·.sourceKind == 0) = 1) :
    (nodeIds classes).all (reachableNodes s edges classes.length).contains = true ↔
      ((reachable d edges).all (ids classes.length).contains = true ∧
        (ids classes.length).all (reachable d edges).contains = true) := by
  simp only [List.all_eq_true, List.contains_iff_mem,
    mem_reachableNodes hone (fun v hv => rooted_mem_ids h hok hv), mem_reachable h hok]
  constructor
  · intro hall
    exact ⟨fun v hv => rooted_mem_ids h hok hv, hall⟩
  · rintro ⟨-, hall⟩
    exact hall

end Same

end Hermas.Compiler
