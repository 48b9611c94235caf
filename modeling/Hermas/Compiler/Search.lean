import Hermas.Base.Queue
import Hermas.Compiler.Acyclic

/-!
# What the two searches of a graph decide

`verify_acyclic` and `verify_reachability` each work off a queue. The functions of the
model have a bound on the rounds; here the loops stand without one, and the first of
them stops where the code would take a link off a count of none. Both come to an end for
every graph, behind as many rounds as the model allows. The one has then visited every
node exactly if no walk along the edges comes back, and the other has reached the nodes
that a walk from the workflow input comes to.
-/

namespace Hermas.GraphBuilder

open Compiler (EdgeSource EdgeTarget)

/-! ## The graph of the nodes -/

section Nodes

variable (graph : GraphBuilder)

/-- An edge leads from one node to the other. A region stands for its template. -/
def Leads (source target : UInt16) : Prop :=
  ∃ edge ∈ graph.edges, graph.sourceNode edge.source = some source ∧
    graph.targetNode edge.target = some target

/-- An edge leads from the workflow input to the node. -/
def Enters (node : UInt16) : Prop :=
  ∃ edge ∈ graph.edges, edge.source = .workflowInput ∧ graph.targetNode edge.target = some node

/-- The id of a node of the graph. -/
def Holds (node : UInt16) : Prop := node ≠ 0 ∧ node.toNat ≤ graph.nodes.length

instance (node : UInt16) : Decidable (graph.Holds node) := inferInstanceAs (Decidable (_ ∧ _))

/-- The nodes that the edges name are nodes of the graph. -/
structure ValidEndpoints : Prop where
  source : ∀ edge ∈ graph.edges, ∀ node, graph.sourceNode edge.source = some node → graph.Holds node
  target : ∀ edge ∈ graph.edges, ∀ node, graph.targetNode edge.target = some node → graph.Holds node

end Nodes

/-! ## The loop of `verify_acyclic` -/

section Visits

/-- The inner loop: the targets that became ready, and the counts. Nothing is taken off a count
of none. -/
def releaseEach : List Nat → List Nat → List Nat → Option (List Nat × List Nat)
  | [], incoming, freed => some (freed, incoming)
  | target :: targets, incoming, freed =>
      match incoming.getD target 0 with
      | 0 => none
      | count + 1 =>
          releaseEach targets (incoming.set target count) (if count = 0 then freed ++ [target] else freed)

/-- A round: the state is the counts and the number of nodes visited. -/
def visit (links : List (Nat × Nat)) (index : Nat) (state : List Nat × Nat) :
    Option (List Nat × (List Nat × Nat)) :=
  (releaseEach (targets links index) state.1 []).map fun released =>
    (released.1, (released.2, state.2 + 1))

variable {links : List (Nat × Nat)} {count : Nat} {order rest incoming ready freed : List Nat}

theorem releaseTargets_eq : ∀ {targets incoming freed : List Nat} {released : List Nat × List Nat},
    releaseEach targets incoming freed = some released →
      releaseTargets targets incoming (ready ++ freed) = (released.2, ready ++ released.1)
  | [], _, _, _, h => by
      obtain rfl := Option.some.inj h
      rfl
  | target :: targets, incoming, freed, released, h => by
      rw [releaseEach] at h
      split at h
      · cases h
      · next n hn =>
          have ih := releaseTargets_eq h
          rw [releaseTargets, hn, Nat.succ_sub_one, ← ih]
          split_ifs <;> simp

/-- **The loop visits as many nodes as its bounded form.** -/
theorem visitReady_eq {n rounds : Nat} {queue : List Nat} {s t : List Nat × Nat}
    (h : Drains (visit links) n queue s t) (hn : n ≤ rounds) :
    s.2 + visitReady links rounds s.1 queue = t.2 := by
  induction h generalizing rounds with
  | done s => cases rounds <;> rfl
  | @round task onward rest n s t u head tail ih =>
      obtain ⟨rounds, rfl⟩ : ∃ more, rounds = more + 1 := ⟨rounds - 1, by omega⟩
      obtain ⟨released, hreleased, hhead⟩ := Option.map_eq_some_iff.mp head
      obtain ⟨rfl, rfl⟩ := Prod.mk.inj hhead
      have hnext : releaseTargets (targets links task) s.1 (rest ++ []) = _ := releaseTargets_eq hreleased
      rw [List.append_nil] at hnext
      rw [← ih (Nat.le_of_succ_le_succ hn), visitReady]
      simp only [targets] at hnext
      simp only [hnext]
      omega

/-- Between two rounds nothing without a pending link has been left out. -/
structure Counted (links : List (Nat × Nat)) (count : Nat) (order rest incoming ready : List Nat) : Prop
    extends Visiting links count order rest incoming ready where
  complete : ∀ index < count, incoming.getD index 0 = 0 → index ∈ order ++ ready

theorem Counted.release {target : Nat} (h : Counted links count order (target :: rest) incoming ready)
    (htarget : target < count) :
    Counted links count order rest (incoming.set target (incoming.getD target 0 - 1))
      (if incoming.getD target 0 - 1 = 0 then ready ++ [target] else ready) := by
  refine ⟨h.toVisiting.release htarget, fun index hindex hzero => ?_⟩
  by_cases heq : index = target
  · subst heq
    rw [List.getD_eq_getElem?_getD, List.getElem?_set_self (h.length ▸ htarget)] at hzero
    rw [if_pos (show incoming.getD index 0 - 1 = 0 from hzero)]
    simp
  · rw [List.getD_eq_getElem?_getD, List.getElem?_set_ne (Ne.symm heq),
      ← List.getD_eq_getElem?_getD] at hzero
    have hmem := h.complete index hindex hzero
    split_ifs
    · rw [← List.append_assoc]
      exact List.mem_append_left _ hmem
    · exact hmem

/-- The inner loop never takes a link off a count of none. -/
theorem Counted.releaseEach : ∀ {rest incoming freed : List Nat},
    Counted links count order rest incoming (ready ++ freed) → (∀ target ∈ rest, target < count) →
      ∃ released, GraphBuilder.releaseEach rest incoming freed = some released ∧
        Counted links count order [] released.2 (ready ++ released.1)
  | [], incoming, freed, h, _ => ⟨(freed, incoming), rfl, h⟩
  | target :: rest, incoming, freed, h, hbound => by
      have htarget := hbound target List.mem_cons_self
      have hcount := h.counts target htarget
      rw [List.count_cons_self] at hcount
      obtain ⟨n, hn⟩ : ∃ n, incoming.getD target 0 = n + 1 := ⟨_, hcount⟩
      have hnext := h.release htarget
      rw [hn, Nat.add_sub_cancel] at hnext
      have hsame : (if n = 0 then (ready ++ freed) ++ [target] else ready ++ freed) =
          ready ++ (if n = 0 then freed ++ [target] else freed) := by
        split_ifs <;> simp
      rw [hsame] at hnext
      obtain ⟨released, heq, hcounted⟩ :=
        hnext.releaseEach fun index hmem => hbound index (List.mem_cons_of_mem _ hmem)
      refine ⟨released, ?_, hcounted⟩
      rw [GraphBuilder.releaseEach, hn]
      exact heq

theorem Counted.visit {index : Nat} (h : Counted links count order [] incoming (index :: ready)) :
    Counted links count (order ++ [index]) (targets links index) incoming ready :=
  ⟨h.toVisiting.visit, fun other hother hzero => by
    have hmem := h.complete other hother hzero
    simpa using hmem⟩

/-- The invariant of the loop: the nodes visited, in order. -/
def Visits (links : List (Nat × Nat)) (count : Nat) (ready : List Nat) (state : List Nat × Nat) : Prop :=
  ∃ order, order.length = state.2 ∧ Counted links count order [] state.1 ready

theorem Visits.round (hlinks : ∀ link ∈ links, link.2 < count) (index : Nat) (ready : List Nat)
    (s : List Nat × Nat) (h : Visits links count (index :: ready) s) :
    ∃ onward t, GraphBuilder.visit links index s = some (onward, t) ∧
      Visits links count (ready ++ onward) t ∧ count - t.2 < count - s.2 := by
  obtain ⟨order, hlength, hcounted⟩ := h
  have htargets : ∀ target ∈ targets links index, target < count := by
    intro target hmem
    obtain ⟨link, hlink, rfl⟩ := List.mem_map.mp hmem
    exact hlinks link (List.mem_of_mem_filter hlink)
  have hstart : Counted links count (order ++ [index]) (targets links index) s.1 (ready ++ []) := by
    rw [List.append_nil]
    exact hcounted.visit
  obtain ⟨released, hreleased, hnext⟩ := hstart.releaseEach htargets
  refine ⟨released.1, (released.2, s.2 + 1), ?_, ⟨order ++ [index], ?_, hnext⟩, ?_⟩
  · rw [GraphBuilder.visit, hreleased]
    rfl
  · rw [List.length_append, hlength]
    rfl
  · have hle := length_le_of_nodup hcounted.nodup hcounted.bound
    rw [List.length_append, List.length_cons, hlength] at hle
    dsimp only
    omega

/-- **Without a walk that comes back every node is visited.** -/
theorem Visits.all (hlinks : ∀ link ∈ links, link.1 < count) {state : List Nat × Nat}
    (h : Visits links count [] state)
    (hacyclic : ∀ index, ¬ Relation.TransGen (fun a b => (a, b) ∈ links) index index) :
    state.2 = count := by
  obtain ⟨order, hlength, hcounted⟩ := h
  obtain ⟨rank, hrank⟩ := @exists_rank _ (fun b a => (a, b) ∈ links) (List.range count)
    (fun b a hlink => List.mem_range.mpr (hlinks _ hlink))
    (fun index hwalk => hacyclic index (Relation.transGen_swap.mp hwalk))
  -- What leads to a node has a lower rank, and a node without a pending link is not left out.
  have hall : ∀ bound index, rank index < bound → index < count → index ∈ order := by
    intro bound
    induction bound with
    | zero => intro index hlt; exact absurd hlt (Nat.not_lt_zero _)
    | succ bound ih =>
        intro index hlt hindex
        by_contra hnot
        have hpending : 0 < pending links order index := by
          have hcount := hcounted.counts index hindex
          rw [List.count_nil, Nat.add_zero] at hcount
          refine Nat.pos_of_ne_zero fun hzero => hnot ?_
          have hmem := hcounted.complete index hindex (hcount.trans hzero)
          rwa [List.append_nil] at hmem
        obtain ⟨link, hlink, hopen⟩ := List.countP_pos_iff.mp hpending
        rw [Bool.and_eq_true, beq_iff_eq, Bool.not_eq_true', List.contains_eq_mem,
          decide_eq_false_iff_not] at hopen
        obtain ⟨rfl, hsource⟩ := hopen
        have hlower := hrank link.2 link.1 hlink
        exact hsource (ih link.1 (by omega) (hlinks link hlink))
  rw [← hlength]
  have hnodup := hcounted.nodup
  have hbound := hcounted.bound
  rw [List.append_nil] at hnodup hbound
  exact length_of_nodup_mem hnodup hbound fun index => hall _ index (Nat.lt_succ_self _)

end Visits

/-! ## The loop of `verify_reachability` -/

section Reaches

variable (graph : GraphBuilder)

/-- A round: a node that is reached for the first time leads on to its successors. -/
def reach (node : UInt16) (reached : List UInt16) : Option (List UInt16 × List UInt16) :=
  some (if node ∈ reached then ([], reached) else (graph.successors node, node :: reached))

variable {graph}

theorem mem_successors {source target : UInt16} :
    target ∈ graph.successors source ↔ graph.Leads source target := by
  rw [successors, List.mem_filterMap]
  refine exists_congr fun edge => and_congr_right fun _ => ?_
  split_ifs with hsource
  · exact ⟨fun h => ⟨hsource, h⟩, fun h => h.2⟩
  · exact ⟨fun h => (nomatch h), fun h => absurd h.1 hsource⟩

theorem mem_inputNodes {node : UInt16} : node ∈ graph.inputNodes ↔ graph.Enters node := by
  rw [inputNodes, List.mem_filterMap]
  refine exists_congr fun edge => and_congr_right fun _ => ?_
  split_ifs with hsource
  · exact ⟨fun h => ⟨hsource, h⟩, fun h => h.2⟩
  · exact ⟨fun h => (nomatch h), fun h => absurd h.1 hsource⟩

theorem reachFrom_eq {n rounds : Nat} {queue reached last : List UInt16}
    (h : Drains graph.reach n queue reached last) (hn : n ≤ rounds) :
    graph.reachFrom rounds reached queue = last := by
  induction h generalizing rounds with
  | done s => cases rounds <;> rfl
  | @round task onward rest n s t u head tail ih =>
      obtain ⟨rounds, rfl⟩ : ∃ more, rounds = more + 1 := ⟨rounds - 1, by omega⟩
      have hnext := ih (Nat.le_of_succ_le_succ hn)
      have hhead := Option.some.inj head
      rw [reachFrom]
      split_ifs at hhead ⊢ with hmem
      · obtain ⟨rfl, rfl⟩ := Prod.mk.inj hhead
        rwa [List.append_nil] at hnext
      · obtain ⟨rfl, rfl⟩ := Prod.mk.inj hhead
        exact hnext

/-- The edges that do not come from a node that is reached. -/
def unfollowed (graph : GraphBuilder) (reached : List UInt16) : Nat :=
  graph.edges.countP fun edge => !reached.any fun node => graph.sourceNode edge.source = some node

theorem length_filterMap_countP {α β : Type} {f : α → Option β} {p q : α → Bool} : ∀ xs : List α,
    (∀ a ∈ xs, (f a).isSome → p a = true ∧ q a = false) → (∀ a ∈ xs, q a = true → p a = true) →
      (xs.filterMap f).length + xs.countP q ≤ xs.countP p
  | [], _, _ => Nat.le_refl _
  | a :: xs, hf, hq => by
      have ih := length_filterMap_countP xs (fun b hb => hf b (List.mem_cons_of_mem _ hb))
        fun b hb => hq b (List.mem_cons_of_mem _ hb)
      have hfirst := hf a List.mem_cons_self
      have hsecond := hq a List.mem_cons_self
      rw [List.filterMap_cons, List.countP_cons, List.countP_cons]
      cases hfa : f a with
      | none =>
          dsimp only
          split_ifs with hqa hpa
          · omega
          · exact absurd (hsecond hqa) hpa
          · omega
          · omega
      | some b =>
          obtain ⟨hpa, hqa⟩ := hfirst (by rw [hfa]; rfl)
          rw [hpa, hqa, List.length_cons]
          simp only [if_true, Bool.false_eq_true, if_false]
          omega

/-- The edges of a node are followed once. -/
theorem successors_unfollowed {node : UInt16} {reached : List UInt16} (hnew : node ∉ reached) :
    (graph.successors node).length + graph.unfollowed (node :: reached) ≤
      graph.unfollowed reached := by
  refine length_filterMap_countP graph.edges (fun edge _ hsome => ?_) fun edge _ hopen => ?_
  · split_ifs at hsome with hsource
    · have hother : ∀ other ∈ reached, ¬ node = other := fun other hmem heq => hnew (heq ▸ hmem)
      simpa [hsource] using hother
    · cases hsome
  · simp only [List.any_cons, Bool.not_or, Bool.and_eq_true] at hopen
    exact hopen.2

/-- The walks from the workflow input. -/
def Reached (graph : GraphBuilder) (node : UInt16) : Prop :=
  ∃ entry, graph.Enters entry ∧ Relation.ReflTransGen graph.Leads entry node

/-- The invariant of the loop. -/
structure Reaches (graph : GraphBuilder) (queue reached : List UInt16) : Prop where
  sound : ∀ node, node ∈ queue ∨ node ∈ reached → graph.Reached node
  entries : ∀ node, graph.Enters node → node ∈ queue ∨ node ∈ reached
  closed : ∀ source ∈ reached, ∀ target, graph.Leads source target → target ∈ queue ∨ target ∈ reached

theorem Reaches.round (node : UInt16) (queue reached : List UInt16)
    (h : Reaches graph (node :: queue) reached) : ∃ onward after,
      graph.reach node reached = some (onward, after) ∧ Reaches graph (queue ++ onward) after ∧
        (queue ++ onward).length + graph.unfollowed after <
          (node :: queue).length + graph.unfollowed reached := by
  by_cases hmem : node ∈ reached
  · refine ⟨[], reached, congrArg some (if_pos hmem), ?_, ?_⟩
    · rw [List.append_nil]
      -- The node is in the set, so nothing is lost when it leaves the queue.
      have hkeep : ∀ other, other ∈ node :: queue ∨ other ∈ reached → other ∈ queue ∨ other ∈ reached := by
        rintro other (hother | hother)
        · rcases List.mem_cons.mp hother with rfl | hother
          · exact .inr hmem
          · exact .inl hother
        · exact .inr hother
      exact ⟨fun other hother => h.sound other (hother.imp_left (List.mem_cons_of_mem _)),
        fun other hother => hkeep other (h.entries other hother),
        fun source hsource target hleads => hkeep target (h.closed source hsource target hleads)⟩
    · rw [List.append_nil, List.length_cons]
      omega
  · refine ⟨graph.successors node, node :: reached, congrArg some (if_neg hmem), ⟨?_, ?_, ?_⟩, ?_⟩
    · intro other hother
      rw [List.mem_append, List.mem_cons] at hother
      rcases hother with (hother | hother) | rfl | hother
      · exact h.sound other (.inl (List.mem_cons_of_mem _ hother))
      · obtain ⟨entry, hentry, hwalk⟩ := h.sound node (.inl List.mem_cons_self)
        exact ⟨entry, hentry, hwalk.tail (mem_successors.mp hother)⟩
      · exact h.sound other (.inl List.mem_cons_self)
      · exact h.sound other (.inr hother)
    · intro other hother
      rw [List.mem_append, List.mem_cons]
      rcases h.entries other hother with hother | hother
      · rcases List.mem_cons.mp hother with rfl | hother
        · exact .inr (.inl rfl)
        · exact .inl (.inl hother)
      · exact .inr (.inr hother)
    · intro source hsource target hleads
      rw [List.mem_append, List.mem_cons]
      rcases List.mem_cons.mp hsource with rfl | hsource
      · exact .inl (.inr (mem_successors.mpr hleads))
      · rcases h.closed source hsource target hleads with hother | hother
        · rcases List.mem_cons.mp hother with rfl | hother
          · exact .inr (.inl rfl)
          · exact .inl (.inl hother)
        · exact .inr (.inr hother)
    · have hfollowed : (graph.successors node).length + _ ≤ _ := successors_unfollowed hmem
      rw [List.length_append, List.length_cons]
      omega

/-- **At the end of the loop the nodes behind the workflow input are reached.** -/
theorem Reaches.iff {reached : List UInt16} (h : Reaches graph [] reached) {node : UInt16} :
    node ∈ reached ↔ graph.Reached node := by
  refine ⟨fun hmem => h.sound node (.inr hmem), ?_⟩
  rintro ⟨entry, hentry, hwalk⟩
  induction hwalk with
  | refl => exact (h.entries entry hentry).resolve_left List.not_mem_nil
  | tail _ hleads ih => exact (h.closed _ ih _ hleads).resolve_left List.not_mem_nil

theorem reaches_start : Reaches graph graph.inputNodes [] where
  sound node h := by
    rcases h with h | h
    · exact ⟨node, mem_inputNodes.mp h, .refl⟩
    · cases h
  entries node h := .inl (mem_inputNodes.mpr h)
  closed source h := nomatch h

end Reaches

/-! ## Both loops -/

variable {graph : GraphBuilder}

/-- A link is an edge between nodes of the graph. -/
theorem mem_links {a b : Nat} : (a, b) ∈ graph.links ↔ ∃ source target, graph.Leads source target ∧
    graph.Holds source ∧ graph.Holds target ∧ a = source.toNat - 1 ∧ b = target.toNat - 1 := by
  rw [links, List.mem_filterMap]
  constructor
  · rintro ⟨edge, hedge, hlink⟩
    obtain ⟨source, hsource, hlink⟩ := Option.bind_eq_some_iff.mp hlink
    obtain ⟨target, htarget, hlink⟩ := Option.bind_eq_some_iff.mp hlink
    split_ifs at hlink with hholds
    obtain ⟨rfl, rfl⟩ := Prod.mk.inj (Option.some.inj hlink)
    exact ⟨source, target, ⟨edge, hedge, hsource, htarget⟩, ⟨hholds.1, hholds.2.1⟩,
      ⟨hholds.2.2.1, hholds.2.2.2⟩, rfl, rfl⟩
  · rintro ⟨source, target, ⟨edge, hedge, hsource, htarget⟩, hs, ht, rfl, rfl⟩
    refine ⟨edge, hedge, ?_⟩
    simp only [hsource, htarget, Option.bind_eq_bind, Option.bind_some]
    exact if_pos ⟨hs.1, hs.2, ht.1, ht.2⟩

theorem nodeId_pred {node : UInt16} (h : node ≠ 0) : nodeId (node.toNat - 1) = node := by
  have hpos : node.toNat ≠ 0 := fun hzero => h (UInt16.toNat_inj.mp hzero)
  rw [nodeId, Nat.sub_add_cancel (Nat.pos_of_ne_zero hpos), UInt16.ofNat_toNat]

theorem leads_of_links {a b : Nat} (h : (a, b) ∈ graph.links) : graph.Leads (nodeId a) (nodeId b) := by
  obtain ⟨source, target, hleads, hs, ht, rfl, rfl⟩ := mem_links.mp h
  rwa [nodeId_pred hs.1, nodeId_pred ht.1]

theorem ValidEndpoints.links (h : graph.ValidEndpoints) {source target : UInt16}
    (hleads : graph.Leads source target) : (source.toNat - 1, target.toNat - 1) ∈ graph.links := by
  obtain ⟨edge, hedge, hsource, htarget⟩ := hleads
  exact mem_links.mpr ⟨source, target, ⟨edge, hedge, hsource, htarget⟩, h.source edge hedge source hsource,
    h.target edge hedge target htarget, rfl, rfl⟩

/-- `verify_acyclic` comes to an end, and passes if it has visited as many nodes as there are. -/
theorem verifyAcyclic_ends (graph : GraphBuilder) : ∃ rounds incoming visited,
    Drains (visit graph.links) rounds graph.startReady (graph.startCounts, 0) (incoming, visited) ∧
      (graph.verifyAcyclic = .ok () ↔ visited = graph.nodes.length) ∧
      Visits graph.links graph.nodes.length [] (incoming, visited) := by
  have hstart : Visits graph.links graph.nodes.length graph.startReady (graph.startCounts, 0) :=
    ⟨[], rfl, visiting_start, fun index hindex hzero =>
      List.mem_filter.mpr ⟨List.mem_range.mpr hindex, beq_iff_eq.mpr hzero⟩⟩
  obtain ⟨rounds, ⟨incoming, visited⟩, hrounds, hdrains, hvisits⟩ :=
    drains_of_measure (fun _ s => graph.nodes.length - s.2)
      (Visits.round fun link hlink => (links_lt hlink).2) graph.nodes.length _ _ hstart (Nat.sub_le _ _)
  refine ⟨rounds, incoming, visited, hdrains, ?_, hvisits⟩
  have hvisited := visitReady_eq hdrains hrounds
  dsimp only at hvisited
  rw [Nat.zero_add] at hvisited
  rw [verifyAcyclic, require_ok, ← hvisited]
  rfl

/-- `verify_reachability` comes to an end, and passes if it has reached every node. -/
theorem verifyReachability_ends (graph : GraphBuilder) : ∃ rounds reached,
    Drains graph.reach rounds graph.inputNodes [] reached ∧
      (graph.verifyReachability = .ok () ↔ ∀ index < graph.nodes.length, nodeId index ∈ reached) ∧
      Reaches graph [] reached := by
  have hedges : graph.unfollowed [] ≤ graph.edges.length := List.countP_le_length
  obtain ⟨rounds, reached, hrounds, hdrains, hreaches⟩ :=
    drains_of_measure (fun queue reached => queue.length + graph.unfollowed reached) Reaches.round
      (graph.inputNodes.length + graph.edges.length) _ _ reaches_start (by omega)
  refine ⟨rounds, reached, hdrains, ?_, hreaches⟩
  rw [verifyReachability, reachFrom_eq hdrains hrounds]
  constructor
  · intro h index hindex
    have hnodes : graph.nodes = graph.nodes.take index ++ graph.nodes[index] :: graph.nodes.drop (index + 1) := by
      rw [List.getElem_cons_drop, List.take_append_drop]
    have hcheck := checkEach_ok h _ _ _ hnodes
    rwa [List.nil_append, require_ok, List.length_take, Nat.min_eq_left hindex.le] at hcheck
  · intro h
    refine checkEach_of fun before node after hnodes => ?_
    rw [List.nil_append, require_ok]
    refine h before.length ?_
    rw [hnodes, List.length_append, List.length_cons]
    omega

/-- **The searches come to an end for every graph, and decide what they are for**: the one whether
some walk along the edges comes back, the other whether a walk from the workflow input leads to every
node. -/
theorem searches_decide (graph : GraphBuilder) :
    (∃ rounds incoming visited,
      Drains (visit graph.links) rounds graph.startReady (graph.startCounts, 0) (incoming, visited) ∧
        (graph.verifyAcyclic = .ok () ↔ visited = graph.nodes.length)) ∧
    (∃ rounds reached, Drains graph.reach rounds graph.inputNodes [] reached ∧
      (graph.verifyReachability = .ok () ↔ ∀ index < graph.nodes.length, nodeId index ∈ reached)) ∧
    (graph.ValidEndpoints →
      (graph.verifyAcyclic = .ok () ↔ ∀ node, ¬ Relation.TransGen graph.Leads node node) ∧
      (graph.verifyReachability = .ok () ↔ ∀ index < graph.nodes.length, graph.Reached (nodeId index))) := by
  obtain ⟨rounds, incoming, visited, hvisit, hacyclic, hvisits⟩ := graph.verifyAcyclic_ends
  obtain ⟨rounds', reached, hreach, hreachable, hreaches⟩ := graph.verifyReachability_ends
  refine ⟨⟨rounds, incoming, visited, hvisit, hacyclic⟩, ⟨rounds', reached, hreach, hreachable⟩,
    fun hvalid => ⟨⟨fun hok node hcycle => ?_, fun hnone => ?_⟩, ?_⟩⟩
  · obtain ⟨rank, hrank⟩ := verifyAcyclic_rank hok
    have hlt : ∀ {a b}, Relation.TransGen graph.Leads a b → rank (a.toNat - 1) < rank (b.toNat - 1) := by
      intro a b hwalk
      induction hwalk with
      | single hleads => exact (hrank _ _ (hvalid.links hleads)).1
      | tail _ hleads ih => exact ih.trans (hrank _ _ (hvalid.links hleads)).1
    exact Nat.lt_irrefl _ (hlt hcycle)
  · refine hacyclic.mpr (hvisits.all (fun link hlink => (links_lt hlink).1) fun index hcycle => ?_)
    exact hnone (nodeId index) (hcycle.lift nodeId fun a b hlink => leads_of_links hlink)
  · rw [hreachable]
    exact forall₂_congr fun index _ => hreaches.iff

/-- An action whose list is worked on by a template, and a terminal behind the region. -/
def regionGraph : GraphBuilder where
  name := "region"
  input := 1
  success := 1
  errors := []
  nodes := [.action 1, .action 2, .terminal .success, .terminal .knownFailure]
  edges := [⟨.workflowInput, .actionInput 1, none⟩, ⟨.actionSuccess 1, .eachInput 1, none⟩,
    ⟨.eachItem 1, .actionInput 2, none⟩, ⟨.actionSuccess 2, .eachCollect 1, none⟩,
    ⟨.eachOutput 1, .terminal 3, none⟩, ⟨.actionError 1, .terminal 4, none⟩,
    ⟨.actionError 2, .terminal 4, none⟩]
  eachRegions := [⟨2, 2, 1, 1, 1, 1, 8⟩]

theorem searches_decide_region : (∀ node, ¬ Relation.TransGen regionGraph.Leads node node) ∧
    ∀ index < 4, regionGraph.Reached (nodeId index) := by
  have hsource : ∀ edge ∈ regionGraph.edges, ∀ node ∈ regionGraph.sourceNode edge.source,
      regionGraph.Holds node := by
    simp [regionGraph, sourceNode, Holds, eachRegion, Catalog.indexed]
  have htarget : ∀ edge ∈ regionGraph.edges, ∀ node ∈ regionGraph.targetNode edge.target,
      regionGraph.Holds node := by
    simp [regionGraph, targetNode, Holds, eachRegion, Catalog.indexed]
  obtain ⟨hacyclic, hreachable⟩ := (searches_decide regionGraph).2.2 ⟨hsource, htarget⟩
  exact ⟨hacyclic.mp (by decide), hreachable.mp (by decide)⟩

end Hermas.GraphBuilder
