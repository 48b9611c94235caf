import Hermas.Base.Walk
import Hermas.Compiler.GraphBuilder

/-!
# What the search for cycles establishes

`verify_acyclic` takes a node off the list of ready ones, counts it and takes its links off
the counts of their targets. `Visiting` is what holds between two rounds: a count is the
number of links from nodes that have not been visited, and only nodes without such links are
ready. So the nodes are visited behind all that leads to them, and when each of them has
been visited the order of the visits is a rank.
-/

namespace Hermas.GraphBuilder

open Compiler (EdgeSource EdgeTarget)
open Image (EachRegion)

/-! ## The order of the visits -/

section Visits

variable {links : List (Nat × Nat)} {count : Nat} {order rest incoming ready : List Nat}

/-- The links into a node from nodes that have not been visited. -/
def pending (links : List (Nat × Nat)) (order : List Nat) (target : Nat) : Nat :=
  links.countP fun link => link.2 == target && !order.contains link.1

/-- Between two rounds, or inside one with targets that are still to be released. -/
structure Visiting (links : List (Nat × Nat)) (count : Nat) (order rest incoming ready : List Nat) :
    Prop where
  nodup : (order ++ ready).Nodup
  bound : ∀ index ∈ order ++ ready, index < count
  length : incoming.length = count
  counts : ∀ target < count,
    incoming.getD target 0 = pending links order target + rest.count target
  /-- Nothing leads any more to what has been visited or is ready. -/
  zero : ∀ index ∈ order ++ ready, incoming.getD index 0 = 0

/-- One target is released, and is ready if that was the last link into it. -/
theorem Visiting.release {target : Nat} (h : Visiting links count order (target :: rest) incoming ready)
    (htarget : target < count) :
    Visiting links count order rest (incoming.set target (incoming.getD target 0 - 1))
      (if incoming.getD target 0 - 1 = 0 then ready ++ [target] else ready) := by
  have hcount := h.counts target htarget
  rw [List.count_cons_self] at hcount
  have hnot : target ∉ order ++ ready := fun hmem => by
    have := h.zero target hmem
    omega
  have hset : ∀ index, (incoming.set target (incoming.getD target 0 - 1)).getD index 0 =
      if index = target then incoming.getD target 0 - 1 else incoming.getD index 0 := by
    intro index
    by_cases hindex : index = target
    · subst hindex
      rw [if_pos rfl, List.getD_eq_getElem?_getD, List.getElem?_set_self (h.length ▸ htarget)]
      rfl
    · rw [if_neg hindex, List.getD_eq_getElem?_getD, List.getElem?_set_ne (Ne.symm hindex),
        List.getD_eq_getElem?_getD]
  have hcounts : ∀ index < count, (incoming.set target (incoming.getD target 0 - 1)).getD index 0 =
      pending links order index + rest.count index := by
    intro index hindex
    rw [hset]
    split_ifs with heq
    · rw [heq]
      omega
    · have := h.counts index hindex
      rwa [List.count_cons_of_ne (Ne.symm heq)] at this
  have hzero : ∀ index ∈ order ++ ready,
      (incoming.set target (incoming.getD target 0 - 1)).getD index 0 = 0 := by
    intro index hmem
    rw [hset, if_neg fun heq : index = target => hnot (heq ▸ hmem)]
    exact h.zero index hmem
  have hlength : (incoming.set target (incoming.getD target 0 - 1)).length = count := by
    rw [List.length_set, h.length]
  split_ifs with hlast
  · refine ⟨?_, ?_, hlength, hcounts, ?_⟩
    · rw [← List.append_assoc]
      exact List.nodup_append.mpr ⟨h.nodup, List.nodup_singleton _, fun a ha b hb heq =>
        hnot (by rwa [← List.mem_singleton.mp hb, ← heq])⟩
    · intro index hmem
      rw [← List.append_assoc, List.mem_append] at hmem
      rcases hmem with hmem | hmem
      · exact h.bound index hmem
      · exact List.mem_singleton.mp hmem ▸ htarget
    · intro index hmem
      rw [← List.append_assoc, List.mem_append] at hmem
      rcases hmem with hmem | hmem
      · exact hzero index hmem
      · rw [List.mem_singleton.mp hmem, hset, if_pos rfl, hlast]
  · exact ⟨h.nodup, h.bound, hlength, hcounts, hzero⟩

theorem Visiting.releaseTargets : ∀ {rest incoming ready : List Nat},
    Visiting links count order rest incoming ready → (∀ target ∈ rest, target < count) →
      Visiting links count order [] (releaseTargets rest incoming ready).1
        (GraphBuilder.releaseTargets rest incoming ready).2
  | [], _, _, h, _ => h
  | target :: rest, incoming, ready, h, hbound => by
      have hnext := h.release (hbound target List.mem_cons_self)
      exact hnext.releaseTargets fun index hmem => hbound index (List.mem_cons_of_mem _ hmem)

/-- The targets of a node, once for every link. -/
def targets (links : List (Nat × Nat)) (index : Nat) : List Nat :=
  (links.filter (·.1 == index)).map (·.2)

theorem count_targets (links : List (Nat × Nat)) (index target : Nat) :
    (targets links index).count target =
      links.countP fun link => link.2 == target && link.1 == index := by
  rw [targets, List.count, List.countP_map, List.countP_filter]
  rfl

/-- What is pending in front of a visit is pending behind it, or is a link from the visited node. -/
theorem pending_visit {index target : Nat} (hnot : index ∉ order) : ∀ links : List (Nat × Nat),
    pending links order target =
      pending links (order ++ [index]) target + (targets links index).count target
  | [] => rfl
  | (a, b) :: links => by
      have ih := @pending_visit index target hnot links
      rw [count_targets] at ih ⊢
      unfold pending at ih ⊢
      rw [List.countP_cons, List.countP_cons, List.countP_cons, ih]
      by_cases hb : b = target
      · by_cases ha : a = index
        · simp [hb, ha, hnot]
          omega
        · simp [hb, ha]
          omega
      · simp [hb]

/-- The next ready node is visited. -/
theorem Visiting.visit {index : Nat} (h : Visiting links count order [] incoming (index :: ready)) :
    Visiting links count (order ++ [index]) (targets links index) incoming ready := by
  have hsame : (order ++ [index]) ++ ready = order ++ index :: ready := by simp
  have hnot : index ∉ order := fun hmem =>
    (List.disjoint_of_nodup_append h.nodup) hmem List.mem_cons_self
  refine ⟨hsame ▸ h.nodup, hsame ▸ h.bound, h.length, fun target htarget => ?_, hsame ▸ h.zero⟩
  rw [h.counts target htarget, List.count_nil, Nat.add_zero, pending_visit hnot]

/-- What leads to a ready node has been visited. -/
theorem Visiting.behind {index source : Nat} (h : Visiting links count order [] incoming ready)
    (hindex : index ∈ order ++ ready) (hlink : (source, index) ∈ links) : source ∈ order := by
  have hcount := h.counts index (h.bound index hindex)
  rw [h.zero index hindex, List.count_nil, Nat.add_zero] at hcount
  have hnone := List.countP_eq_zero.mp hcount.symm (source, index) hlink
  simpa using hnone

/-- **The nodes are visited behind all that leads to them.** -/
theorem Visiting.visits (hlinks : ∀ link ∈ links, link.2 < count) : ∀ (rounds : Nat)
    {order incoming ready : List Nat}, Visiting links count order [] incoming ready →
      Topological (fun a b => (a, b) ∈ links) order →
      ∃ more, visitReady links rounds incoming ready = more.length ∧ (order ++ more).Nodup ∧
        (∀ index ∈ order ++ more, index < count) ∧
        Topological (fun a b => (a, b) ∈ links) (order ++ more)
  | 0, order, _, _, h, hordered => by
      refine ⟨[], rfl, ?_, fun index hmem => h.bound index ?_, ?_⟩
      · rw [List.append_nil]
        exact (List.nodup_append.mp h.nodup).1
      · rw [List.append_nil] at hmem
        exact List.mem_append_left _ hmem
      · rwa [List.append_nil]
  | _ + 1, order, _, [], h, hordered => by
      refine ⟨[], rfl, ?_, fun index hmem => h.bound index hmem, ?_⟩
      · exact h.nodup
      · rwa [List.append_nil]
  | rounds + 1, order, incoming, index :: ready, h, hordered => by
      have htargets : ∀ target ∈ targets links index, target < count := by
        intro target hmem
        obtain ⟨link, hlink, rfl⟩ := List.mem_map.mp hmem
        exact hlinks link (List.mem_of_mem_filter hlink)
      have hnext := h.visit.releaseTargets htargets
      have hnextOrdered := hordered.append (b := index) fun source hlink =>
        h.behind (by simp) hlink
      obtain ⟨more, hvisits, hnodup, hbound, htopological⟩ := hnext.visits hlinks rounds hnextOrdered
      rw [List.append_assoc, List.singleton_append] at hnodup hbound htopological
      exact ⟨index :: more, congrArg (· + 1) hvisits, hnodup, hbound, htopological⟩

end Visits

variable {graph : GraphBuilder} {catalog : Catalog}

theorem links_lt {link : Nat × Nat} (h : link ∈ graph.links) :
    link.1 < graph.nodes.length ∧ link.2 < graph.nodes.length := by
  obtain ⟨edge, -, hedge⟩ := List.mem_filterMap.mp h
  obtain ⟨source, -, hedge⟩ := Option.bind_eq_some_iff.mp hedge
  obtain ⟨target, -, hedge⟩ := Option.bind_eq_some_iff.mp hedge
  split_ifs at hedge with hnodes
  obtain rfl := Option.some.inj hedge
  obtain ⟨hsource, hsourceLe, htarget, htargetLe⟩ := hnodes
  rw [ne_eq, ← UInt16.toNat_inj, UInt16.toNat_zero] at hsource htarget
  dsimp only
  omega

/-- The links into every node. -/
def startCounts (graph : GraphBuilder) : List Nat :=
  (List.range graph.nodes.length).map fun index => graph.links.countP (·.2 == index)

/-- The nodes without a link into them. -/
def startReady (graph : GraphBuilder) : List Nat :=
  (List.range graph.nodes.length).filter fun index => graph.startCounts.getD index 0 == 0

theorem visiting_start :
    Visiting graph.links graph.nodes.length [] [] graph.startCounts graph.startReady := by
  have hincoming : ∀ target < graph.nodes.length,
      graph.startCounts.getD target 0 = graph.links.countP (·.2 == target) := by
    intro target htarget
    rw [List.getD_eq_getElem?_getD, startCounts, List.getElem?_map, List.getElem?_range htarget]
    rfl
  refine ⟨?_, ?_, ?_, fun target htarget => ?_, ?_⟩
  · rw [List.nil_append]
    exact List.nodup_range.filter _
  · intro index hmem
    rw [List.nil_append] at hmem
    exact List.mem_range.mp (List.mem_filter.mp hmem).1
  · rw [startCounts, List.length_map, List.length_range]
  · rw [hincoming target htarget, List.count_nil, Nat.add_zero, pending]
    exact List.countP_congr fun link _ => by simp
  · intro index hmem
    rw [List.nil_append] at hmem
    exact beq_iff_eq.mp (List.mem_filter.mp hmem).2

/-- **A graph that passes the search for cycles has a rank that grows along its links.** -/
theorem verifyAcyclic_rank (h : graph.verifyAcyclic = .ok ()) : ∃ rank : Nat → Nat,
    ∀ source target, (source, target) ∈ graph.links →
      rank source < rank target ∧ rank target < graph.nodes.length := by
  unfold verifyAcyclic at h
  rw [require_ok] at h
  obtain ⟨order, hvisits, hnodup, hbound, htopological⟩ :=
    visiting_start.visits (fun link hlink => (links_lt hlink).2) graph.nodes.length topological_nil
  rw [List.nil_append] at hnodup hbound htopological
  have hlength : order.length = graph.nodes.length := hvisits.symm.trans h
  refine ⟨order.idxOf, fun source target hlink => ?_⟩
  have hmem := mem_of_nodup_length hnodup hbound hlength (links_lt hlink).2
  refine ⟨htopological.idxOf_lt hnodup hmem hlink, ?_⟩
  rw [← hlength]
  exact List.idxOf_lt_length_of_mem hmem

end Hermas.GraphBuilder
