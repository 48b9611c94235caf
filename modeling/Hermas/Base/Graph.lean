import Mathlib.Data.List.Chain
import Mathlib.Data.List.Perm.Subperm
import Mathlib.Logic.Relation

/-!
# Directed graphs with a root

A graph in which everything lies behind a root can close a cycle only where two
edges meet: walk backwards from a node that is entered once and the only way
leads further round the cycle, never to the root. Without a cycle, no walk comes back
to a node, so it has no more stations than there are nodes.
-/

namespace Hermas.Graph

variable {α : Type} (E : α → α → Prop) (Root : α → Prop)

/-- The node lies behind a root. -/
def Rooted (v : α) : Prop := ∃ r, Root r ∧ Relation.ReflTransGen E r v

/-- The node lies downstream of itself. -/
def OnCycle (v : α) : Prop := Relation.TransGen E v v

def Acyclic : Prop := ∀ v, ¬ OnCycle E v

/-- Only one node leads here, and none if this is a root. -/
structure EnteredOnce (v : α) : Prop where
  root : Root v → ∀ u, ¬ E u v
  unique : ∀ u u', E u v → E u' v → u = u'

variable {E Root}

/-- Whatever holds of the roots and is handed on along the edges holds behind the roots. -/
theorem Rooted.of_closed {P : α → Prop} {v : α} (h : Rooted E Root v) (hroot : ∀ r, Root r → P r)
    (hstep : ∀ u w, P u → E u w → P w) : P v := by
  obtain ⟨r, hr, hpath⟩ := h
  induction hpath with
  | refl => exact hroot r hr
  | tail _ huw ih => exact hstep _ _ ih huw

/-- A cycle enters each of its nodes from another of its nodes. -/
theorem OnCycle.pred {v : α} (h : OnCycle E v) : ∃ u, E u v ∧ OnCycle E u := by
  obtain ⟨u, hvu, huv⟩ := Relation.TransGen.tail'_iff.mp h
  exact ⟨u, huv, Relation.TransGen.head' huv hvu⟩

/-- **A cycle behind a root has a node where edges meet.** -/
theorem exists_merge_onCycle {v : α} (hv : OnCycle E v) (hrooted : Rooted E Root v) :
    ∃ w, OnCycle E w ∧ ¬ EnteredOnce E Root w := by
  by_contra hnone
  have honce : ∀ w, OnCycle E w → EnteredOnce E Root w := by
    intro w hw
    by_contra h
    exact hnone ⟨w, hw, h⟩
  obtain ⟨r, hr, hpath⟩ := hrooted
  -- walking back from `v`, every node on the way to the root is on a cycle
  have hback : OnCycle E r := by
    induction hpath with
    | refl => exact hv
    | tail _ huw ih =>
        obtain ⟨u', hu'w, hu'⟩ := hv.pred
        have hsame := (honce _ hv).unique _ _ huw hu'w
        exact ih (hsame ▸ hu')
  obtain ⟨u, hur, -⟩ := hback.pred
  exact (honce r hback).root hr u hur

/-- A graph behind roots is acyclic when no node where edges meet is on a cycle. -/
theorem acyclic_of_merges (Root : α → Prop) (hrooted : ∀ v, OnCycle E v → Rooted E Root v)
    (hmerge : ∀ v, ¬ EnteredOnce E Root v → ¬ OnCycle E v) : Acyclic E := by
  intro v hv
  obtain ⟨w, hw, hmeet⟩ := exists_merge_onCycle hv (hrooted v hv)
  exact hmerge w hmeet hw

/-- Stations along an acyclic graph, each downstream of the one before, are different nodes. -/
theorem Acyclic.nodup (h : Acyclic E) {stations : List α}
    (hs : stations.IsChain (Relation.TransGen E)) : stations.Nodup := by
  have hpair : stations.Pairwise (Relation.TransGen E) := List.isChain_iff_pairwise.mp hs
  refine hpair.imp ?_
  rintro u v huv rfl
  exact h u huv

/-- There are no more stations than nodes. -/
theorem Acyclic.length_le (h : Acyclic E) {nodes stations : List α}
    (hs : stations.IsChain (Relation.TransGen E)) (hsub : ∀ v ∈ stations, v ∈ nodes) :
    stations.length ≤ nodes.length :=
  ((h.nodup hs).subperm hsub).length_le

end Hermas.Graph
