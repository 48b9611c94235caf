import Hermas.Image.Encode
import Hermas.Image.Graph

/-!
# Cycles

The loader looks for unreachable nodes and takes that for a search for cycles as
well. It is one, except where a node can be entered twice: a join whose own field
feeds one of its inputs is reachable through the other input, and the template of
an each region likewise.
-/

namespace Hermas.Image

open Hermas.Graph

/-- The node graph is acyclic, everything in it is behind the input, and a walk along its edges
takes no more steps than there are nodes. -/
structure Ordered (image : Image) : Prop where
  acyclic : Acyclic image.Leads
  reachable : ∀ v, image.IsNode v → Rooted image.Leads image.IsRoot v
  walks : ∀ walk : List UInt16, (∀ v ∈ walk, image.IsNode v) → walk.IsChain image.Leads →
    walk.length ≤ image.tables.nodes.length

/--
**An accepted image is ordered exactly when no join and no template lies
downstream of itself.** Reachability holds in any case; it is what rules out every
other cycle.
-/
theorem ordered_iff (image : Image) :
    Ordered image ↔ ∀ v, image.Meets v → ¬ OnCycle image.Leads v := by
  constructor
  · intro h v _
    exact h.acyclic v
  · intro hmeet
    have hacyclic := leads_acyclic image hmeet
    obtain ⟨classes, regions, h⟩ := image.checked
    refine ⟨hacyclic, fun v hv => h.rooted hv, fun walk hnodes hwalk => ?_⟩
    exact stations_le hacyclic hnodes (hwalk.imp fun _ _ => Relation.TransGen.single)

/-! ## A join that waits for itself -/

/--
The second branch of the join is the action behind its own field: the fork gives the
first branch to the join and the second to the success terminal.
-/
def joinLoopLayout : Layout where
  errors := [1]
  contracts := [.of 1]
  types := [boolType]
  nodes := [⟨4, 2, 1, 0, 0⟩, ⟨5, 2, 0, 0, 0⟩, .action1 1,
    .terminal 1, .terminal 2, .terminal 3, .terminal 4]
  edges := [.wire 0 0 4 1, .wire 6 1 5 2 0, .wire 6 1 2 4 1, .wire 7 2 1 3 0,
    .wire 1 3 5 2 1, .wire 2 3 2 5, .bare 3 3 6, .bare 4 3 7]

set_option maxRecDepth 20000 in
theorem joinLoop_valid : (imageValidate joinLoopLayout.encode).toOption.isSome = true := by
  decide +kernel

def joinLoop : Image := joinLoopLayout.image joinLoop_valid

set_option maxRecDepth 20000 in
theorem joinLoop_edges : joinLoop.tables.edges = joinLoopLayout.edges := by
  decide +kernel

/-- The join and the action feed each other. -/
theorem not_ordered_joinLoop : ¬ ∀ image : Image, Ordered image := by
  intro h
  have hfield : joinLoop.Leads 2 3 :=
    ⟨.wire 7 2 1 3 0, by rw [joinLoop_edges]; decide, by decide, rfl, rfl, by decide, by decide⟩
  have hback : joinLoop.Leads 3 2 :=
    ⟨.wire 1 3 5 2 1, by rw [joinLoop_edges]; decide, by decide, rfl, rfl, by decide, by decide⟩
  exact (h joinLoop).acyclic 2 (.head hfield (.single hback))

end Hermas.Image
