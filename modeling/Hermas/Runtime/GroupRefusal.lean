import Hermas.Runtime.GroupRun
import Hermas.Runtime.Refusal
import Hermas.Runtime.Routing

/-!
# What a refused result leaves behind in a group

A result that is refused at a check leaves the group as it was, and its delivery can then
be given up. On the way of its value, though, the group changes from task to task. When
every task finds what it needs the result is not refused any more, and only then a
caller may rely on a refusal.
-/

namespace Hermas

open Image (Edge)

namespace GroupExecution

variable {image : Image} {s s' : GroupExecution} {i : FlowIndex} {result : Frame}
variable {r : RuntimeResult} {bound : Nat}

/-- If the result passes the checks, every task on the way of its value finds what it needs. -/
def Served (image : Image) (s : GroupExecution) (i : FlowIndex) (result : Frame) : Prop :=
  ∀ edge, s.Takes image i result edge →
    Worklist.Meets (advance image) (Task.Fits image) [.enter i edge result.outcome]
      (s.setFlow i fun flow => { flow with value := result.payload })

/-- Behind the checks it is the tasks on the way of the value that decide. -/
theorem acceptResult_ok_iff {edge : Edge} (htakes : s.Takes image i result edge)
    (h : s.acceptResult image bound i result = some (r, s')) :
    r = .ok ↔ Worklist.Meets (advance image) (fun task t => (advance image task t).isSome)
      [.enter i edge result.outcome] (s.setFlow i fun flow => { flow with value := result.payload }) := by
  rw [acceptResult_takes htakes] at h
  exact (enterEdge_follows image bound i edge result.outcome _).ok_iff h

/-! ## Deliveries can be given up -/

/-- A delivery that can be lost is given up. -/
theorem markUnknown_ok {lost : Edge} (hsent : s.Sent i)
    (hlost : image.groupFindEdge 4 (s.flows i).currentNode 0 = some lost) :
    ∃ t, s.markUnknown image (bound + 1) i = some (.ok, t) := by
  obtain ⟨hmem, hsource, -⟩ := Image.mem_of_groupFindEdge hlost
  have hterminal := Image.notSent_unknown_terminal image hmem (.inr hsource)
  have hopen : ¬ (¬ (s.flows i).active = true ∨ (s.flows i).state ≠ .sent) := by
    rw [not_or, not_not, not_not]
    exact hsent
  simp only [markUnknown, deliveryOutcome, hopen, hlost, if_false, enterEdge, arrive, hterminal,
    show ¬ (2 : UInt8) = 1 by decide, show ¬ (2 : UInt8) = 4 by decide,
    show ¬ (2 : UInt8) = 3 by decide, show ¬ (2 : UInt8) = 5 by decide,
    show ¬ (2 : UInt8) = 6 by decide, show ¬ (2 : UInt8) = 7 by decide, if_true]
  exact ⟨_, rfl⟩

/-- Calls that only send deliveries out. -/
def delivers (_ : GroupExecution) : GroupOp → Bool
  | .prepare _ | .markSent _ => true
  | _ => false

end GroupExecution

end Hermas
