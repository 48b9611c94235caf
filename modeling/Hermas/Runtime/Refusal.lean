import Hermas.Base.Reach
import Hermas.Runtime.Agreement

/-!
# What a refused result leaves behind

A result is checked before anything is written, so a result that fails a check leaves
the execution as it was. The dispatches on its way are not among the checks: the value
has been written, and the request counted, when it gets stuck at one of them. `Passes`
says what a value has to look like to get through.
-/

namespace Hermas

open Image (Edge Node)

/-! ## Dispatches -/

/-- The value finds its way through the dispatches behind an edge: at each of them it is the tag of
a case in front of a canonical payload. -/
inductive Passes (image : Image) : Edge → Bytes → Prop
  | here {edge : Edge} {value : Bytes} (target : edge.targetKind ≠ 3) : Passes image edge value
  | through {edge next : Edge} {value : Bytes} (target : edge.targetKind = 3)
      (long : 8 ≤ value.length) (reserved : value.readU32 4 = 0) (small : value.readU32 0 ≤ 255)
      (case : image.findCaseEdge edge.targetNode (value.readU32 0).toUInt8 = some next)
      (payload : image.validateValue next.sourceType (value.drop 8) = true)
      (onward : Passes image next (value.drop 8)) : Passes image edge value

section Landings

variable {image : Image}

/-- A value that passes comes to rest. -/
theorem Passes.landing {edge : Edge} {value : Bytes} (h : Passes image edge value) :
    ∃ e v, landing image value edge = .at e v := by
  induction h with
  | here target => exact ⟨_, _, GroupExecution.landing_here image _ target⟩
  | through target long reserved small case payload onward ih =>
      obtain ⟨e, v, hl⟩ := ih
      refine ⟨e, v, ?_⟩
      rw [GroupExecution.landing_dispatch target (Nat.not_lt.mpr long) ?_ case payload, hl]
      rw [not_or, not_not, UInt32.not_lt]
      exact ⟨reserved, small⟩

/-- A value that comes to rest has passed. -/
theorem passes_of_landing {edge e : Edge} {value v : Bytes}
    (hl : landing image value edge = .at e v) : Passes image edge value := by
  fun_induction landing image value edge with
  | case1 edge value target => exact .here target
  | case4 edge target t0 t1 t2 t3 r0 r1 r2 r3 rest tag hbad next hfind hok ih =>
      rw [not_or, not_not, UInt32.not_lt] at hbad
      exact .through (not_not.mp target) (by simp) hbad.1 hbad.2 hfind hok (ih hl)
  | _ => cases hl

theorem passes_iff {edge : Edge} {value : Bytes} :
    Passes image edge value ↔ ∃ e v, landing image value edge = .at e v :=
  ⟨Passes.landing, fun ⟨_, _, hl⟩ => passes_of_landing hl⟩

end Landings

namespace Execution

variable {image : Image} {execution : Execution}

/-! ## Runs -/

/-- The sequential interpreter on an image: a start that succeeded, and then any calls, also after
calls that failed. -/
def system (image : Image) : System Execution DeliveryOp where
  Init execution := ∃ executionId valueCapacity inputType input,
    start image executionId valueCapacity inputType input = .ok execution
  Step execution op execution' := ∃ answer, operate image execution op = some (answer, execution')

/-- Calls in a row make a run. -/
theorem reach_answersTo (ops : List DeliveryOp) :
    ∀ {execution execution' : Execution} {answers : List Answer},
      (system image).Reach execution →
      answersTo (operate image) ops execution = some (answers, execution') →
      (system image).Reach execution' := by
  induction ops with
  | nil =>
      intro execution execution' answers h hops
      obtain ⟨-, rfl⟩ := Prod.mk.inj (Option.some.inj hops)
      exact h
  | cons op ops ih =>
      intro execution execution' answers h hops
      simp only [answersTo, Option.bind_eq_bind, Option.bind_eq_some_iff] at hops
      obtain ⟨⟨answer, next⟩, hop, ⟨rest, last⟩, hrest, hlast⟩ := hops
      obtain ⟨-, rfl⟩ := Prod.mk.inj (Option.some.inj hlast)
      exact ih (.step h trivial ⟨answer, hop⟩) hrest

/-! ## A result and its checks -/

/-- The result passes the checks in front of the first write, and takes an edge. -/
structure Takes (image : Image) (execution : Execution) (result : Frame) (edge : Edge) : Prop where
  sent : execution.state = .sent
  answers : answers image result execution.executionId execution.requestId execution.currentNode =
    true
  found : image.findEdge (resultKind result.outcome) execution.currentNode = some edge
  type : result.sourceType = edge.sourceType
  size : result.payload.length ≤ Protocol.maxPayloadSize
  canonical : image.validateValue result.sourceType result.payload = true
  request : edge.targetKind = 1 ∨ edge.targetKind = 3 → execution.requestId ≠ uint64Max
  fits : result.payload.length ≤ execution.valueCapacity

/-- The execution in front of the edge of an accepted result. -/
def taken (execution : Execution) (result : Frame) (edge : Edge) : Execution :=
  { execution with
    value := result.payload
    requestId :=
      if edge.targetKind = 1 ∨ edge.targetKind = 3 then execution.requestId + 1
      else execution.requestId }

/-- A result fails a check and nothing is written, or it goes where its value lands. -/
theorem acceptResult_cases (result : Frame) :
    ((acceptResult image execution result).1 ≠ .ok ∧
      (acceptResult image execution result).2 = execution ∧
      ∀ edge, ¬ Takes image execution result edge) ∨
    ∃ edge, Takes image execution result edge ∧
      acceptResult image execution result =
        (execution.taken result edge).arrived result.outcome
          (landing image result.payload edge) := by
  unfold acceptResult
  split
  · rename_i hstate
    exact .inl ⟨RuntimeResult.noConfusion, rfl, fun edge h => hstate h.sent⟩
  rename_i hstate
  split
  · rename_i hanswers
    exact .inl ⟨RuntimeResult.noConfusion, rfl, fun edge h => hanswers h.answers⟩
  rename_i hanswers
  split
  · rename_i hfind
    exact .inl ⟨RuntimeResult.noConfusion, rfl, fun edge h => by have := h.found; rw [hfind] at this; cases this⟩
  rename_i edge hfind
  have hedge {e : Edge} (h : Takes image execution result e) : e = edge :=
    Option.some.inj (h.found.symm.trans hfind)
  split
  · rename_i htype
    exact .inl ⟨RuntimeResult.noConfusion, rfl, fun e h => htype (hedge h ▸ h.type)⟩
  rename_i htype
  split
  · rename_i hsize
    exact .inl ⟨RuntimeResult.noConfusion, rfl, fun e h => absurd h.size (Nat.not_le.mpr hsize)⟩
  rename_i hsize
  split
  · rename_i hcanonical
    exact .inl ⟨RuntimeResult.noConfusion, rfl, fun e h => hcanonical h.canonical⟩
  rename_i hcanonical
  split
  · rename_i hrequest
    exact .inl ⟨RuntimeResult.noConfusion, rfl, fun e h => h.request (hedge h ▸ hrequest.1) hrequest.2⟩
  rename_i hrequest
  by_cases hfits : execution.valueCapacity < result.payload.length
  · refine .inl ?_
    rw [copyValue, if_pos hfits]
    exact ⟨RuntimeResult.noConfusion, rfl, fun e h => absurd h.fits (Nat.not_le.mpr hfits)⟩
  · refine .inr ⟨edge, ⟨not_not.mp hstate, not_not.mp hanswers, hfind, not_not.mp htype,
      Nat.not_lt.mp hsize, not_not.mp hcanonical, fun hk hmax => hrequest ⟨hk, hmax⟩,
      Nat.not_lt.mp hfits⟩, ?_⟩
    simp only [copyValue, hfits, if_false]
    split
    · rename_i hk
      rw [enterEdge_landing, taken, if_pos hk]
    · rename_i hk
      rw [enterEdge_landing, taken, if_neg hk]

/-- A request has been counted for a result that is on its way to a dispatch. -/
theorem placed_taken_ne {result : Frame} {edge e : Edge} {v : Bytes} (hk : edge.targetKind = 3) :
    (execution.taken result edge).placed e v ≠ execution := by
  intro heq
  have hrequest := congrArg Execution.requestId heq
  simp only [placed, taken, if_pos (Or.inr hk : edge.targetKind = 1 ∨ edge.targetKind = 3)]
    at hrequest
  exact absurd hrequest (by simp)

/--
**A refused result changes nothing, exactly if it passes the dispatches behind its edge** or fails a
check in front of them. In every execution that can be reached, and for every frame.
-/
theorem acceptResult_refused_iff : ∀ execution, (system image).Reach execution → ∀ result : Frame,
    ((acceptResult image execution result).1 ≠ .ok →
      (acceptResult image execution result).2 = execution) ↔
    ∀ edge, Takes image execution result edge → Passes image edge result.payload := by
  intro execution _ result
  rcases @acceptResult_cases image execution result with
    ⟨-, hsame, hnone⟩ | ⟨edge, htakes, hresult⟩
  · exact iff_of_true (fun _ => hsame) fun edge h => absurd h (hnone edge)
  · rw [hresult]
    cases hl : landing image result.payload edge with
    | «at» e v =>
        refine iff_of_true (fun hbad => ?_) fun e' h => ?_
        · simp only [arrived] at hbad
          split at hbad <;> exact absurd rfl hbad
        · obtain rfl : e' = edge := Option.some.inj (h.found.symm.trans htakes.found)
          exact passes_of_landing hl
    | stuck e v r =>
        have hk : edge.targetKind = 3 := by
          by_contra hne
          rw [GroupExecution.landing_here image _ hne] at hl
          cases hl
        have hmem := (Image.mem_of_findEdge htakes.found).1
        refine iff_of_false (fun h => ?_) fun h => ?_
        · exact placed_taken_ne hk (h (landing_stuck hmem hl).2.2)
        · obtain ⟨e', v', hat⟩ := (h edge htakes).landing
          rw [hl] at hat
          cases hat

/-- The first action of an image is out. -/
def sentOnce (image : Image) : Option Execution :=
  (start image 1 16 1 [1]).toOption.bind fun execution =>
    (answersTo (operate image) [.prepare, .markSent] execution).map Prod.snd

theorem reach_sentOnce (h : sentOnce image = some execution) : (system image).Reach execution := by
  obtain ⟨first, hstart, hops⟩ := Option.bind_eq_some_iff.mp h
  obtain ⟨⟨answers, last⟩, hanswers, rfl⟩ := Option.map_eq_some_iff.mp hops
  refine reach_answersTo _ (.init ⟨1, 16, 1, [1], ?_⟩) hanswers
  cases hstarted : start image 1 16 1 [1] with
  | error e => rw [hstarted] at hstart; cases hstart
  | ok started =>
      rw [hstarted] at hstart
      exact congrArg _ (Option.some.inj hstart)

/-- What an app answers to the first request of execution 1. -/
def boolAnswer (requestId : UInt64) : Frame :=
  { kind := .result, executionId := 1, requestId, appId := 1, actionId := 1, sourceType := 1
    destinationType := 1, outcome := .success, payload := [1] }

set_option maxRecDepth 20000 in
/-- An answer to another request is refused, and nothing has changed. -/
theorem acceptResult_refused_oneAction : ∃ execution, sentOnce oneAction = some execution ∧
    (acceptResult oneAction execution (boolAnswer 2)).2 = execution := by
  obtain ⟨execution, h⟩ : ∃ execution, sentOnce oneAction = some execution :=
    Option.isSome_iff_exists.mp (by decide +kernel)
  have hobs : (sentOnce oneAction).all (fun execution =>
      (acceptResult oneAction execution (boolAnswer 2)).1 ≠ .ok ∧
        ¬ answers oneAction (boolAnswer 2) execution.executionId execution.requestId
          execution.currentNode) = true := by
    decide +kernel
  rw [h, Option.all_some, decide_eq_true_eq] at hobs
  exact ⟨execution, h, (acceptResult_refused_iff execution (reach_sentOnce h) (boolAnswer 2)).mpr
    (fun edge htakes => absurd htakes.answers hobs.2) hobs.1⟩

/-! ## A result that is stuck -/

/-- The Bool that the action answers enters a dispatch on a variant of one case. -/
def boolDispatchLayout : Image.Layout where
  errors := [1]
  contracts := [.of 1]
  types := [Image.boolType, (2, [8, 0, 1, 0, 0, 0, 0, 0, 3, 0, 0, 0, 0, 0, 0, 0])]
  nodes := [.action1 1, ⟨3, 0, 2, 0, 0⟩, .terminal 1, .terminal 2, .terminal 3, .terminal 4]
  edges := [.wire 0 0 1 1, { Image.Edge.wire 1 1 3 2 with targetType := 2 }, .wire 5 2 2 3,
    .wire 2 1 2 4, .bare 3 1 5, .bare 4 1 6]

set_option maxRecDepth 20000 in
theorem boolDispatch_valid :
    (Image.imageValidate boolDispatchLayout.encode).toOption.isSome = true := by
  decide +kernel

def boolDispatch : Image := boolDispatchLayout.image boolDispatch_valid

set_option maxRecDepth 20000 in
/-- The answer is refused at the dispatch, behind the node it was written at. -/
theorem acceptResult_halfDone : ¬ ∀ (image : Image) (execution : Execution) (result : Frame),
    (system image).Reach execution → (acceptResult image execution result).1 ≠ .ok →
      (acceptResult image execution result).2 = execution := by
  intro hall
  obtain ⟨execution, h⟩ : ∃ execution, sentOnce boolDispatch = some execution :=
    Option.isSome_iff_exists.mp (by decide +kernel)
  have hobs : (sentOnce boolDispatch).all (fun execution =>
      (acceptResult boolDispatch execution (boolAnswer 1)).1 ≠ .ok ∧
        (acceptResult boolDispatch execution (boolAnswer 1)).2 ≠ execution) = true := by
    decide +kernel
  rw [h, Option.all_some, decide_eq_true_eq] at hobs
  exact hobs.2 (hall boolDispatch execution (boolAnswer 1) (reach_sentOnce h) hobs.1)

end Execution

end Hermas
