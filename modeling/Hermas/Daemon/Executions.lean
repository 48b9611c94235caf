import Hermas.Daemon.Interpreters

/-!
# The executions of the daemon

Each slot in use runs an execution of its own, and no two slots run one of the same id.
As long as an execution has not begun to compensate, its slot holds a state that a run
of the interpreter alone leads to: the daemon never feeds an interpreter anything but
its own calls.
-/

namespace Hermas.Daemon

open Loop (PollItem Event)

namespace Slot

/-- The interpreter of the slot stands where a run of its own calls leads. -/
structure Standing (image : Image) (slot : Slot) : Prop where
  group : ∀ group, slot.group = some group → (GroupExecution.system image).Reach group
  execution : slot.active = true → slot.group = none → ¬ slot.Begun →
    (Execution.system image).Reach slot.execution

variable {image : Image} {s s' : Slot}

theorem standing_empty : Standing image {} where
  group := by
    intro group hgroup
    cases hgroup
  execution := by
    intro hactive
    cases hactive

theorem standing_begun (hgroup : s.group = none) (hbegun : s.Begun) : Standing image s where
  group := by
    intro group hsome
    rw [hgroup] at hsome
    cases hsome
  execution := fun _ _ hfresh => absurd hbegun hfresh

/-- One go keeps the interpreter on a run of its own. -/
theorem Drive.standing (h : Drive image s s') (hs : s.Standing image) : s'.Standing image := by
  have hfresh : ¬ s'.Begun → ¬ s.Begun := mt h.begun
  cases h.advances with
  | rests group execution =>
      refine ⟨fun g hg => hs.group g (group ▸ hg), fun hactive hnone hopen => ?_⟩
      rw [execution]
      exact hs.execution (h.active ▸ hactive) (group ▸ hnone) (hfresh hopen)
  | @group before after op grouped performs moved execution =>
      refine ⟨fun g hg => ?_, fun _ hnone => ?_⟩
      · rw [moved] at hg
        cases hg
        exact .step (hs.group before grouped) trivial performs
      · rw [moved] at hnone
        cases hnone
  | @sequential op answer group operates =>
      refine ⟨fun g hg => hs.group g (group ▸ hg), fun hactive hnone hopen => ?_⟩
      have hbefore := hs.execution (h.active ▸ hactive) (group ▸ hnone) (hfresh hopen)
      exact .step hbefore trivial ⟨answer, operates⟩
  | fails begun group execution =>
      exact ⟨fun g hg => hs.group g (group ▸ hg), fun _ _ hopen => absurd begun hopen⟩

theorem Drives.standing (h : Drives image s s') (hs : s.Standing image) : s'.Standing image := by
  induction h with
  | refl => exact hs
  | tail _ hstep ih => exact hstep.standing ih

end Slot

namespace Loop

open Slot (Standing)

variable {image : Image} {bound : Nat} {loop loop' : Loop} {r : LoopResult}

/-- Every interpreter stands on a run of its own, and no id is in use twice. -/
structure Sound (image : Image) (loop : Loop) : Prop where
  standing : ∀ i, (loop.slots i).Standing image
  nonzero : ∀ i, (loop.slots i).active = true → (loop.slots i).executionId ≠ 0
  distinct : ∀ i j, (loop.slots i).active = true → (loop.slots j).active = true →
    (loop.slots i).executionId = (loop.slots j).executionId → i = j

theorem Sound.drives (h : loop.Sound image) (hd : DrivesAll image loop loop') :
    loop'.Sound image where
  standing i := (hd i).standing (h.standing i)
  nonzero i hactive := by
    rw [(hd i).executionId]
    exact h.nonzero i ((hd i).active ▸ hactive)
  distinct i j hi hj hsame := by
    rw [(hd i).executionId, (hd j).executionId] at hsame
    exact h.distinct i j ((hd i).active ▸ hi) ((hd j).active ▸ hj) hsame

theorem Sound.idles (h : loop.Sound image) (hi : Idles loop loop') : loop'.Sound image := by
  have hactive : ∀ i, (loop'.slots i).active = true → loop'.slots i = loop.slots i := by
    intro i hactive
    rcases hi i with hsame | ⟨-, hempty⟩
    · exact hsame
    · rw [hempty] at hactive
      cases hactive
  refine ⟨fun i => ?_, fun i ha => ?_, fun i j ha hb hsame => ?_⟩
  · rcases hi i with hsame | ⟨-, hempty⟩
    · rw [hsame]
      exact h.standing i
    · rw [hempty]
      exact Slot.standing_empty
  · have hslot := hactive i ha
    rw [hslot] at ha ⊢
    exact h.nonzero i ha
  · rw [hactive i ha, hactive j hb] at hsame
    exact h.distinct i j (hactive i ha ▸ ha) (hactive j hb ▸ hb) hsame

/-- A slot is filled under an id that was free. -/
theorem Sound.takes {executionId : UInt64} {i : SlotIndex} (h : loop.Sound image)
    (ht : Takes image loop loop' executionId i) (hzero : executionId ≠ 0)
    (hslot : (loop'.slots i).Standing image) : loop'.Sound image := by
  have hother : ∀ j, j ≠ i → (loop'.slots j).active = true →
      (loop'.slots j).executionId ≠ executionId := by
    intro j hj ha
    rw [ht.others j hj] at ha ⊢
    exact findExecution_none ht.unknown ha
  refine ⟨fun j => ?_, fun j ha => ?_, fun j k ha hb hsame => ?_⟩
  · by_cases hj : j = i
    · rw [hj]
      exact hslot
    · rw [ht.others j hj]
      exact h.standing j
  · by_cases hj : j = i
    · rw [hj, ht.runs]
      exact hzero
    · rw [ht.others j hj] at ha ⊢
      exact h.nonzero j ha
  · by_cases hj : j = i
    · by_cases hk : k = i
      · rw [hj, hk]
      · rw [hj, ht.runs] at hsame
        exact absurd hsame.symm (hother k hk hb)
    · by_cases hk : k = i
      · rw [hk, ht.runs] at hsame
        exact absurd hsame (hother j hj ha)
      · rw [ht.others j hj] at ha hsame
        rw [ht.others k hk] at hb hsame
        exact h.distinct j k ha hb hsame

/-- An execution is admitted. -/
theorem Sound.admits {executionId : UInt64} {i : SlotIndex} (h : loop.Sound image)
    (ha : Admits image loop loop' executionId i) : loop'.Sound image := by
  refine h.takes ha.toTakes ha.nonzero ⟨fun group hgroup => ?_, fun _ hnone _ => ?_⟩
  · exact .init (ha.group group hgroup)
  · exact .init (ha.execution hnone)

theorem Sound.admission {executionId : UInt64} {inputType : UInt16} {input : Bytes}
    (h : loop.Sound image)
    (hcall : loop.admitExecution image bound executionId inputType input = some (r, loop')) :
    loop'.Sound image := by
  rcases admitExecution_cases hcall with ⟨-, i, hadmits⟩ | ⟨-, hidles, -⟩
  · exact h.admits hadmits
  · exact h.idles hidles

/-- A slot is given free. -/
theorem Sound.frees {executionId : UInt64} {i : SlotIndex} (h : loop.Sound image)
    (hf : Frees loop loop' executionId i) : loop'.Sound image := by
  have hactive : ∀ j, (loop'.slots j).active = true → loop'.slots j = loop.slots j := by
    intro j ha
    by_cases hj : j = i
    · rw [hj, hf.empty] at ha
      cases ha
    · exact hf.others j hj
  refine ⟨fun j => ?_, fun j ha => ?_, fun j k ha hb hsame => ?_⟩
  · by_cases hj : j = i
    · rw [hj, hf.empty]
      exact Slot.standing_empty
    · rw [hf.others j hj]
      exact h.standing j
  · have hslot := hactive j ha
    rw [hslot] at ha ⊢
    exact h.nonzero j ha
  · rw [hactive j ha, hactive k hb] at hsame
    exact h.distinct j k (hactive j ha ▸ ha) (hactive k hb ▸ hb) hsame

theorem Sound.release {executionId : UInt64} (h : loop.Sound image)
    (hcall : loop.release executionId = some (r, loop')) : loop'.Sound image := by
  rcases (release_cases hcall).2 with ⟨-, i, hfrees⟩ | ⟨-, rfl⟩
  · exact h.frees hfrees
  · exact h

theorem Sound.resumeSaga {execution : Saga.Execution} (h : loop.Sound image)
    (hcall : loop.resumeSaga image execution = some (r, loop')) : loop'.Sound image := by
  rcases (resumeSaga_cases hcall).2 with
    ⟨-, hzero, i, driver, result, htakes, hdriver, hready, hslot, -⟩ | ⟨-, hidles⟩
  · refine h.takes htakes hzero ?_
    rw [hslot]
    refine Slot.standing_begun rfl ?_
    show driver.execution.state ≠ .empty
    rw [hdriver, hready]
    decide
  · exact h.idles hidles

end Loop

namespace Host

open Loop (Sound)

variable {image : Image} {host host' : Host}

theorem sound_init (h : Opened image host) : host.Sound image := by
  have hfree : ∀ i, (host.slots i).active = false := fun i => by rw [h.slots]
  refine ⟨fun i => ?_, fun i hactive => ?_, fun i _ hactive => ?_⟩
  · rw [h.slots]
    exact Slot.standing_empty
  · rw [hfree i] at hactive
    cases hactive
  · rw [hfree i] at hactive
    cases hactive

theorem sound_step {move : Move} (h : host.Sound image) (hm : Performs image host move host') :
    host'.Sound image := by
  obtain ⟨bound, hm⟩ := hm
  cases move with
  | admission executionId inputType input =>
      obtain ⟨-, r, loop, hcall, rfl⟩ := between_some hm
      exact h.admission hcall
  | release executionId =>
      obtain ⟨-, r, loop, hcall, rfl⟩ := between_some hm
      exact h.release hcall
  | resumeSaga execution =>
      obtain ⟨-, r, loop, hcall, rfl⟩ := between_some hm
      exact h.resumeSaga hcall
  | publish index registeredActionId =>
      simp only [perform] at hm
      split at hm
      · cases hm
        exact ⟨h.standing, h.nonzero, h.distinct⟩
      · cases hm
  | beginPoll =>
      simp only [perform] at hm
      split at hm
      · split at hm
        · rename_i loop hbegin
          cases hm
          exact h.drives (Loop.beginPoll_drives hbegin)
        · cases hm
      · cases hm
  | serve event =>
      simp only [perform] at hm
      split at hm
      · cases hm
      split at hm
      · rename_i loop hserve
        cases hm
        exact h.drives (Loop.serve_drives hserve)
      · cases hm

theorem sound_reachable (h : (system image).Reach host) : host.Sound image :=
  System.ReachWhere.invariant (P := fun host : Host => host.Sound image) (fun _ => sound_init)
    (fun _ _ _ hs _ hstep => sound_step hs hstep) h

/-- **The daemon drives its interpreters by their own calls only.** In every state of the daemon, the
group execution of a slot is one that a run of the group interpreter leads to; so is the execution
of a sequential slot for the sequential interpreter, unless it began to compensate. No two slots in
use run executions of one id. -/
theorem interpreters_driven (h : (system image).Reach host) :
    (∀ i group, (host.slots i).group = some group → (GroupExecution.system image).Reach group) ∧
      (∀ i, (host.slots i).active = true → (host.slots i).group = none →
        (host.slots i).saga.execution.state = .empty →
          (Execution.system image).Reach (host.slots i).execution) ∧
      ∀ i j, (host.slots i).active = true → (host.slots j).active = true →
        (host.slots i).executionId = (host.slots j).executionId → i = j := by
  have hsound := sound_reachable h
  refine ⟨fun i group hgroup => (hsound.standing i).group group hgroup, fun i hactive hnone hempty =>
    (hsound.standing i).execution hactive hnone fun hbegun => hbegun hempty, hsound.distinct⟩

set_option maxRecDepth 20000 in
theorem interpreters_driven_twoItems : ∃ host group, (system GroupExecution.eachImage).Reach host ∧
    (host.slots ⟨0, by decide⟩).group = some group ∧
      (GroupExecution.system GroupExecution.eachImage).Reach group := by
  have hall : ((fresh GroupExecution.eachImage).performAll GroupExecution.eachImage 10
      twoItems).any (fun host => (host.slots ⟨0, by decide⟩).group.isSome) = true := by
    decide +kernel
  rw [Option.any_eq_true] at hall
  obtain ⟨host, hhost, hgrouped⟩ := hall
  obtain ⟨group, hgroup⟩ := Option.isSome_iff_exists.mp hgrouped
  have hreach := reach_performAll twoItems (.init (opened_fresh (by decide +kernel))) hhost
  exact ⟨host, group, hreach, hgroup, (interpreters_driven hreach).1 _ group hgroup⟩

end Host

end Hermas.Daemon
