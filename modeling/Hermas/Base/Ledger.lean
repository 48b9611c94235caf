import Mathlib.Data.List.Induction
import Mathlib.Data.List.TakeWhile
import Mathlib.Logic.Function.Basic

/-!
# Ledgers

Resources are opened, used and closed. A ledger keeps for each open resource whether it has
been used: it opens a resource only where no rival of it is open, lets it be used once, and
closes it only after that. A row of entries that a ledger takes opens nothing beside a rival
and uses every resource that it closes once in between (`run_spec`).
-/

namespace Hermas

inductive Entry (ρ : Type) where
  | opened (resource : ρ)
  | used (resource : ρ)
  | closed (resource : ρ)
  deriving DecidableEq

namespace Ledger

variable {ρ : Type} [DecidableEq ρ]

/-- Whether an open resource has been used. -/
abbrev State (ρ : Type) := ρ → Option Bool

def empty : State ρ := fun _ => none

/-- The next entry, where a resource has these rivals. -/
def step (rivals : ρ → List ρ) (state : State ρ) : Entry ρ → Option (State ρ)
  | .opened r =>
      if state r = none ∧ ∀ other ∈ rivals r, state other = none then
        some (Function.update state r (some false))
      else none
  | .used r => if state r = some false then some (Function.update state r (some true)) else none
  | .closed r => if state r = some true then some (Function.update state r none) else none

def run (rivals : ρ → List ρ) (state : State ρ) (entries : List (Entry ρ)) : Option (State ρ) :=
  entries.foldlM (step rivals) state

/-- A resource is open behind these entries. -/
def IsOpen (entries : List (Entry ρ)) (r : ρ) : Prop :=
  ∃ before after, entries = before ++ .opened r :: after ∧ .closed r ∉ after

/-- How often a resource is used until it is closed. -/
def uses (r : ρ) (entries : List (Entry ρ)) : Nat :=
  (entries.takeWhile (· ≠ .closed r)).count (.used r)

variable {rivals : ρ → List ρ} {state state' : State ρ} {entries : List (Entry ρ)} {r : ρ}

/-! ## Running -/

theorem run_nil : run rivals state [] = some state := rfl

theorem run_append {more : List (Entry ρ)} :
    run rivals state (entries ++ more) = (run rivals state entries).bind (run rivals · more) := by
  rw [run, List.foldlM_append]
  rfl

theorem run_cons {entry : Entry ρ} :
    run rivals state (entry :: entries) = (step rivals state entry).bind (run rivals · entries) := by
  rw [run, List.foldlM_cons]
  rfl

theorem run_snoc {entry : Entry ρ} :
    run rivals state (entries ++ [entry]) = (run rivals state entries).bind (step rivals · entry) := by
  rw [run_append]
  congr 1
  funext between
  rw [run, List.foldlM_cons]
  cases step rivals between entry <;> rfl

theorem step_opened (hnone : state r = none) (hrivals : ∀ other ∈ rivals r, state other = none) :
    step rivals state (.opened r) = some (Function.update state r (some false)) :=
  if_pos ⟨hnone, hrivals⟩

theorem step_used (h : state r = some false) :
    step rivals state (.used r) = some (Function.update state r (some true)) := if_pos h

theorem step_closed (h : state r = some true) :
    step rivals state (.closed r) = some (Function.update state r none) := if_pos h

/-- What is not open stays so until it is opened. -/
theorem run_none (h : run rivals state entries = some state') (hnone : state r = none)
    (hnot : .opened r ∉ entries) : state' r = none := by
  induction entries generalizing state with
  | nil => exact Option.some.inj h ▸ hnone
  | cons entry entries ih =>
      rw [run_cons, Option.bind_eq_some_iff] at h
      obtain ⟨between, hstep, hrun⟩ := h
      refine ih hrun ?_ (fun hmem => hnot (List.mem_cons_of_mem _ hmem))
      cases entry with
      | opened other =>
          have hother : r ≠ other := fun heq => hnot (heq ▸ List.mem_cons_self)
          rw [step] at hstep
          split_ifs at hstep
          cases hstep
          rw [Function.update_of_ne hother, hnone]
      | used other =>
          rw [step] at hstep
          split_ifs at hstep with hused
          cases hstep
          have hother : r ≠ other := fun heq => by rw [heq, hused] at hnone; cases hnone
          rw [Function.update_of_ne hother, hnone]
      | closed other =>
          rw [step] at hstep
          split_ifs at hstep with hused
          cases hstep
          have hother : r ≠ other := fun heq => by rw [heq, hused] at hnone; cases hnone
          rw [Function.update_of_ne hother, hnone]

/-! ## Being open -/

omit [DecidableEq ρ] in
theorem isOpen_snoc_opened : IsOpen (entries ++ [.opened r]) r :=
  ⟨entries, [], rfl, List.not_mem_nil⟩

omit [DecidableEq ρ] in
theorem isOpen_snoc {entry : Entry ρ} (hopened : entry ≠ .opened r) (hclosed : entry ≠ .closed r) :
    IsOpen (entries ++ [entry]) r ↔ IsOpen entries r := by
  constructor
  · rintro ⟨before, after, heq, hnot⟩
    rcases List.eq_nil_or_concat after with rfl | ⟨after, last, rfl⟩
    · exact absurd (List.cons.inj (List.append_inj' heq rfl).2).1 hopened
    · rw [List.concat_eq_append] at heq hnot
      have heq' : entries ++ [entry] = (before ++ .opened r :: after) ++ [last] := by
        rw [heq, List.append_assoc, List.cons_append]
      refine ⟨before, after, (List.append_inj' heq' rfl).1, fun hmem => hnot ?_⟩
      exact List.mem_append_left _ hmem
  · rintro ⟨before, after, rfl, hnot⟩
    refine ⟨before, after ++ [entry], by simp, ?_⟩
    rw [List.mem_append, List.mem_singleton]
    exact not_or.mpr ⟨hnot, hclosed.symm⟩

omit [DecidableEq ρ] in
theorem not_isOpen_snoc_closed : ¬ IsOpen (entries ++ [.closed r]) r := by
  rintro ⟨before, after, heq, hnot⟩
  have hlast : (Entry.closed r) ∈ after := by
    rcases List.eq_nil_or_concat after with rfl | ⟨after, last, rfl⟩
    · exact absurd (List.cons.inj (List.append_inj' heq rfl).2).1 (fun hentry => by cases hentry)
    · rw [List.concat_eq_append] at heq ⊢
      have heq' : entries ++ [.closed r] = (before ++ .opened r :: after) ++ [last] := by
        rw [heq, List.append_assoc, List.cons_append]
      rw [(List.cons.inj (List.append_inj' heq' rfl).2).1]
      exact List.mem_append_right _ (List.mem_singleton_self _)
  exact hnot hlast

/-- **What a ledger has open is what has been opened and not closed.** -/
theorem isSome_iff_isOpen (h : run rivals empty entries = some state) :
    (state r).isSome = true ↔ IsOpen entries r := by
  induction entries using List.reverseRecOn generalizing state with
  | nil =>
      cases h
      refine ⟨fun hsome => (by cases hsome), ?_⟩
      rintro ⟨before, after, heq, -⟩
      simp at heq
  | append_singleton entries entry ih =>
      rw [run_snoc, Option.bind_eq_some_iff] at h
      obtain ⟨between, hbetween, hstep⟩ := h
      have hih := ih hbetween
      cases entry with
      | opened other =>
          rw [step] at hstep
          split_ifs at hstep
          cases hstep
          by_cases hother : r = other
          · subst hother
            rw [Function.update_self]
            exact ⟨fun _ => isOpen_snoc_opened, fun _ => rfl⟩
          · rw [Function.update_of_ne hother, hih,
              isOpen_snoc (fun heq => hother (Entry.opened.inj heq).symm) (fun heq => by cases heq)]
      | used other =>
          rw [step] at hstep
          split_ifs at hstep with hused
          cases hstep
          rw [isOpen_snoc (fun heq => by cases heq) (fun heq => by cases heq), ← hih]
          by_cases hother : r = other
          · subst hother
            rw [Function.update_self, hused]
            rfl
          · rw [Function.update_of_ne hother]
      | closed other =>
          rw [step] at hstep
          split_ifs at hstep
          cases hstep
          by_cases hother : r = other
          · subst hother
            rw [Function.update_self]
            exact ⟨fun hsome => (by cases hsome), fun hopen => absurd hopen not_isOpen_snoc_closed⟩
          · rw [Function.update_of_ne hother, hih,
              isOpen_snoc (fun heq => by cases heq) (fun heq => hother (Entry.closed.inj heq).symm)]

/-! ## Being used -/

/-- What a ledger makes sure of where it opens a resource. -/
structure Opening (rivals : ρ → List ρ) (state : State ρ) (before : List (Entry ρ)) (r : ρ)
    (after : List (Entry ρ)) : Prop where
  fresh : ¬ IsOpen before r ∧ ∀ other ∈ rivals r, ¬ IsOpen before other
  closed : .closed r ∈ after → uses r after = 1
  open_ : .closed r ∉ after → state r = some (decide (uses r after = 1)) ∧ uses r after ≤ 1

theorem uses_eq_count (hnot : .closed r ∉ entries) : uses r entries = entries.count (.used r) := by
  have hall : ∀ e ∈ entries, decide (e ≠ .closed r) = true := fun e he =>
    decide_eq_true fun heq => hnot (heq ▸ he)
  rw [uses, List.takeWhile_eq_self_iff.mpr hall]

theorem uses_snoc {entry : Entry ρ} (hnot : .closed r ∉ entries) :
    uses r (entries ++ [entry]) = uses r entries + if entry = .used r then 1 else 0 := by
  have hall : ∀ e ∈ entries, decide (e ≠ .closed r) = true := fun e he =>
    decide_eq_true fun heq => hnot (heq ▸ he)
  rw [uses_eq_count hnot, uses, List.takeWhile_append_of_pos hall, List.count_append]
  congr 1
  cases entry with
  | opened other => simp
  | used other => by_cases hother : other = r <;> simp [hother]
  | closed other => by_cases hother : other = r <;> simp [hother]

theorem uses_append_of_closed {more : List (Entry ρ)} (hmem : .closed r ∈ entries) :
    uses r (entries ++ more) = uses r entries := by
  obtain ⟨before, after, rfl, hnot⟩ := List.eq_append_cons_of_mem hmem
  have hall : ∀ e ∈ before, decide (e ≠ .closed r) = true := fun e he =>
    decide_eq_true fun heq => hnot (heq ▸ he)
  rw [uses, uses, List.append_assoc, List.takeWhile_append_of_pos hall,
    List.takeWhile_append_of_pos hall, List.cons_append,
    List.takeWhile_cons_of_neg (by simp), List.takeWhile_cons_of_neg (by simp)]

/-- **A ledger opens nothing beside a rival, and what it closes has been used once.** -/
theorem run_spec (h : run rivals empty entries = some state) {before after : List (Entry ρ)}
    (heq : entries = before ++ .opened r :: after) : Opening rivals state before r after := by
  induction entries using List.reverseRecOn generalizing state after with
  | nil => simp at heq
  | append_singleton entries entry ih =>
      rw [run_snoc, Option.bind_eq_some_iff] at h
      obtain ⟨between, hbetween, hstep⟩ := h
      rcases List.eq_nil_or_concat after with rfl | ⟨after, last, rfl⟩
      · -- the last entry opens the resource
        obtain ⟨rfl, hentry⟩ := List.append_inj' heq rfl
        obtain rfl := (List.cons.inj hentry).1
        rw [step] at hstep
        split_ifs at hstep with hfree
        cases hstep
        have hclosed : ∀ other, between other = none → ¬ IsOpen entries other := by
          intro other hnone hopen
          rw [← isSome_iff_isOpen hbetween, hnone] at hopen
          cases hopen
        refine ⟨⟨hclosed r hfree.1, fun other hother => hclosed other (hfree.2 other hother)⟩,
          fun hmem => (by cases hmem), fun _ => ⟨?_, Nat.zero_le _⟩⟩
        rw [Function.update_self]
        rfl
      · rw [List.concat_eq_append] at heq ⊢
        have heq' : entries ++ [entry] = (before ++ .opened r :: after) ++ [last] := by
          rw [heq, List.append_assoc, List.cons_append]
        obtain ⟨hentries, hentry⟩ := List.append_inj' heq' rfl
        obtain rfl := (List.cons.inj hentry).1
        obtain ⟨hfresh, hclosed, hopen⟩ := ih hbetween hentries
        by_cases hmem : .closed r ∈ after
        · refine ⟨hfresh, fun _ => ?_, fun hnot => absurd (List.mem_append_left _ hmem) hnot⟩
          rw [uses_append_of_closed hmem, hclosed hmem]
        · obtain ⟨hstate, hle⟩ := hopen hmem
          cases entry with
          | opened other =>
              rw [step] at hstep
              split_ifs at hstep with hfree
              cases hstep
              have hother : r ≠ other := fun heq => by
                rw [← heq, hstate] at hfree
                cases hfree.1
              refine ⟨hfresh, fun hin => ?_, fun _ => ?_⟩
              · simp [hmem] at hin
              · rw [Function.update_of_ne hother, uses_snoc hmem]
                exact ⟨by simpa using hstate, by simpa using hle⟩
          | used other =>
              rw [step] at hstep
              split_ifs at hstep with hunused
              cases hstep
              refine ⟨hfresh, fun hin => ?_, fun _ => ?_⟩
              · simp [hmem] at hin
              · rw [uses_snoc hmem]
                by_cases hother : r = other
                · subst hother
                  rw [hstate, Option.some.injEq, decide_eq_false_iff_not] at hunused
                  have hzero : uses r after = 0 := by omega
                  rw [Function.update_self, hzero]
                  simp
                · rw [Function.update_of_ne hother]
                  have hne : Entry.used other ≠ .used r := fun heq => hother (Entry.used.inj heq).symm
                  rw [if_neg hne]
                  exact ⟨hstate, hle⟩
          | closed other =>
              rw [step] at hstep
              split_ifs at hstep with hused
              cases hstep
              by_cases hother : r = other
              · subst hother
                rw [hstate, Option.some.injEq, decide_eq_true_eq] at hused
                refine ⟨hfresh, fun _ => ?_, fun hnot => ?_⟩
                · rw [uses_snoc hmem, hused]
                  simp
                · exact absurd (List.mem_append_right _ (List.mem_singleton_self _)) hnot
              · have hne : Entry.closed other ≠ .closed r := fun heq =>
                  hother (Entry.closed.inj heq).symm
                refine ⟨hfresh, fun hin => ?_, fun _ => ?_⟩
                · rcases List.mem_append.mp hin with hin | hin
                  · exact absurd hin hmem
                  · exact absurd (List.mem_singleton.mp hin).symm hne
                · rw [Function.update_of_ne hother, uses_snoc hmem]
                  exact ⟨by simpa using hstate, by simpa using hle⟩

end Ledger

end Hermas
