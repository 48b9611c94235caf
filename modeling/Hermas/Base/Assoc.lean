import Mathlib.Data.List.Sort
import Mathlib.Order.Defs.LinearOrder

/-!
# Maps as sorted lists

A map is the list of its entries in the order of their keys, each key once. Such a
list is determined by what it says of every key, and of two maps that know the same
keys one stands beside the other, entry by entry.
-/

namespace Hermas.Assoc

variable {κ α β : Type} [LinearOrder κ]

/-- The keys ascend. -/
def Sorted (entries : List (κ × α)) : Prop := (entries.map Prod.fst).Pairwise (· < ·)

variable {entries : List (κ × α)} {others : List (κ × β)} {key : κ} {value : α}

theorem Sorted.nodup (h : Sorted entries) : (entries.map Prod.fst).Nodup :=
  List.Pairwise.imp (fun hlt => ne_of_lt hlt) h

theorem Sorted.tail {entry : κ × α} (h : Sorted (entry :: entries)) : Sorted entries :=
  (List.pairwise_cons.mp h).2

/-- An entry is what is found under its key. -/
theorem Sorted.lookup [BEq κ] [LawfulBEq κ] (h : Sorted entries) (hmem : (key, value) ∈ entries) :
    entries.lookup key = some value := by
  induction entries with
  | nil => cases hmem
  | cons entry entries ih =>
      rw [List.lookup_cons]
      rcases List.mem_cons.mp hmem with rfl | hmem
      · simp
      · have hne : key ≠ entry.1 := by
          have hlt := (List.pairwise_cons.mp h).1 key (List.mem_map_of_mem hmem)
          exact ne_of_gt hlt
        rw [beq_eq_false_iff_ne.mpr hne]
        exact ih h.tail hmem

theorem mem_of_lookup [BEq κ] [LawfulBEq κ] (h : entries.lookup key = some value) :
    (key, value) ∈ entries := by
  obtain ⟨front, behind, rfl, -⟩ := List.lookup_eq_some_iff.mp h
  simp

/-- **Maps of one size of which one knows the other's keys have the same keys.** -/
theorem Sorted.keys_eq (h : Sorted entries) (h' : Sorted others)
    (hlength : entries.length = others.length)
    (hmem : ∀ key ∈ entries.map Prod.fst, key ∈ others.map Prod.fst) :
    entries.map Prod.fst = others.map Prod.fst := by
  have hsub : (entries.map Prod.fst).Subperm (others.map Prod.fst) :=
    List.subperm_of_subset h.nodup hmem
  have hperm := hsub.perm_of_length_le (by rw [List.length_map, List.length_map, hlength])
  exact hperm.eq_of_pairwise (fun a b _ _ hab hba => absurd hab (not_lt_of_gt hba)) h h'

/-! ## Insertion -/

/-- The map with the value under the key. -/
def insert (key : κ) (value : α) : List (κ × α) → List (κ × α)
  | [] => [(key, value)]
  | entry :: entries =>
      if key < entry.1 then (key, value) :: entry :: entries
      else if key = entry.1 then (key, value) :: entries
      else entry :: insert key value entries

theorem mem_keys_insert {other : κ} :
    other ∈ (insert key value entries).map Prod.fst ↔ other = key ∨ other ∈ entries.map Prod.fst := by
  induction entries with
  | nil => simp [insert]
  | cons entry entries ih =>
      rw [insert]
      split_ifs with hlt heq
      · simp
      · simp [heq]
      · rw [List.map_cons, List.mem_cons, ih, List.map_cons, List.mem_cons]
        tauto

theorem mem_insert {entry : κ × α} (h : entry ∈ insert key value entries) :
    entry = (key, value) ∨ entry ∈ entries := by
  induction entries with
  | nil => exact .inl (List.mem_singleton.mp h)
  | cons other entries ih =>
      rw [insert] at h
      split_ifs at h
      · exact List.mem_cons.mp h
      · exact (List.mem_cons.mp h).imp_right (List.mem_cons_of_mem _)
      · rcases List.mem_cons.mp h with rfl | h
        · exact .inr List.mem_cons_self
        · exact (ih h).imp_right (List.mem_cons_of_mem _)

/-- A key that is new adds an entry. -/
theorem perm_insert (h : key ∉ entries.map Prod.fst) :
    (insert key value entries).Perm ((key, value) :: entries) := by
  induction entries with
  | nil => exact List.Perm.refl _
  | cons entry entries ih =>
      rw [List.map_cons, List.mem_cons, not_or] at h
      rw [insert]
      split_ifs with hlt heq
      · exact List.Perm.refl _
      · exact absurd heq h.1
      · exact ((ih h.2).cons entry).trans (List.Perm.swap _ _ _)

theorem Sorted.insert (h : Sorted entries) : Sorted (insert key value entries) := by
  induction entries with
  | nil => exact List.pairwise_singleton _ _
  | cons entry entries ih =>
      obtain ⟨hhead, htail⟩ := List.pairwise_cons.mp h
      rw [Assoc.insert]
      split_ifs with hlt heq
      · refine List.pairwise_cons.mpr ⟨fun other hother => ?_, h⟩
        rcases List.mem_cons.mp hother with rfl | hother
        · exact hlt
        · exact hlt.trans (hhead other hother)
      · exact List.pairwise_cons.mpr ⟨heq ▸ hhead, htail⟩
      · refine List.pairwise_cons.mpr ⟨fun other hother => ?_, ih htail⟩
        rcases mem_keys_insert.mp hother with rfl | hother
        · exact lt_of_le_of_ne (not_lt.mp hlt) (Ne.symm heq)
        · exact hhead other hother

/-! ## Removal -/

/-- The map without the key. -/
def erase (key : κ) (entries : List (κ × α)) : List (κ × α) := entries.filter (·.1 ≠ key)

theorem Sorted.erase (h : Sorted entries) : Sorted (erase key entries) :=
  List.Pairwise.sublist (List.filter_sublist.map Prod.fst) h

variable [BEq κ] [LawfulBEq κ]

theorem lookup_erase {other : κ} :
    (Assoc.erase key entries).lookup other = if other = key then none else entries.lookup other := by
  induction entries with
  | nil => simp [Assoc.erase]
  | cons entry entries ih =>
      rw [Assoc.erase, List.filter_cons, List.lookup_cons]
      by_cases hentry : entry.1 = key
      · rw [if_neg (by simp [hentry]), ← Assoc.erase, ih]
        by_cases hother : other = key
        · rw [if_pos hother, if_pos hother]
        · have hne : other ≠ entry.1 := fun heq => hother (heq.trans hentry)
          rw [if_neg hother, if_neg hother, beq_eq_false_iff_ne.mpr hne]
      · rw [if_pos (by simp [hentry]), List.lookup_cons, ← Assoc.erase, ih]
        by_cases hother : other = entry.1
        · have hne : other ≠ key := fun heq => hentry (hother.symm.trans heq)
          rw [if_neg hne, if_neg hne, beq_iff_eq.mpr hother]
        · rw [beq_eq_false_iff_ne.mpr hother]

theorem lookup_insert (h : Sorted entries) {other : κ} :
    (Assoc.insert key value entries).lookup other =
      if other = key then some value else entries.lookup other := by
  induction entries with
  | nil =>
      rw [Assoc.insert, List.lookup_cons]
      split_ifs with heq
      · simp [heq]
      · rw [beq_eq_false_iff_ne.mpr heq]
  | cons entry entries ih =>
      rw [Assoc.insert]
      by_cases hlt : key < entry.1
      · rw [if_pos hlt, List.lookup_cons]
        by_cases hother : other = key
        · simp [hother]
        · rw [beq_eq_false_iff_ne.mpr hother, if_neg hother]
      rw [if_neg hlt]
      by_cases heq : key = entry.1
      · rw [if_pos heq, List.lookup_cons, List.lookup_cons, ← heq]
        by_cases hother : other = key
        · simp [hother]
        · rw [beq_eq_false_iff_ne.mpr hother, if_neg hother]
      · rw [if_neg heq, List.lookup_cons, List.lookup_cons, ih h.tail]
        by_cases hentry : other = entry.1
        · -- the entry in front keeps its value
          have hne : other ≠ key := fun hsame => heq (hsame.symm.trans hentry)
          rw [if_neg hne, if_neg hne, hentry, beq_self_eq_true]
        · rw [beq_eq_false_iff_ne.mpr hentry]

theorem isSome_lookup : (entries.lookup key).isSome = true ↔ key ∈ entries.map Prod.fst := by
  rw [Option.isSome_iff_exists]
  constructor
  · rintro ⟨value, hvalue⟩
    exact List.mem_map_of_mem (mem_of_lookup hvalue)
  · intro hmem
    obtain ⟨⟨_, value⟩, hentry, rfl⟩ := List.mem_map.mp hmem
    cases hlookup : entries.lookup _ with
    | some value => exact ⟨value, rfl⟩
    | none => simpa using List.lookup_eq_none_iff.mp hlookup _ hentry

end Hermas.Assoc
