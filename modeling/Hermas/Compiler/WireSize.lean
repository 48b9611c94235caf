import Hermas.Compiler.Declare
import Hermas.Compiler.Presentation
import Mathlib.Order.Bounds.Basic

/-!
# The longest values of a type

`maximum_wire_size` says how many bytes a value can have. The longest values of a tree
are put together from the longest values of its children, and no value is longer: what a
walk takes off a payload is at most that much (`walk_le_widest`), and some payload of
just that length is taken off whole (`exists_widest`). The function computes the length
with checked operations, none of which goes beyond the result, so it has no answer only
where the length itself does not fit the word.
-/

namespace Hermas

namespace Image

mutual

/-- The length of the longest values. -/
def Representation.widest : Representation → Nat
  | .unit => 0
  | .integer => 8
  | .boolean => 1
  | .string maximum | .bytes maximum => maximum.toNat + 8
  | .record fields => widestSum fields
  | .list element maximum => element.widest * maximum.toNat + 8
  | .variant cases => widestCase cases + 8

def widestSum : List Representation → Nat
  | [] => 0
  | child :: children => child.widest + widestSum children

def widestCase : List Representation → Nat
  | [] => 0
  | child :: children => max child.widest (widestCase children)

end

/-! ## No value is longer -/

section Longest

variable {payload rest : Bytes}

theorem takeHead_length {word : UInt32} (h : takeHead payload = some (word, rest)) :
    payload.length = rest.length + 8 := by
  obtain ⟨hlength, -, -, hrest⟩ := takeHead_some.mp h
  rw [← hrest, List.length_drop]
  omega

theorem takeBytes_le {text : Bool} {maximum : UInt32} (h : takeBytes text maximum payload = some rest) :
    payload.length ≤ maximum.toNat + 8 + rest.length := by
  obtain ⟨length, behind, hhead, hmaximum, hlength, -, hrest⟩ := takeBytes_some.mp h
  have hbehind := takeHead_length hhead
  rw [UInt32.lt_iff_toNat_lt] at hmaximum
  rw [← hrest, List.length_drop]
  omega

/-- Rounds that each take so much take that often so much. -/
theorem foldlM_le {f : Bytes → Option Bytes} {most : Nat}
    (hf : ∀ p q, f p = some q → p.length ≤ most + q.length) : ∀ (rounds : List Nat) {p q : Bytes},
      rounds.foldlM (fun rest _ => f rest) p = some q → p.length ≤ most * rounds.length + q.length
  | [], p, q, h => by
      rw [Option.some.inj h]
      exact Nat.le_add_left _ _
  | _ :: rounds, p, q, h => by
      rw [List.foldlM_cons, Option.bind_eq_bind, Option.bind_eq_some_iff] at h
      obtain ⟨next, hnext, h⟩ := h
      have hfirst := hf p next hnext
      have hothers := foldlM_le hf rounds h
      rw [List.length_cons, Nat.mul_succ]
      omega

mutual

/-- **A walk takes no more off a payload than the longest value has.** -/
theorem walk_le_widest : ∀ (r : Representation) {payload rest : Bytes},
    r.walk payload = some rest → payload.length ≤ r.widest + rest.length
  | .unit, payload, rest, h => by
      rw [Representation.walk] at h
      rw [Option.some.inj h]
      exact Nat.le_add_left _ _
  | .integer, payload, rest, h => by
      rw [Representation.walk] at h
      split at h
      · cases h
      · rw [← Option.some.inj h, List.length_drop, Representation.widest]
        omega
  | .boolean, payload, rest, h => by
      cases payload with
      | nil => cases h
      | cons value behind =>
          simp only [Representation.walk] at h
          split at h
          · cases h
          · rw [← Option.some.inj h, List.length_cons, Representation.widest]
            omega
  | .string maximum, payload, rest, h => by
      rw [Representation.walk] at h
      exact takeBytes_le h
  | .bytes maximum, payload, rest, h => by
      rw [Representation.walk] at h
      exact takeBytes_le h
  | .record fields, payload, rest, h => by
      rw [Representation.walk] at h
      exact walkAll_le fields h
  | .list element maximum, payload, rest, h => by
      rw [Representation.walk, Option.bind_eq_bind, Option.bind_eq_some_iff] at h
      obtain ⟨⟨count, behind⟩, hhead, h⟩ := h
      simp only at h
      split at h
      · cases h
      · rename_i hcount
        have hitems := foldlM_le (fun p q hp => walk_le_widest element hp) _ h
        have hbehind := takeHead_length hhead
        rw [UInt32.lt_iff_toNat_lt, UInt16.toNat_toUInt32] at hcount
        have hmany : element.widest * count.toNat ≤ element.widest * maximum.toNat :=
          Nat.mul_le_mul_left _ (by omega)
        rw [List.length_range] at hitems
        rw [Representation.widest]
        omega
  | .variant cases, payload, rest, h => by
      rw [Representation.walk, Option.bind_eq_bind, Option.bind_eq_some_iff] at h
      obtain ⟨⟨tag, behind⟩, hhead, h⟩ := h
      have hcase := walkCase_le cases tag.toNat h
      have hbehind := takeHead_length hhead
      rw [Representation.widest]
      omega

theorem walkAll_le : ∀ (children : List Representation) {payload rest : Bytes},
    walkAll children payload = some rest → payload.length ≤ widestSum children + rest.length
  | [], payload, rest, h => by
      rw [walkAll] at h
      rw [Option.some.inj h]
      exact Nat.le_add_left _ _
  | child :: children, payload, rest, h => by
      rw [walkAll, Option.bind_eq_some_iff] at h
      obtain ⟨behind, hchild, h⟩ := h
      have hfirst := walk_le_widest child hchild
      have hothers := walkAll_le children h
      rw [widestSum]
      omega

theorem walkCase_le : ∀ (cases : List Representation) (tag : Nat) {payload rest : Bytes},
    walkCase cases tag payload = some rest → payload.length ≤ widestCase cases + rest.length
  | [], tag, payload, rest, h => by
      rw [walkCase] at h
      cases h
  | child :: children, 0, payload, rest, h => by
      rw [walkCase] at h
      have hchild := walk_le_widest child h
      have := Nat.le_max_left child.widest (widestCase children)
      rw [widestCase]
      omega
  | child :: children, tag + 1, payload, rest, h => by
      rw [walkCase] at h
      have hothers := walkCase_le children tag h
      have := Nat.le_max_right child.widest (widestCase children)
      rw [widestCase]
      omega

end

end Longest

/-! ## Some value is that long -/

section Attained

theorem length_listHead (count : Nat) : (listHead count).length = 8 := by simp [listHead]

theorem validUtf8_ascii : ∀ count : Nat, validUtf8 (List.replicate count 0x61) = true
  | 0 => rfl
  | count + 1 => by
      rw [List.replicate_succ]
      unfold validUtf8
      rw [if_pos (by decide)]
      exact validUtf8_ascii count

/-- A text or a run of bytes may be as long as its bound. -/
theorem takeBytes_full (text : Bool) (maximum : UInt32) :
    takeBytes text maximum (listHead maximum.toNat ++ List.replicate maximum.toNat 0x61) = some [] := by
  rw [takeBytes_some]
  refine ⟨maximum, List.replicate maximum.toNat 0x61, ?_, by simp, by simp, ?_, by simp⟩
  · have hhead := takeHead_listHead maximum.toNat (List.replicate maximum.toNat 0x61)
    rwa [UInt32.ofNat_toNat] at hhead
  · rintro ⟨-, hbad⟩
    rw [List.take_of_length_le (by simp), validUtf8_ascii] at hbad
    simp at hbad

/-- A value that is taken off whole is taken off as often as it stands there. -/
theorem foldlM_copies {r : Representation} {value : Bytes} (h : r.walk value = some []) :
    ∀ rounds : List Nat, rounds.foldlM (fun rest _ => r.walk rest)
      (List.replicate rounds.length value).flatten = some []
  | [] => rfl
  | _ :: rounds => by
      rw [List.length_cons, List.replicate_succ, List.flatten_cons, List.foldlM_cons,
        Option.bind_eq_bind, walk_append _ r h, Option.bind_some, List.nil_append]
      exact foldlM_copies h rounds

mutual

/-- **Some value has the length of the longest.** -/
theorem exists_widest : ∀ (r : Representation), r.Valid →
    ∃ value : Bytes, value.length = r.widest ∧ r.walk value = some []
  | .unit, _ => ⟨[], rfl, rfl⟩
  | .integer, _ => ⟨List.replicate 8 0, rfl, rfl⟩
  | .boolean, _ => ⟨[0], rfl, rfl⟩
  | .string maximum, _ => by
      refine ⟨_, ?_, takeBytes_full true maximum⟩
      rw [List.length_append, length_listHead, List.length_replicate, Representation.widest, Nat.add_comm]
  | .bytes maximum, _ => by
      refine ⟨_, ?_, takeBytes_full false maximum⟩
      rw [List.length_append, length_listHead, List.length_replicate, Representation.widest, Nat.add_comm]
  | .record fields, h => exists_widestSum fields h.2
  | .list element maximum, h => by
      obtain ⟨value, hlength, hwalk⟩ := exists_widest element h.2.2
      refine ⟨listHead maximum.toNat ++ (List.replicate maximum.toNat value).flatten, ?_, ?_⟩
      · rw [List.length_append, length_listHead, List.length_flatten, List.map_replicate,
          List.sum_replicate_nat, hlength, Representation.widest, Nat.mul_comm, Nat.add_comm]
      · have hword : (UInt32.ofNat maximum.toNat).toNat = maximum.toNat := by
          have := maximum.toNat_lt
          rw [UInt32.toNat_ofNat']
          exact Nat.mod_eq_of_lt (by omega)
        have hcopies := foldlM_copies hwalk (List.range maximum.toNat)
        rw [List.length_range] at hcopies
        rw [Representation.walk, takeHead_listHead]
        simp only [Option.bind_eq_bind, Option.bind_some]
        rw [if_neg, hword]
        · exact hcopies
        · rw [UInt32.lt_iff_toNat_lt, UInt16.toNat_toUInt32, hword]
          exact Nat.lt_irrefl _
  | .variant cases, h => by
      obtain ⟨tag, value, htag, hlength, hwalk⟩ := exists_widestCase cases h.1 h.2.2
      have hword : (UInt32.ofNat tag).toNat = tag := by
        have := h.2.1
        rw [UInt32.toNat_ofNat']
        exact Nat.mod_eq_of_lt (by omega)
      refine ⟨listHead tag ++ value, ?_, ?_⟩
      · rw [List.length_append, length_listHead, hlength, Representation.widest, Nat.add_comm]
      · rw [Representation.walk, takeHead_listHead]
        simp only [Option.bind_eq_bind, Option.bind_some, hword]
        exact hwalk

theorem exists_widestSum : ∀ (children : List Representation), ValidAll children →
    ∃ value : Bytes, value.length = widestSum children ∧ walkAll children value = some []
  | [], _ => ⟨[], rfl, rfl⟩
  | child :: children, h => by
      obtain ⟨first, hfirst, hwalk⟩ := exists_widest child h.1
      obtain ⟨others, hothers, hwalks⟩ := exists_widestSum children h.2
      refine ⟨first ++ others, ?_, ?_⟩
      · rw [List.length_append, hfirst, hothers, widestSum]
      · rw [walkAll, walk_append others child hwalk, List.nil_append]
        exact hwalks

theorem exists_widestCase : ∀ (cases : List Representation), cases ≠ [] → ValidAll cases →
    ∃ (tag : Nat) (value : Bytes), tag < cases.length ∧ value.length = widestCase cases ∧
      walkCase cases tag value = some []
  | [], hne, _ => absurd rfl hne
  | [child], _, h => by
      obtain ⟨value, hlength, hwalk⟩ := exists_widest child h.1
      refine ⟨0, value, Nat.zero_lt_one, ?_, hwalk⟩
      rw [hlength, widestCase, widestCase, Nat.max_zero]
  | child :: other :: cases, _, h => by
      rcases Nat.le_total child.widest (widestCase (other :: cases)) with hle | hle
      · obtain ⟨tag, value, htag, hlength, hwalk⟩ :=
          exists_widestCase (other :: cases) (List.cons_ne_nil _ _) h.2
        refine ⟨tag + 1, value, Nat.succ_lt_succ htag, ?_, hwalk⟩
        exact hlength.trans (Nat.max_eq_right hle).symm
      · obtain ⟨value, hlength, hwalk⟩ := exists_widest child h.1
        refine ⟨0, value, Nat.succ_pos _, ?_, hwalk⟩
        exact hlength.trans (Nat.max_eq_left hle).symm

end

/-- **The longest values that a walk takes off whole.** -/
theorem Representation.Valid.isGreatest {r : Representation} (h : r.Valid) :
    IsGreatest {length | ∃ payload : Bytes, payload.length = length ∧ r.walk payload = some []}
      r.widest := by
  refine ⟨exists_widest r h, ?_⟩
  rintro length ⟨payload, rfl, hwalk⟩
  exact walk_le_widest r hwalk

end Attained

end Image

namespace Catalog

open Compiler

/-! ## The computed length -/

/-- A length that fits a `usize`. -/
def inWord (length : Nat) : Option Nat := if length < 2 ^ 64 then some length else none

theorem checkedAdd_eq (a b : Nat) : checkedAdd a b = inWord (a + b) := rfl

/-- A sum with a length that may not have fit. -/
theorem inWord_add (a b : Nat) : (inWord a).bind (fun n => inWord (n + b)) = inWord (a + b) := by
  unfold inWord
  split_ifs with ha hsum
  · rw [Option.bind_some, if_pos hsum]
  · rw [Option.bind_some, if_neg hsum]
  · omega
  · rfl

/-- A product with one; a list has room for some item. -/
theorem inWord_mul {count : Nat} (hcount : 1 ≤ count) (a : Nat) :
    (inWord a).bind (fun n => checkedMul n count) = inWord (a * count) := by
  have hle : a ≤ a * count := Nat.le_mul_of_pos_right a hcount
  unfold inWord checkedMul
  split_ifs with ha hproduct
  · rw [Option.bind_some, if_pos hproduct]
  · rw [Option.bind_some, if_neg hproduct]
  · omega
  · rfl

mutual

/-- A representation that the catalog takes is a valid tree. -/
theorem valid_of_validate : ∀ {r : Representation} {path : String}, r.validate path = .ok () →
    r.nameless.Counted → r.nameless.Valid
  | .unit, _, _, _ | .integer, _, _, _ | .boolean, _, _, _ => trivial
  | .string maximum, path, h, _ | .bytes maximum, path, h, _ => by
      simp only [Representation.validate, validateByteBound] at h
      split at h
      · rename_i hbound
        exact hbound
      · cases h
  | .record fields, path, h, hcounted => ⟨hcounted.1, validAll_of_fields h hcounted.2⟩
  | .list element maximum, path, h, hcounted => by
      simp only [Representation.validate] at h
      split at h
      · rename_i hbound
        exact ⟨hbound.1, hbound.2, valid_of_validate (r := element) h hcounted⟩
      · cases h
  | .variant cases, path, h, hcounted => by
      simp only [Representation.validate] at h
      split at h
      · cases h
      · rename_i hne
        refine ⟨fun hnil => hne ?_, hcounted.1, validAll_of_cases h hcounted.2⟩
        have hlength := length_namelessAll cases
        rw [hnil] at hlength
        rw [List.isEmpty_iff]
        exact List.length_eq_zero_iff.mp hlength.symm

theorem validAll_of_fields : ∀ {fields : List (String × Representation)} {path : String},
    validateFields fields path = .ok () → Image.CountedAll (namelessAll fields) →
      Image.ValidAll (namelessAll fields)
  | [], _, _, _ => trivial
  | (name, field) :: fields, path, h, hcounted => by
      simp only [validateFields, bind_ok] at h
      obtain ⟨⟨⟩, -, ⟨⟩, hfield, hfields⟩ := h
      exact ⟨valid_of_validate hfield hcounted.1, validAll_of_fields hfields hcounted.2⟩

theorem validAll_of_cases : ∀ {cases : List (String × Representation)} {path : String},
    validateCases cases path = .ok () → Image.CountedAll (namelessAll cases) →
      Image.ValidAll (namelessAll cases)
  | [], _, _, _ => trivial
  | (name, payload) :: cases, path, h, hcounted => by
      simp only [validateCases, bind_ok] at h
      obtain ⟨⟨⟩, -, ⟨⟩, hpayload, hcases⟩ := h
      exact ⟨valid_of_validate hpayload hcounted.1, validAll_of_cases hcases hcounted.2⟩

end

mutual

/-- **`maximum_wire_size` is the length of the longest values, where that fits.** -/
theorem maximumWireSize_eq : ∀ {r : Representation}, r.nameless.Valid →
    r.maximumWireSize = inWord r.nameless.widest
  | .unit, _ | .integer, _ | .boolean, _ => rfl
  | .string maximum, _ | .bytes maximum, _ => rfl
  | .record fields, h => by
      have hfields := wireSizeOfFields_eq (by decide : 0 < 2 ^ 64) h.2
      rwa [Nat.zero_add] at hfields
  | .list element maximum, h => by
      have helement := maximumWireSize_eq (r := element) h.2.2
      have hcount : 1 ≤ maximum.toNat := UInt16.le_iff_toNat_le.mp h.1
      simp only [Representation.maximumWireSize, Option.bind_eq_bind, helement]
      rw [← Option.bind_assoc, inWord_mul hcount]
      exact inWord_add _ 8
  | .variant cases, h => by
      have hcases := wireSizeOfCases_eq (by decide : 0 < 2 ^ 64) h.2.2
      rw [Nat.zero_max] at hcases
      simp only [Representation.maximumWireSize, Option.bind_eq_bind, hcases]
      exact inWord_add _ 8

theorem wireSizeOfFields_eq : ∀ {fields : List (String × Representation)} {size : Nat},
    size < 2 ^ 64 → Image.ValidAll (namelessAll fields) →
      wireSizeOfFields size fields = inWord (size + Image.widestSum (namelessAll fields))
  | [], size, hsize, _ => (if_pos hsize).symm
  | (_, field) :: fields, size, hsize, h => by
      have hfield := maximumWireSize_eq (r := field) h.1
      simp only [wireSizeOfFields, Option.bind_eq_bind, hfield, namelessAll, Image.widestSum,
        ← Nat.add_assoc]
      by_cases hsum : size + field.nameless.widest < 2 ^ 64
      · rw [inWord, if_pos (by omega), Option.bind_some, checkedAdd, if_pos hsum, Option.bind_some]
        exact wireSizeOfFields_eq hsum h.2
      · -- The sum up to here is too large already, and so is the whole.
        have hnone : inWord (size + field.nameless.widest + Image.widestSum (namelessAll fields)) = none :=
          if_neg (by omega)
        rw [hnone]
        cases hword : inWord field.nameless.widest with
        | none => rfl
        | some width =>
            obtain rfl : field.nameless.widest = width := by
              unfold inWord at hword
              split at hword
              · exact Option.some.inj hword
              · cases hword
            rw [Option.bind_some, checkedAdd, if_neg hsum]
            rfl

theorem wireSizeOfCases_eq : ∀ {cases : List (String × Representation)} {largest : Nat},
    largest < 2 ^ 64 → Image.ValidAll (namelessAll cases) →
      wireSizeOfCases largest cases = inWord (max largest (Image.widestCase (namelessAll cases)))
  | [], largest, hlargest, _ => by
      rw [namelessAll, Image.widestCase, Nat.max_zero]
      exact (if_pos hlargest).symm
  | (_, payload) :: cases, largest, hlargest, h => by
      have hpayload := maximumWireSize_eq (r := payload) h.1
      simp only [wireSizeOfCases, Option.bind_eq_bind, hpayload, namelessAll, Image.widestCase,
        ← Nat.max_assoc]
      by_cases hwidth : payload.nameless.widest < 2 ^ 64
      · rw [inWord, if_pos hwidth, Option.bind_some]
        exact wireSizeOfCases_eq (Nat.max_lt.mpr ⟨hlargest, hwidth⟩) h.2
      · rw [inWord, inWord, if_neg hwidth, if_neg (by omega)]
        rfl

end

/-! ## Against the validator -/

/-- The payloads that the validator takes for the descriptor at a place of an image. -/
def Accepts (image : Bytes) (stop start : Nat) (payload : Bytes) : Prop :=
  ∃ last, decodeValueInner image stop payload 65 start 0 = .ok (last, payload.length)

theorem accepts_iff {image payload : Bytes} {stop start : Nat} {r : Image.Representation}
    (h : Image.Stands image stop 65 r start) :
    Accepts image stop start payload ↔ r.walk payload = some [] := by
  have hwalk := Image.validateValueInner_walk h (Nat.zero_le payload.length)
  rw [List.drop_zero] at hwalk
  simp only [Accepts, decodeValueInner_ok, hwalk, Option.map_eq_some_iff, Prod.mk.injEq]
  constructor
  · rintro ⟨last, rest, hrest, -, hlength⟩
    have hle := (Image.walk_suffix r hrest).length_le
    rw [hrest, List.length_eq_zero_iff.mp (by omega : rest.length = 0)]
  · exact fun hwhole => ⟨_, [], hwhole, rfl, rfl⟩

/-- **The wire size is the length of the longest payloads that the validator takes**, and there is
no answer only where that length does not fit a `usize`. -/
theorem maximumWireSize_exact {r : Representation} {path : String} {image descriptor : Bytes}
    {start stop : Nat} (hvalid : r.validate path = .ok ()) (hdepth : r.nameless.depth ≤ 65)
    (hencode : r.encode = some descriptor) (hstands : descriptor <+: image.drop start)
    (hinside : start + descriptor.length ≤ stop) :
    ∃ largest, IsGreatest
        {length | ∃ payload : Bytes, payload.length = length ∧ Accepts image stop start payload} largest ∧
      r.maximumWireSize = if largest < 2 ^ 64 then some largest else none := by
  obtain ⟨rfl, hcounted⟩ := encode_some hencode
  have htree := valid_of_validate hvalid hcounted
  have hstand : Image.Stands image stop 65 r.nameless start := ⟨htree, hdepth, hstands, hinside⟩
  refine ⟨r.nameless.widest, ?_, maximumWireSize_eq htree⟩
  simp only [accepts_iff hstand]
  exact htree.isGreatest

/-- A list of variants, in an image of its descriptor alone. -/
def boardRepresentation : Representation :=
  .list (.variant [("none", .unit), ("some", .record [("done", .boolean), ("title", .string 80)])]) 4

theorem maximumWireSize_exact_board : ∃ descriptor, boardRepresentation.encode = some descriptor ∧
    IsGreatest {length | ∃ payload : Bytes, payload.length = length ∧
      Accepts descriptor descriptor.length 0 payload} 396 := by
  have hencode : boardRepresentation.encode.isSome = true := by decide
  obtain ⟨descriptor, hdescriptor⟩ := Option.isSome_iff_exists.mp hencode
  have hvalid : boardRepresentation.validate "Board" = .ok () := by decide +kernel
  have hstands : descriptor <+: List.drop 0 descriptor := List.prefix_rfl
  obtain ⟨largest, hgreatest, hsize⟩ := maximumWireSize_exact hvalid (by decide) hdescriptor hstands
    (Nat.zero_add _).le
  refine ⟨descriptor, hdescriptor, ?_⟩
  have hcomputed : boardRepresentation.maximumWireSize = some 396 := by decide
  rw [hcomputed] at hsize
  split_ifs at hsize
  exact Option.some.inj hsize ▸ hgreatest

end Catalog

end Hermas
