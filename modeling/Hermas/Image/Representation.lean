import Hermas.Image.Facts

/-!
# Representations as trees

A descriptor is a representation written in preorder, and a value of the type is
what a walk along the tree takes off the front of a payload. The loader's two
walks over the bytes of an image are these: `validateRepresentation` finds a tree
where it ends (`representation_of_validate`), and `validateValueInner` takes the
tree's value off the payload (`validateValueInner_walk`). A walk does not look
behind the value (`walk_append`), so that a value may stand anywhere in another.
-/

namespace Hermas.Image

/-- `Representation`; the names of fields and cases do not survive into an image. -/
inductive Representation where
  | unit
  | integer
  | boolean
  | string (maximum : UInt32)
  | bytes (maximum : UInt32)
  | record (fields : List Representation)
  | list (element : Representation) (maximum : UInt16)
  | variant (cases : List Representation)

/-- One node of a descriptor. -/
def nodeBytes (kind : UInt8) (children : Nat) (bound : UInt32) : Bytes :=
  kind :: 0 :: (Bytes.writeU16 (UInt16.ofNat children) ++ Bytes.writeU32 bound)

mutual

/-- `encode_representation` -/
def encodeRepresentation : Representation → Bytes
  | .unit => nodeBytes 1 0 0
  | .integer => nodeBytes 2 0 0
  | .boolean => nodeBytes 3 0 0
  | .string maximum => nodeBytes 4 0 maximum
  | .bytes maximum => nodeBytes 5 0 maximum
  | .record fields => nodeBytes 6 fields.length 0 ++ encodeAll fields
  | .list element maximum => nodeBytes 7 1 maximum.toUInt32 ++ encodeRepresentation element
  | .variant cases => nodeBytes 8 cases.length 0 ++ encodeAll cases

def encodeAll : List Representation → Bytes
  | [] => []
  | child :: children => encodeRepresentation child ++ encodeAll children

end

mutual

def Representation.depth : Representation → Nat
  | .record fields => depthAll fields + 1
  | .list element _ => element.depth + 1
  | .variant cases => depthAll cases + 1
  | _ => 1

def depthAll : List Representation → Nat
  | [] => 0
  | child :: children => max child.depth (depthAll children)

end

mutual

/-- The bounds that a descriptor can state. -/
def Representation.Valid : Representation → Prop
  | .unit | .integer | .boolean => True
  | .string maximum | .bytes maximum => 1 ≤ maximum ∧ maximum ≤ 1048576
  | .record fields => fields.length < 65536 ∧ ValidAll fields
  | .list element maximum => 1 ≤ maximum ∧ maximum ≤ 256 ∧ element.Valid
  | .variant cases => cases ≠ [] ∧ cases.length < 65536 ∧ ValidAll cases

def ValidAll : List Representation → Prop
  | [] => True
  | child :: children => child.Valid ∧ ValidAll children

end

/-! ## Values -/

/-- The word in front of a string, a list or a variant, and what is behind its reserved one. -/
def takeHead (payload : Bytes) : Option (UInt32 × Bytes) :=
  if payload.length < 8 ∨ payload.readU32 4 ≠ 0 then none
  else some (payload.readU32 0, payload.drop 8)

/-- A bounded run of bytes; a text is UTF-8 without zeros. -/
def takeBytes (text : Bool) (maximum : UInt32) (payload : Bytes) : Option Bytes := do
  let (length, rest) ← takeHead payload
  if maximum < length ∨ rest.length < length.toNat ∨
      (text = true ∧ (!validUtf8 (rest.take length.toNat) ||
        (rest.take length.toNat).contains 0) = true) then none
  else some (rest.drop length.toNat)

mutual

/-- What is left of a payload behind a value of the representation. -/
def Representation.walk : Representation → Bytes → Option Bytes
  | .unit, payload => some payload
  | .integer, payload => if payload.length < 8 then none else some (payload.drop 8)
  | .boolean, payload =>
      match payload with
      | [] => none
      | value :: rest => if 1 < value then none else some rest
  | .string maximum, payload => takeBytes true maximum payload
  | .bytes maximum, payload => takeBytes false maximum payload
  | .record fields, payload => walkAll fields payload
  | .list element maximum, payload => do
      let (count, rest) ← takeHead payload
      if maximum.toUInt32 < count then none
      else (List.range count.toNat).foldlM (fun rest _ => element.walk rest) rest
  | .variant cases, payload => do
      let (tag, rest) ← takeHead payload
      walkCase cases tag.toNat rest

def walkAll : List Representation → Bytes → Option Bytes
  | [], payload => some payload
  | child :: children, payload => (child.walk payload).bind (walkAll children)

def walkCase : List Representation → Nat → Bytes → Option Bytes
  | [], _, _ => none
  | child :: _, 0, payload => child.walk payload
  | _ :: children, tag + 1, payload => walkCase children tag payload

end

/-! ## A walk looks at nothing behind the value -/

section Walk

variable {payload rest : Bytes}

theorem readU32_append {bytes : Bytes} {offset : Nat} (after : Bytes)
    (h : offset + 4 ≤ bytes.length) : (bytes ++ after).readU32 offset = bytes.readU32 offset := by
  rw [Bytes.readU32, Bytes.slice_append_left _ _ _ _ h, Bytes.readU32]

theorem takeHead_some {word : UInt32} : takeHead payload = some (word, rest) ↔
    8 ≤ payload.length ∧ payload.readU32 4 = 0 ∧ payload.readU32 0 = word ∧
      payload.drop 8 = rest := by
  unfold takeHead
  split
  · rename_i h
    simp only [reduceCtorEq, false_iff]
    rintro ⟨hlen, hzero, -⟩
    rcases h with h | h
    · omega
    · exact h hzero
  · rename_i h
    rw [not_or, not_not] at h
    simp only [Option.some.injEq, Prod.mk.injEq]
    constructor
    · rintro ⟨hword, hrest⟩
      exact ⟨Nat.not_lt.mp h.1, h.2, hword, hrest⟩
    · rintro ⟨-, -, hword, hrest⟩
      exact ⟨hword, hrest⟩

theorem takeHead_append {word : UInt32} (after : Bytes) (h : takeHead payload = some (word, rest)) :
    takeHead (payload ++ after) = some (word, rest ++ after) := by
  rw [takeHead_some] at h ⊢
  obtain ⟨hlen, hzero, hword, hrest⟩ := h
  refine ⟨by rw [List.length_append]; omega, ?_, ?_, ?_⟩
  · rw [readU32_append _ (by omega), hzero]
  · rw [readU32_append _ (by omega), hword]
  · rw [List.drop_append_of_le_length hlen, hrest]

theorem takeHead_suffix {word : UInt32} (h : takeHead payload = some (word, rest)) :
    rest <:+ payload := by
  rw [takeHead_some] at h
  exact h.2.2.2 ▸ List.drop_suffix 8 payload

theorem takeBytes_some {text : Bool} {maximum : UInt32} :
    takeBytes text maximum payload = some rest ↔ ∃ length behind,
      takeHead payload = some (length, behind) ∧ ¬ maximum < length ∧
        length.toNat ≤ behind.length ∧ ¬ (text = true ∧ (!validUtf8 (behind.take length.toNat) ||
          (behind.take length.toNat).contains 0) = true) ∧ behind.drop length.toNat = rest := by
  unfold takeBytes
  rw [Option.bind_eq_bind, Option.bind_eq_some_iff]
  constructor
  · rintro ⟨⟨length, behind⟩, hhead, h⟩
    simp only at h
    split at h
    · cases h
    · rename_i hgood
      simp only [not_or, Nat.not_lt] at hgood
      exact ⟨length, behind, hhead, hgood.1, hgood.2.1, hgood.2.2, Option.some.inj h⟩
  · rintro ⟨length, behind, hhead, hmax, hlen, htext, hrest⟩
    refine ⟨(length, behind), hhead, ?_⟩
    simp only
    rw [if_neg, hrest]
    rintro (h | h | h)
    · exact hmax h
    · omega
    · exact htext h

theorem takeBytes_append {text : Bool} {maximum : UInt32} (after : Bytes)
    (h : takeBytes text maximum payload = some rest) :
    takeBytes text maximum (payload ++ after) = some (rest ++ after) := by
  rw [takeBytes_some] at h ⊢
  obtain ⟨length, behind, hhead, hmax, hlen, htext, hrest⟩ := h
  refine ⟨length, behind ++ after, takeHead_append after hhead, hmax, ?_, ?_, ?_⟩
  · rw [List.length_append]
    omega
  · rwa [List.take_append_of_le_length hlen]
  · rw [List.drop_append_of_le_length hlen, hrest]

theorem takeBytes_suffix {text : Bool} {maximum : UInt32}
    (h : takeBytes text maximum payload = some rest) : rest <:+ payload := by
  rw [takeBytes_some] at h
  obtain ⟨length, behind, hhead, -, -, -, hrest⟩ := h
  exact (hrest ▸ List.drop_suffix _ behind).trans (takeHead_suffix hhead)

/-- A loop that takes values off the front keeps what its rounds keep. -/
theorem foldlM_take {f : Bytes → Option Bytes} {R : Bytes → Bytes → Prop} (hrefl : ∀ p, R p p)
    (htrans : ∀ {p q r}, R p q → R q r → R p r) (hf : ∀ p q, f p = some q → R p q)
    (rounds : List Nat) : ∀ {p q : Bytes}, rounds.foldlM (fun rest _ => f rest) p = some q →
      R p q := by
  induction rounds with
  | nil =>
      intro p q h
      rw [List.foldlM_nil] at h
      exact Option.some.inj h ▸ hrefl p
  | cons _ rounds ih =>
      intro p q h
      rw [List.foldlM_cons, Option.bind_eq_bind, Option.bind_eq_some_iff] at h
      obtain ⟨next, hnext, h⟩ := h
      exact htrans (hf p next hnext) (ih h)

theorem foldlM_append_after {f : Bytes → Option Bytes} (after : Bytes)
    (hf : ∀ p q, f p = some q → f (p ++ after) = some (q ++ after)) (rounds : List Nat) :
    ∀ {p q : Bytes}, rounds.foldlM (fun rest _ => f rest) p = some q →
      rounds.foldlM (fun rest _ => f rest) (p ++ after) = some (q ++ after) := by
  induction rounds with
  | nil =>
      intro p q h
      rw [List.foldlM_nil] at h ⊢
      exact Option.some.inj h ▸ rfl
  | cons _ rounds ih =>
      intro p q h
      rw [List.foldlM_cons, Option.bind_eq_bind, Option.bind_eq_some_iff] at h
      obtain ⟨next, hnext, h⟩ := h
      rw [List.foldlM_cons, Option.bind_eq_bind, hf p next hnext]
      exact ih h

mutual

/-- **What stands behind a value does not matter to its walk.** -/
theorem walk_append (after : Bytes) : ∀ (r : Representation) {payload rest : Bytes},
    r.walk payload = some rest → r.walk (payload ++ after) = some (rest ++ after)
  | .unit, payload, rest, h => by
      rw [Representation.walk] at h ⊢
      rw [Option.some.inj h]
  | .integer, payload, rest, h => by
      rw [Representation.walk] at h ⊢
      split at h
      · cases h
      · rename_i hlen
        rw [if_neg (by rw [List.length_append]; omega),
          List.drop_append_of_le_length (by omega), Option.some.inj h]
  | .boolean, payload, rest, h => by
      cases payload with
      | nil => cases h
      | cons value behind =>
          simp only [Representation.walk, List.cons_append] at h ⊢
          split at h
          · cases h
          · rename_i hvalue
            rw [if_neg hvalue, Option.some.inj h]
  | .string maximum, payload, rest, h => by
      rw [Representation.walk] at h ⊢
      exact takeBytes_append after h
  | .bytes maximum, payload, rest, h => by
      rw [Representation.walk] at h ⊢
      exact takeBytes_append after h
  | .record fields, payload, rest, h => by
      rw [Representation.walk] at h ⊢
      exact walkAll_append after fields h
  | .list element maximum, payload, rest, h => by
      rw [Representation.walk, Option.bind_eq_bind, Option.bind_eq_some_iff] at h ⊢
      obtain ⟨⟨count, behind⟩, hhead, h⟩ := h
      refine ⟨(count, behind ++ after), takeHead_append after hhead, ?_⟩
      simp only at h ⊢
      split at h
      · cases h
      · rename_i hcount
        rw [if_neg hcount]
        exact foldlM_append_after after (fun p q hp => walk_append after element hp) _ h
  | .variant cases, payload, rest, h => by
      rw [Representation.walk, Option.bind_eq_bind, Option.bind_eq_some_iff] at h ⊢
      obtain ⟨⟨tag, behind⟩, hhead, h⟩ := h
      exact ⟨(tag, behind ++ after), takeHead_append after hhead,
        walkCase_append after cases tag.toNat h⟩

theorem walkAll_append (after : Bytes) : ∀ (children : List Representation) {payload rest : Bytes},
    walkAll children payload = some rest → walkAll children (payload ++ after) = some (rest ++ after)
  | [], payload, rest, h => by
      rw [walkAll] at h ⊢
      rw [Option.some.inj h]
  | child :: children, payload, rest, h => by
      rw [walkAll, Option.bind_eq_some_iff] at h ⊢
      obtain ⟨behind, hchild, h⟩ := h
      exact ⟨behind ++ after, walk_append after child hchild, walkAll_append after children h⟩

theorem walkCase_append (after : Bytes) : ∀ (cases : List Representation) (tag : Nat)
    {payload rest : Bytes}, walkCase cases tag payload = some rest →
      walkCase cases tag (payload ++ after) = some (rest ++ after)
  | [], tag, payload, rest, h => by
      rw [walkCase] at h
      cases h
  | child :: children, 0, payload, rest, h => by
      rw [walkCase] at h ⊢
      exact walk_append after child h
  | child :: children, tag + 1, payload, rest, h => by
      rw [walkCase] at h ⊢
      exact walkCase_append after children tag h

end

mutual

/-- A walk only ever drops bytes. -/
theorem walk_suffix : ∀ (r : Representation) {payload rest : Bytes},
    r.walk payload = some rest → rest <:+ payload
  | .unit, payload, rest, h => by
      rw [Representation.walk] at h
      exact Option.some.inj h ▸ List.suffix_refl payload
  | .integer, payload, rest, h => by
      rw [Representation.walk] at h
      split at h
      · cases h
      · exact Option.some.inj h ▸ List.drop_suffix 8 payload
  | .boolean, payload, rest, h => by
      cases payload with
      | nil => cases h
      | cons value behind =>
          simp only [Representation.walk] at h
          split at h
          · cases h
          · exact Option.some.inj h ▸ List.suffix_cons value behind
  | .string maximum, payload, rest, h => by
      rw [Representation.walk] at h
      exact takeBytes_suffix h
  | .bytes maximum, payload, rest, h => by
      rw [Representation.walk] at h
      exact takeBytes_suffix h
  | .record fields, payload, rest, h => by
      rw [Representation.walk] at h
      exact walkAll_suffix fields h
  | .list element maximum, payload, rest, h => by
      rw [Representation.walk, Option.bind_eq_bind, Option.bind_eq_some_iff] at h
      obtain ⟨⟨count, behind⟩, hhead, h⟩ := h
      simp only at h
      split at h
      · cases h
      · have hitems : rest <:+ behind := foldlM_take (R := fun p q => q <:+ p) List.suffix_refl
          (fun hpq hqr => hqr.trans hpq) (fun p q hp => walk_suffix element hp) _ h
        exact hitems.trans (takeHead_suffix hhead)
  | .variant cases, payload, rest, h => by
      rw [Representation.walk, Option.bind_eq_bind, Option.bind_eq_some_iff] at h
      obtain ⟨⟨tag, behind⟩, hhead, h⟩ := h
      exact (walkCase_suffix cases tag.toNat h).trans (takeHead_suffix hhead)

theorem walkAll_suffix : ∀ (children : List Representation) {payload rest : Bytes},
    walkAll children payload = some rest → rest <:+ payload
  | [], payload, rest, h => by
      rw [walkAll] at h
      exact Option.some.inj h ▸ List.suffix_refl payload
  | child :: children, payload, rest, h => by
      rw [walkAll, Option.bind_eq_some_iff] at h
      obtain ⟨behind, hchild, h⟩ := h
      exact (walkAll_suffix children h).trans (walk_suffix child hchild)

theorem walkCase_suffix : ∀ (cases : List Representation) (tag : Nat) {payload rest : Bytes},
    walkCase cases tag payload = some rest → rest <:+ payload
  | [], tag, payload, rest, h => by
      rw [walkCase] at h
      cases h
  | child :: children, 0, payload, rest, h => by
      rw [walkCase] at h
      exact walk_suffix child h
  | child :: children, tag + 1, payload, rest, h => by
      rw [walkCase] at h
      exact walkCase_suffix children tag h

end

end Walk

/-! ## Descriptors -/

section Descriptor

variable {bytes : Bytes} {start stop : Nat}

theorem readU8_drop (bytes : Bytes) (start offset : Nat) :
    bytes.readU8 (start + offset) = Bytes.readU8 (bytes.drop start) offset := by
  simp [Bytes.readU8, List.getD_eq_getElem?_getD]

theorem slice_drop (offset count : Nat) :
    bytes.slice (start + offset) count = Bytes.slice (bytes.drop start) offset count := by
  simp [Bytes.slice]

theorem readU16_drop (bytes : Bytes) (start offset : Nat) :
    bytes.readU16 (start + offset) = Bytes.readU16 (bytes.drop start) offset := by
  rw [Bytes.readU16, slice_drop, Bytes.readU16]

theorem readU32_drop (bytes : Bytes) (start offset : Nat) :
    bytes.readU32 (start + offset) = Bytes.readU32 (bytes.drop start) offset := by
  rw [Bytes.readU32, slice_drop, Bytes.readU32]

/-- What a node of a descriptor is read as. -/
theorem node_read {kind : UInt8} {children : Nat} {bound : UInt32}
    (h : nodeBytes kind children bound <+: bytes.drop start) :
    bytes.readU8 start = kind ∧ bytes.readU8 (start + 1) = 0 ∧
      bytes.readU16 (start + 2) = UInt16.ofNat children ∧ bytes.readU32 (start + 4) = bound := by
  obtain ⟨behind, hbytes⟩ := h
  have hkind := readU8_drop bytes start 0
  have hreserved := readU8_drop bytes start 1
  have hchildren := readU16_drop bytes start 2
  have hbound := readU32_drop bytes start 4
  rw [← hbytes] at hkind hreserved hchildren hbound
  refine ⟨hkind, hreserved, ?_, ?_⟩
  · rw [hchildren, nodeBytes]
    simp only [List.cons_append, List.append_assoc]
    exact Bytes.readU16_here _ _
  · rw [hbound, nodeBytes]
    simp only [List.cons_append, List.append_assoc]
    exact (Bytes.readU32_skip (Bytes.writeU16 (UInt16.ofNat children))
      (Bytes.writeU32 bound ++ behind) 2 (by simp)).trans (Bytes.readU32_here bound behind)

/-- Eight bytes with a zero in second place are the node that is read there. -/
theorem node_stands (hlen : start + 8 ≤ bytes.length) (hreserved : bytes.readU8 (start + 1) = 0) :
    nodeBytes (bytes.readU8 start) (bytes.readU16 (start + 2)).toNat (bytes.readU32 (start + 4)) =
      bytes.slice start 8 := by
  have hchildren : Bytes.writeU16 (UInt16.ofNat (bytes.readU16 (start + 2)).toNat) =
      bytes.slice (start + 2) 2 := by
    rw [UInt16.ofNat_toNat, Bytes.writeU16_readU16 _ _ (by omega)]
  have hbound : Bytes.writeU32 (bytes.readU32 (start + 4)) = bytes.slice (start + 4) 4 :=
    Bytes.writeU32_readU32 _ _ (by omega)
  have hsplit : bytes.slice start 8 =
      bytes.readU8 start :: bytes.readU8 (start + 1) ::
        (bytes.slice (start + 2) 2 ++ bytes.slice (start + 4) 4) := by
    have hrest : 8 ≤ (bytes.drop start).length := by
      rw [List.length_drop]
      omega
    have hkind := readU8_drop bytes start 0
    rw [Nat.add_zero] at hkind
    rw [hkind, readU8_drop, slice_drop, slice_drop, Bytes.slice]
    generalize bytes.drop start = rest at hrest
    cases rest with
    | nil => simp at hrest
    | cons kind rest =>
        cases rest with
        | nil => simp at hrest
        | cons reserved rest =>
            have hsix : rest.take 6 = rest.take 2 ++ (rest.drop 2).take 4 := by
              rw [show 6 = 2 + 4 from rfl, List.take_add]
            simp [Bytes.slice, Bytes.readU8, hsix]
  rw [hsplit, nodeBytes, hreserved, hchildren, hbound]

@[simp] theorem length_nodeBytes (kind : UInt8) (children : Nat) (bound : UInt32) :
    (nodeBytes kind children bound).length = 8 := by
  simp [nodeBytes]

/-- Pieces that stand one behind the other. -/
theorem stands_append {a b : Bytes} :
    a ++ b <+: bytes.drop start ↔ a <+: bytes.drop start ∧ b <+: bytes.drop (start + a.length) := by
  rw [← List.drop_drop]
  constructor
  · rintro ⟨behind, h⟩
    rw [List.append_assoc] at h
    refine ⟨⟨_, h⟩, behind, ?_⟩
    rw [← h, List.drop_left]
  · rintro ⟨⟨behind, h⟩, ⟨rest, hrest⟩⟩
    rw [← h, List.drop_left] at hrest
    exact ⟨rest, by rw [List.append_assoc, hrest, h]⟩

/-- Descriptors read one after the other are a list of trees. -/
theorem representations_of_rounds {levels : Nat}
    (ih : ∀ start last, validateRepresentation bytes stop levels start = some last →
      ∃ r : Representation, r.Valid ∧ r.depth ≤ levels ∧
        encodeRepresentation r <+: bytes.drop start ∧
        last = start + (encodeRepresentation r).length ∧ last ≤ stop) (rounds : List Nat) :
    ∀ {start last : Nat}, start ≤ stop →
      rounds.foldlM (fun cursor _ => validateRepresentation bytes stop levels cursor) start =
        some last →
      ∃ rs : List Representation, rs.length = rounds.length ∧ ValidAll rs ∧ depthAll rs ≤ levels ∧
        encodeAll rs <+: bytes.drop start ∧ last = start + (encodeAll rs).length ∧
        last ≤ stop := by
  induction rounds with
  | nil =>
      intro start last hstart h
      rw [List.foldlM_nil] at h
      obtain rfl := Option.some.inj h
      exact ⟨[], rfl, trivial, Nat.zero_le _, List.nil_prefix, rfl, hstart⟩
  | cons _ rounds ihRounds =>
      intro start last hstart h
      rw [List.foldlM_cons, Option.bind_eq_bind, Option.bind_eq_some_iff] at h
      obtain ⟨next, hnext, h⟩ := h
      obtain ⟨r, hvalid, hdepth, hstands, rfl, hle⟩ := ih start next hnext
      obtain ⟨rs, hlen, hvalids, hdepths, hrest, hlast, hle⟩ := ihRounds hle h
      refine ⟨r :: rs, by rw [List.length_cons, List.length_cons, hlen], ⟨hvalid, hvalids⟩,
        Nat.max_le.mpr ⟨hdepth, hdepths⟩, ?_, ?_, hle⟩
      · rw [encodeAll]
        exact stands_append.mpr ⟨hstands, hrest⟩
      · rw [encodeAll, List.length_append]
        omega

theorem kind_small {kind : UInt8} (h1 : 1 ≤ kind) (h3 : kind ≤ 3) :
    kind = 1 ∨ kind = 2 ∨ kind = 3 := by
  rw [UInt8.le_iff_toNat_le] at h1 h3
  simp only [← UInt8.toNat_inj]
  simp at h1 h3 ⊢
  omega

/-- A list bound fits the sixteen bits that the compiler has for it. -/
theorem list_bound {bound : UInt32} (h1 : 1 ≤ bound) (h256 : bound ≤ 256) :
    bound.toUInt16.toUInt32 = bound ∧ 1 ≤ bound.toUInt16 ∧ bound.toUInt16 ≤ 256 := by
  rw [UInt32.le_iff_toNat_le] at h1 h256
  rw [← UInt32.toNat_inj, UInt16.le_iff_toNat_le, UInt16.le_iff_toNat_le]
  simp at h1 h256 ⊢
  omega

/-- **A descriptor that the loader accepts is a tree in preorder.** -/
theorem representation_of_validate (hstop : stop ≤ bytes.length) : ∀ {levels start last : Nat},
    validateRepresentation bytes stop levels start = some last →
      ∃ r : Representation, r.Valid ∧ r.depth ≤ levels ∧
        encodeRepresentation r <+: bytes.drop start ∧
        last = start + (encodeRepresentation r).length ∧ last ≤ stop := by
  intro levels
  induction levels with
  | zero => intro start last h; cases h
  | succ levels ih =>
      intro start last h
      rw [validateRepresentation] at h
      split at h
      · cases h
      rename_i hroom
      simp only at h
      split at h
      swap
      · cases h
      rename_i hnode
      obtain ⟨rs, hlen, hvalids, hdepths, hrest, hlast, hle⟩ :=
        representations_of_rounds (fun _ _ => ih) _ (by omega) h
      rw [List.length_range] at hlen
      simp only [validNode, Bool.and_eq_true, Bool.or_eq_true, beq_iff_eq, decide_eq_true_eq,
        bne_iff_ne, ne_eq] at hnode
      obtain ⟨hreserved, hnode⟩ := hnode
      -- The eight bytes of the node, whatever its kind.
      have hstands : nodeBytes (bytes.readU8 start) (bytes.readU16 (start + 2)).toNat
          (bytes.readU32 (start + 4)) <+: bytes.drop start := by
        rw [node_stands (by omega) hreserved]
        exact List.take_prefix 8 _
      have hsmall : rs.length < 65536 := hlen ▸ (bytes.readU16 (start + 2)).toNat_lt
      -- A node without children is all there is.
      have hleaf : ∀ r : Representation, bytes.readU16 (start + 2) = 0 →
          encodeRepresentation r = nodeBytes (bytes.readU8 start) 0 (bytes.readU32 (start + 4)) →
          r.Valid → r.depth = 1 → ∃ r : Representation, r.Valid ∧ r.depth ≤ levels + 1 ∧
            encodeRepresentation r <+: bytes.drop start ∧
            last = start + (encodeRepresentation r).length ∧ last ≤ stop := by
        intro r hzero hencode hvalid hdepth
        rw [hzero] at hlen hstands
        obtain rfl := List.length_eq_zero_iff.mp hlen
        refine ⟨r, hvalid, by omega, hencode ▸ hstands, ?_, hle⟩
        rw [hencode, length_nodeBytes, hlast, encodeAll, List.length_nil]
      rcases hnode with (((hnode | hnode) | hnode) | hnode) | hnode
      · obtain ⟨⟨⟨h1, h3⟩, hzero⟩, hbound⟩ := hnode
        rcases kind_small h1 h3 with hkind | hkind | hkind
        · exact hleaf .unit hzero (by rw [hkind, hbound]; rfl) trivial rfl
        · exact hleaf .integer hzero (by rw [hkind, hbound]; rfl) trivial rfl
        · exact hleaf .boolean hzero (by rw [hkind, hbound]; rfl) trivial rfl
      · obtain ⟨⟨⟨hkind, hzero⟩, hmin⟩, hmax⟩ := hnode
        rcases hkind with hkind | hkind
        · exact hleaf (.string _) hzero (by rw [hkind]; rfl) ⟨hmin, hmax⟩ rfl
        · exact hleaf (.bytes _) hzero (by rw [hkind]; rfl) ⟨hmin, hmax⟩ rfl
      · obtain ⟨hkind, hbound⟩ := hnode
        refine ⟨.record rs, ⟨hsmall, hvalids⟩, by rw [Representation.depth]; omega, ?_, ?_, hle⟩
        · rw [encodeRepresentation, stands_append, length_nodeBytes, hlen, ← hkind, ← hbound]
          exact ⟨hstands, hrest⟩
        · rw [encodeRepresentation, List.length_append, length_nodeBytes]
          omega
      · obtain ⟨⟨⟨hkind, hone⟩, hmin⟩, hmax⟩ := hnode
        rw [hone] at hlen
        obtain ⟨element, rfl⟩ := List.length_eq_one_iff.mp hlen
        obtain ⟨hmaximum, hlow, hhigh⟩ := list_bound hmin hmax
        refine ⟨.list element (bytes.readU32 (start + 4)).toUInt16, ⟨hlow, hhigh, hvalids.1⟩, ?_,
          ?_, ?_, hle⟩
        · rw [depthAll, depthAll, Nat.max_zero] at hdepths
          rw [Representation.depth]
          omega
        · rw [encodeAll, encodeAll, List.append_nil] at hrest
          rw [hkind, hone] at hstands
          rw [encodeRepresentation, hmaximum, stands_append, length_nodeBytes]
          exact ⟨hstands, hrest⟩
        · rw [encodeAll, encodeAll, List.append_nil] at hlast
          rw [encodeRepresentation, List.length_append, length_nodeBytes]
          omega
      · obtain ⟨⟨hkind, hsome⟩, hbound⟩ := hnode
        have hne : rs ≠ [] := by
          rintro rfl
          apply hsome
          rw [← UInt16.toNat_inj, ← hlen]
          rfl
        refine ⟨.variant rs, ⟨hne, hsmall, hvalids⟩, by rw [Representation.depth]; omega, ?_, ?_,
          hle⟩
        · rw [encodeRepresentation, stands_append, length_nodeBytes, hlen, ← hkind, ← hbound]
          exact ⟨hstands, hrest⟩
        · rw [encodeRepresentation, List.length_append, length_nodeBytes]
          omega

/-! ## The two walks of the loader -/

namespace Representation

/-- `(kind, children, bound)` of `encode_representation` -/
def kind : Representation → UInt8
  | .unit => 1
  | .integer => 2
  | .boolean => 3
  | .string _ => 4
  | .bytes _ => 5
  | .record _ => 6
  | .list _ _ => 7
  | .variant _ => 8

def children : Representation → List Representation
  | .record fields => fields
  | .list element _ => [element]
  | .variant cases => cases
  | _ => []

def bound : Representation → UInt32
  | .string maximum | .bytes maximum => maximum
  | .list _ maximum => maximum.toUInt32
  | _ => 0

end Representation

theorem encode_eq (r : Representation) : encodeRepresentation r =
    nodeBytes r.kind r.children.length r.bound ++ encodeAll r.children := by
  cases r <;> simp [encodeRepresentation, encodeAll, Representation.kind, Representation.children,
    Representation.bound]

theorem depth_eq (r : Representation) : r.depth = depthAll r.children + 1 := by
  cases r <;> simp [Representation.depth, depthAll, Representation.children]

theorem Representation.Valid.node {r : Representation} (h : r.Valid) :
    validNode r.kind 0 (UInt16.ofNat r.children.length) r.bound = true ∧
      r.children.length < 65536 ∧ ValidAll r.children := by
  cases r with
  | unit | integer | boolean => exact ⟨by decide, by decide, trivial⟩
  | string maximum | bytes maximum =>
      obtain ⟨hmin, hmax⟩ := h
      refine ⟨?_, by simp [Representation.children], trivial⟩
      simp [validNode, Representation.kind, Representation.children, Representation.bound, hmin,
        hmax]
  | record fields =>
      exact ⟨by simp [validNode, Representation.kind, Representation.bound], h.1, h.2⟩
  | list element maximum =>
      obtain ⟨hmin, hmax, helement⟩ := h
      refine ⟨?_, by simp [Representation.children], helement, trivial⟩
      rw [UInt16.le_iff_toNat_le] at hmin hmax
      have hlow : (1 : UInt32) ≤ maximum.toUInt32 := by
        rw [UInt32.le_iff_toNat_le]
        simpa using hmin
      have hhigh : maximum.toUInt32 ≤ 256 := by
        rw [UInt32.le_iff_toNat_le]
        simpa using hmax
      simp [validNode, Representation.kind, Representation.children, Representation.bound, hlow,
        hhigh]
  | variant cases =>
      obtain ⟨hne, hsmall, hvalids⟩ := h
      refine ⟨?_, hsmall, hvalids⟩
      have hcount : UInt16.ofNat cases.length ≠ 0 := by
        intro hzero
        have hlen : cases.length % 65536 = 0 := by
          have := congrArg UInt16.toNat hzero
          simpa using this
        rw [Nat.mod_eq_of_lt hsmall] at hlen
        exact hne (List.length_eq_zero_iff.mp hlen)
      simp [validNode, Representation.kind, Representation.children, Representation.bound, hcount]

/-- A tree stands in the image, in front of the end of the descriptors. -/
structure Stands (bytes : Bytes) (stop levels : Nat) (r : Representation) (start : Nat) : Prop where
  valid : r.Valid
  depth : r.depth ≤ levels
  stands : encodeRepresentation r <+: bytes.drop start
  inside : start + (encodeRepresentation r).length ≤ stop

/-- So do trees one behind the other. -/
structure StandAll (bytes : Bytes) (stop levels : Nat) (rs : List Representation)
    (start : Nat) : Prop where
  valid : ValidAll rs
  depth : depthAll rs ≤ levels
  stands : encodeAll rs <+: bytes.drop start
  inside : start + (encodeAll rs).length ≤ stop

section Stands

variable {levels : Nat} {r : Representation} {rs : List Representation}

theorem Stands.node (h : Stands bytes stop levels r start) :
    bytes.readU8 start = r.kind ∧ bytes.readU8 (start + 1) = 0 ∧
      bytes.readU16 (start + 2) = UInt16.ofNat r.children.length ∧
      bytes.readU32 (start + 4) = r.bound := by
  have hstands := h.stands
  rw [encode_eq, stands_append] at hstands
  exact node_read hstands.1

theorem Stands.childCount (h : Stands bytes stop levels r start) :
    (bytes.readU16 (start + 2)).toNat = r.children.length := by
  rw [h.node.2.2.1, UInt16.toNat_ofNat', Nat.mod_eq_of_lt h.valid.node.2.1]

theorem Stands.children (h : Stands bytes stop (levels + 1) r start) :
    StandAll bytes stop levels r.children (start + 8) := by
  have hstands := h.stands
  have hinside := h.inside
  have hdepth := h.depth
  rw [encode_eq, stands_append, length_nodeBytes] at hstands
  rw [encode_eq, List.length_append, length_nodeBytes] at hinside
  rw [depth_eq] at hdepth
  exact ⟨h.valid.node.2.2, by omega, hstands.2, by omega⟩

/-- There is room for the node. -/
theorem Stands.room (h : Stands bytes stop levels r start) :
    ¬ (stop < start ∨ stop - start < 8) := by
  have hinside := h.inside
  rw [encode_eq, List.length_append, length_nodeBytes] at hinside
  omega

theorem Stands.end_eq (r : Representation) : start + (encodeRepresentation r).length =
    start + 8 + (encodeAll r.children).length := by
  rw [encode_eq, List.length_append, length_nodeBytes]
  omega

theorem StandAll.head {child : Representation} {children : List Representation}
    (h : StandAll bytes stop levels (child :: children) start) :
    Stands bytes stop levels child start := by
  have hstands := h.stands
  have hinside := h.inside
  rw [encodeAll, stands_append] at hstands
  rw [encodeAll, List.length_append] at hinside
  exact ⟨h.valid.1, (Nat.le_max_left _ _).trans h.depth, hstands.1, by omega⟩

theorem StandAll.tail {child : Representation} {children : List Representation}
    (h : StandAll bytes stop levels (child :: children) start) :
    StandAll bytes stop levels children (start + (encodeRepresentation child).length) := by
  have hstands := h.stands
  have hinside := h.inside
  rw [encodeAll, stands_append] at hstands
  rw [encodeAll, List.length_append] at hinside
  exact ⟨h.valid.2, (Nat.le_max_right _ _).trans h.depth, hstands.2, by omega⟩

/-- The first walk gets to the end of a tree that stands there. -/
theorem Stands.validate : ∀ {levels : Nat} {r : Representation} {start : Nat},
    Stands bytes stop levels r start →
      validateRepresentation bytes stop levels start =
        some (start + (encodeRepresentation r).length) := by
  intro levels
  induction levels with
  | zero =>
      intro r start h
      have := h.depth
      rw [depth_eq] at this
      omega
  | succ levels ih =>
      intro r start h
      have hrounds : ∀ (rounds : List Nat) {rs : List Representation} {start : Nat},
          rounds.length = rs.length → StandAll bytes stop levels rs start →
          rounds.foldlM (fun cursor _ => validateRepresentation bytes stop levels cursor) start =
            some (start + (encodeAll rs).length) := by
        intro rounds
        induction rounds with
        | nil =>
            intro rs start hlen _
            obtain rfl := List.length_eq_zero_iff.mp hlen.symm
            rfl
        | cons _ rounds ihRounds =>
            intro rs start hlen hall
            cases rs with
            | nil => cases hlen
            | cons child children =>
                rw [List.foldlM_cons, ih hall.head, Option.bind_eq_bind, Option.bind_some,
                  ihRounds (Nat.succ.inj hlen) hall.tail, encodeAll, List.length_append,
                  Nat.add_assoc]
      rw [validateRepresentation, if_neg h.room]
      obtain ⟨hkind, hreserved, hchildren, hbound⟩ := h.node
      simp only
      rw [if_pos (by rw [hkind, hreserved, hchildren, hbound]; exact h.valid.node.1),
        hrounds _ (by rw [List.length_range, h.childCount]) h.children, Stands.end_eq]

/-! ### Values -/

variable {payload : Bytes}

/-- Where a cursor is that has this much of the payload in front of it. -/
theorem drop_cursor {rest : Bytes} (h : rest <:+ payload) :
    payload.drop (payload.length - rest.length) = rest := by
  obtain ⟨before, rfl⟩ := h
  rw [List.length_append, Nat.add_sub_cancel, List.drop_left]

theorem payloadHead_eq {cursor : Nat} (hcursor : cursor ≤ payload.length) :
    payloadHead payload cursor = (takeHead (payload.drop cursor)).map Prod.fst := by
  have hlen : (payload.drop cursor).length = payload.length - cursor := List.length_drop
  have hword := readU32_drop payload cursor 0
  rw [Nat.add_zero] at hword
  have hreserved := readU32_drop payload cursor 4
  unfold payloadHead payloadU32 takeHead
  rw [hlen, hword, hreserved]
  have hfirst : (payload.length < cursor ∨ payload.length - cursor < 4) ↔
      payload.length - cursor < 4 := by omega
  have hsecond : (payload.length < cursor + 4 ∨ payload.length - (cursor + 4) < 4) ↔
      payload.length - cursor < 8 := by omega
  simp only [hfirst, hsecond]
  by_cases hroom : payload.length - cursor < 8
  · by_cases hshort : payload.length - cursor < 4 <;> simp [hroom, hshort]
  · have hlong : ¬ payload.length - cursor < 4 := by omega
    by_cases hzero : Bytes.readU32 (payload.drop cursor) 4 = 0 <;> simp [hroom, hlong, hzero]

/-- The loader's walk over a value is the walk along the tree, one level down. -/
def ValueWalks (bytes : Bytes) (stop : Nat) (payload : Bytes) (levels : Nat) : Prop :=
  ∀ {r : Representation} {start cursor : Nat}, Stands bytes stop levels r start →
    cursor ≤ payload.length →
    validateValueInner bytes stop payload levels start cursor =
      (r.walk (payload.drop cursor)).map fun rest =>
        (start + (encodeRepresentation r).length, payload.length - rest.length)

section Rounds

variable (ih : ValueWalks bytes stop payload levels)

include ih

/-- A record: child by child. -/
theorem walkAll_rounds (rounds : List Nat) : ∀ {rs : List Representation} {start cursor : Nat},
    rounds.length = rs.length → StandAll bytes stop levels rs start → cursor ≤ payload.length →
    rounds.foldlM (fun cursors _ => validateValueInner bytes stop payload levels cursors.1 cursors.2)
        (start, cursor) =
      (walkAll rs (payload.drop cursor)).map fun rest =>
        (start + (encodeAll rs).length, payload.length - rest.length) := by
  induction rounds with
  | nil =>
      intro rs start cursor hlen _ hcursor
      obtain rfl := List.length_eq_zero_iff.mp hlen.symm
      rw [List.foldlM_nil, walkAll, Option.map_some, List.length_drop, encodeAll, List.length_nil]
      have : payload.length - (payload.length - cursor) = cursor := by omega
      rw [this]
      rfl
  | cons _ rounds ihRounds =>
      intro rs start cursor hlen hall hcursor
      cases rs with
      | nil => cases hlen
      | cons child children =>
          rw [List.foldlM_cons, ih hall.head hcursor, walkAll]
          cases hchild : child.walk (payload.drop cursor) with
          | none => rfl
          | some rest =>
              have hsuffix := (walk_suffix child hchild).trans (List.drop_suffix cursor payload)
              rw [Option.map_some, Option.bind_eq_bind, Option.bind_some,
                ihRounds (Nat.succ.inj hlen) hall.tail (Nat.sub_le _ _), drop_cursor hsuffix,
                Option.bind_some, encodeAll, List.length_append, Nat.add_assoc]

/-- A list: the same child for every item. -/
theorem list_rounds {element : Representation} {start : Nat}
    (hstands : Stands bytes stop levels element start) (rounds : List Nat) : ∀ {cursor : Nat},
    cursor ≤ payload.length →
    rounds.foldlM (fun cursor _ =>
        (validateValueInner bytes stop payload levels start cursor).bind fun next =>
          if next.1 = start + (encodeRepresentation element).length then some next.2 else none)
        cursor =
      (rounds.foldlM (fun rest _ => element.walk rest) (payload.drop cursor)).map fun rest =>
        payload.length - rest.length := by
  induction rounds with
  | nil =>
      intro cursor hcursor
      rw [List.foldlM_nil, List.foldlM_nil]
      simp only [Option.pure_def, Option.map_some, List.length_drop, Option.some.injEq]
      omega
  | cons _ rounds ihRounds =>
      intro cursor hcursor
      rw [List.foldlM_cons, List.foldlM_cons, ih hstands hcursor]
      cases hchild : element.walk (payload.drop cursor) with
      | none => rfl
      | some rest =>
          have hsuffix := (walk_suffix element hchild).trans (List.drop_suffix cursor payload)
          simp only [Option.map_some, Option.bind_eq_bind, Option.bind_some, if_true]
          rw [ihRounds (Nat.sub_le _ _), drop_cursor hsuffix]

/-- A variant: the value under its tag, the descriptors of the others. -/
theorem walkCase_rounds {tag : Nat} : ∀ {rs : List Representation} {base start cursor : Nat},
    StandAll bytes stop levels rs start → cursor ≤ payload.length →
    (List.range' base rs.length).foldlM (fun cursors child =>
        if child = tag then validateValueInner bytes stop payload levels cursors.1 cursors.2
        else (validateRepresentation bytes stop levels cursors.1).map fun next => (next, cursors.2))
        (start, cursor) =
      if base ≤ tag ∧ tag < base + rs.length then
        (walkCase rs (tag - base) (payload.drop cursor)).map fun rest =>
          (start + (encodeAll rs).length, payload.length - rest.length)
      else some (start + (encodeAll rs).length, cursor) := by
  intro rs
  induction rs with
  | nil =>
      intro base start cursor _ _
      rw [if_neg (by rw [List.length_nil]; omega)]
      rfl
  | cons child children ihRounds =>
      intro base start cursor hall hcursor
      rw [List.length_cons, List.range'_succ, List.foldlM_cons]
      by_cases hhere : base = tag
      · subst hhere
        rw [if_pos rfl, if_pos ⟨Nat.le_refl _, by omega⟩, ih hall.head hcursor, Nat.sub_self,
          walkCase]
        cases hchild : child.walk (payload.drop cursor) with
        | none => rfl
        | some rest =>
            simp only [Option.map_some, Option.bind_eq_bind, Option.bind_some]
            rw [ihRounds hall.tail (Nat.sub_le _ _), if_neg (by omega), encodeAll,
              List.length_append, Nat.add_assoc]
      · rw [if_neg hhere, hall.head.validate]
        simp only [Option.map_some, Option.bind_eq_bind, Option.bind_some]
        rw [ihRounds hall.tail hcursor]
        by_cases hlater : base ≤ tag ∧ tag < base + (children.length + 1)
        · obtain ⟨further, hfurther⟩ : ∃ further, tag - base = further + 1 :=
            ⟨tag - base - 1, by omega⟩
          have hnext : tag - (base + 1) = further := by omega
          rw [if_pos (by omega), if_pos hlater, hfurther, hnext, walkCase, encodeAll,
            List.length_append, Nat.add_assoc]
        · rw [if_neg (by omega), if_neg hlater, encodeAll, List.length_append, Nat.add_assoc]

end Rounds

/-- A bounded run of bytes in the payload. -/
theorem takeBytes_eq {text : Bool} {maximum : UInt32} {cursor after : Nat}
    (hcursor : cursor ≤ payload.length) :
    ((payloadHead payload cursor).bind fun length =>
      if maximum < length ∨ payload.length - 8 < cursor ∨
          payload.length - (cursor + 8) < length.toNat then none
      else if text = true ∧ (!validUtf8 (payload.slice (cursor + 8) length.toNat) ||
          (payload.slice (cursor + 8) length.toNat).contains 0) = true then none
      else some (after, cursor + 8 + length.toNat)) =
    (takeBytes text maximum (payload.drop cursor)).map fun rest =>
      (after, payload.length - rest.length) := by
  rw [payloadHead_eq hcursor]
  unfold takeBytes
  cases hhead : takeHead (payload.drop cursor) with
  | none => rfl
  | some head =>
      obtain ⟨length, behind⟩ := head
      obtain ⟨hroom, -, -, hbehind⟩ := takeHead_some.mp hhead
      rw [List.length_drop] at hroom
      have hdata : payload.slice (cursor + 8) length.toNat = behind.take length.toNat := by
        rw [slice_drop, ← hbehind]
        rfl
      have hlen : behind.length = payload.length - (cursor + 8) := by
        rw [← hbehind, List.length_drop, List.length_drop]
        omega
      have hfits : payload.length - 8 < cursor ↔ False := by
        constructor
        · intro h
          omega
        · exact False.elim
      simp only [Option.map_some, Option.bind_some, Option.bind_eq_bind, hdata, hlen, hfits,
        false_or]
      by_cases hshort : maximum < length ∨ payload.length - (cursor + 8) < length.toNat
      · rw [if_pos hshort, if_pos (hshort.imp id .inl)]
        rfl
      · rw [if_neg hshort]
        by_cases htext : text = true ∧ (!validUtf8 (behind.take length.toNat) ||
            (behind.take length.toNat).contains 0) = true
        · rw [if_pos htext, if_pos (.inr (.inr htext))]
          rfl
        · rw [if_neg htext, if_neg (by rw [← or_assoc]; exact not_or.mpr ⟨hshort, htext⟩),
            Option.map_some, List.length_drop, hlen]
          have : cursor + 8 + length.toNat =
              payload.length - (payload.length - (cursor + 8) - length.toNat) := by omega
          rw [this]

theorem walkCase_beyond : ∀ {cases : List Representation} {tag : Nat} {payload : Bytes},
    cases.length ≤ tag → walkCase cases tag payload = none
  | [], _, _, _ => by rw [walkCase]
  | child :: children, 0, _, h => by
      rw [List.length_cons] at h
      omega
  | child :: children, tag + 1, _, h => by
      rw [walkCase]
      exact walkCase_beyond (Nat.le_of_succ_le_succ h)

/-- **The loader's walk over a value is the walk along the tree of its type.** -/
theorem validateValueInner_walk : ∀ {levels : Nat}, ValueWalks bytes stop payload levels := by
  intro levels
  induction levels with
  | zero =>
      intro r start cursor h
      have := h.depth
      rw [depth_eq] at this
      omega
  | succ levels ih =>
      intro r start cursor h hcursor
      obtain ⟨hkind, -, -, hbound⟩ := h.node
      have hcount := h.childCount
      have hall := h.children
      have hend : start + (encodeRepresentation r).length =
          start + 8 + (encodeAll r.children).length := Stands.end_eq r
      have hlen : (payload.drop cursor).length = payload.length - cursor := List.length_drop
      have hhead := payloadHead_eq hcursor
      rw [validateValueInner, if_neg h.room, hend]
      simp only [hkind, hbound, hcount]
      cases r with
      | unit =>
          simp [Representation.kind, Representation.walk, Representation.children, encodeAll]
          omega
      | integer =>
          simp only [Representation.kind, Representation.walk, Representation.children, encodeAll]
          rw [if_neg (by decide), if_pos trivial, hlen]
          by_cases hshort : payload.length - cursor < 8
          · rw [if_pos (.inr hshort), if_pos hshort]
            rfl
          · rw [if_neg (by omega), if_neg hshort]
            simp only [Option.map_some, List.length_drop, List.length_nil, Nat.add_zero,
              Option.some.injEq, Prod.mk.injEq, true_and]
            omega
      | boolean =>
          simp only [Representation.kind, Representation.children, encodeAll]
          rw [if_neg (by decide), if_neg (by decide), if_pos trivial]
          have hread := readU8_drop payload cursor 0
          rw [Nat.add_zero] at hread
          rw [hread]
          generalize payload.drop cursor = rest at hlen ⊢
          cases rest with
          | nil =>
              rw [List.length_nil] at hlen
              rw [if_pos (.inl (by omega))]
              rfl
          | cons value behind =>
              rw [List.length_cons] at hlen
              have hsome : ¬ payload.length ≤ cursor := by omega
              have hvalue : Bytes.readU8 (value :: behind) 0 = value := rfl
              simp only [hsome, hvalue, false_or, Representation.walk]
              split
              · rfl
              · simp only [Option.map_some, List.length_nil, Nat.add_zero, Option.some.injEq,
                  Prod.mk.injEq, true_and]
                omega
      | string maximum =>
          simp only [Representation.kind, Representation.walk, Representation.children,
            Representation.bound, encodeAll]
          rw [if_neg (by decide), if_neg (by decide), if_neg (by decide), if_pos (.inl trivial),
            ← takeBytes_eq hcursor]
          simp
      | bytes maximum =>
          simp only [Representation.kind, Representation.walk, Representation.children,
            Representation.bound, encodeAll]
          rw [if_neg (by decide), if_neg (by decide), if_neg (by decide), if_pos (.inr trivial),
            ← takeBytes_eq hcursor]
          simp
      | record fields =>
          simp only [Representation.kind, Representation.walk, Representation.children] at hall ⊢
          rw [if_neg (by decide), if_neg (by decide), if_neg (by decide), if_neg (by decide),
            if_pos trivial]
          exact walkAll_rounds ih _ List.length_range hall hcursor
      | list element maximum =>
          simp only [Representation.kind, Representation.walk, Representation.children,
            Representation.bound] at hall ⊢
          rw [if_neg (by decide), if_neg (by decide), if_neg (by decide), if_neg (by decide),
            if_neg (by decide), if_pos trivial, hhead]
          have hstands := hall.head
          cases htake : takeHead (payload.drop cursor) with
          | none => rfl
          | some head =>
              obtain ⟨count, behind⟩ := head
              obtain ⟨hroom, -, -, hbehind⟩ := takeHead_some.mp htake
              rw [hlen] at hroom
              rw [List.drop_drop] at hbehind
              simp only [Option.map_some, Option.bind_some, Option.bind_eq_bind]
              by_cases hcount : maximum.toUInt32 < count
              · simp only [hcount, if_true]
                rfl
              · simp only [hcount, if_false, hstands.validate, Option.bind_some]
                rw [list_rounds ih hstands _ (by omega), hbehind]
                simp only [encodeAll, List.append_nil]
                cases (List.range count.toNat).foldlM (fun rest _ => element.walk rest) behind <;>
                  rfl
      | variant cases =>
          simp only [Representation.kind, Representation.walk, Representation.children] at hall ⊢
          rw [if_neg (by decide), if_neg (by decide), if_neg (by decide), if_neg (by decide),
            if_neg (by decide), if_neg (by decide), if_pos trivial, hhead]
          cases htake : takeHead (payload.drop cursor) with
          | none => rfl
          | some head =>
              obtain ⟨tag, behind⟩ := head
              obtain ⟨hroom, -, -, hbehind⟩ := takeHead_some.mp htake
              rw [hlen] at hroom
              rw [List.drop_drop] at hbehind
              simp only [Option.map_some, Option.bind_some, Option.bind_eq_bind]
              by_cases htag : cases.length ≤ tag.toNat
              · simp only [htag, if_true, walkCase_beyond htag]
                rfl
              · simp only [htag, if_false]
                rw [List.range_eq_range', walkCase_rounds ih hall (by omega),
                  if_pos ⟨Nat.zero_le _, by omega⟩, hbehind, Nat.sub_zero]

end Stands

end Descriptor

/-! ## The types of an image -/

/-- The type is described by a tree that stands in the image. -/
structure Represents (image : Image) (typeId : UInt16) (range : Nat × Nat)
    (r : Representation) : Prop where
  descriptor : image.tables.descriptor typeId = some range
  stands : Stands image.bytes image.tables.header.stringsOffset 65 r range.1
  last : range.2 = range.1 + (encodeRepresentation r).length

/-- Every descriptor was walked, and ends where the next one starts. -/
theorem typeDescriptor_validated {bytes : Bytes} {stop : Nat} {typeId : UInt16}
    {range : Nat × Nat} : ∀ {types prior prior' : List TypeRecord} {cursor last : Nat},
    types.foldlM (validateType bytes stop) (prior, cursor) = .ok (prior', last) →
    typeDescriptor last typeId types = some range →
      validateRepresentation bytes stop 65 range.1 = some range.2 := by
  have hround : ∀ {prior : List TypeRecord} {cursor : Nat} {record : TypeRecord}
      {state : List TypeRecord × Nat}, validateType bytes stop (prior, cursor) record = .ok state →
      record.descriptor = cursor ∧ validateRepresentation bytes stop 65 cursor = some state.2 := by
    intro prior cursor record state h
    simp only [validateType, bind_ok, require_ok] at h
    obtain ⟨⟨⟩, ⟨-, -, hdescriptor⟩, ⟨⟩, -, h⟩ := h
    split at h
    · cases h
    · rename_i next hnext
      cases h
      exact ⟨hdescriptor, hnext⟩
  intro types
  induction types with
  | nil => intro _ _ _ _ _ h; cases h
  | cons record rest ih =>
      intro prior prior' cursor last hfold h
      rw [List.foldlM_cons, bind_ok] at hfold
      obtain ⟨⟨prior₁, next⟩, hrecord, hfold⟩ := hfold
      obtain ⟨hdescriptor, hwalk⟩ := hround hrecord
      unfold typeDescriptor at h
      split at h
      · obtain rfl := Option.some.inj h
        rw [← hdescriptor] at hwalk
        cases rest with
        | nil =>
            rw [List.foldlM_nil, pure_ok] at hfold
            obtain ⟨rfl, rfl⟩ := Prod.mk.inj hfold
            exact hwalk
        | cons second rest =>
            rw [List.foldlM_cons, bind_ok] at hfold
            obtain ⟨state, hsecond, -⟩ := hfold
            have hnext := (hround hsecond).1
            simp only [hnext]
            exact hwalk
      · exact ih hfold h

/-- The strings are part of the image. -/
theorem Checked.strings_le {image : Image} {classes : List NodeClass} {regions : RegionState}
    (h : Checked image classes regions) :
    image.tables.header.stringsOffset ≤ image.bytes.length := by
  have hoffsets := h.offsets
  simp only [validateOffsets, require_ok] at hoffsets
  obtain ⟨-, -, -, -, -, -, -, -, hname, hle, -⟩ := hoffsets
  omega

/-- **Every type of an accepted image has a tree.** -/
theorem exists_represents (image : Image) {typeId : UInt16} {range : Nat × Nat}
    (hdescriptor : image.tables.descriptor typeId = some range) :
    ∃ r, Represents image typeId range r := by
  obtain ⟨classes, regions, h⟩ := image.checked
  have htypes := h.types
  simp only [validateTypes, bind_ok, require_ok] at htypes
  obtain ⟨⟨prior, cursor⟩, hfold, ⟨⟩, ⟨rfl, -⟩, -⟩ := htypes
  have hvalid := typeDescriptor_validated hfold hdescriptor
  obtain ⟨r, hr, hdepth, hstands, hlast, hle⟩ := representation_of_validate h.strings_le hvalid
  exact ⟨r, hdescriptor, ⟨hr, hdepth, hstands, hlast ▸ hle⟩, hlast⟩

theorem descriptor_of_contains {tables : Tables} {typeId : UInt16}
    (h : tables.containsType typeId = true) : ∃ range, tables.descriptor typeId = some range := by
  obtain ⟨record, hmem, hid⟩ := List.any_eq_true.mp h
  rw [beq_iff_eq] at hid
  unfold Tables.descriptor
  generalize tables.types = types at hmem
  induction types with
  | nil => cases hmem
  | cons first rest ih =>
      unfold typeDescriptor
      by_cases hfirst : first.typeId = typeId
      · rw [if_pos hfirst]
        exact ⟨_, rfl⟩
      · rw [if_neg hfirst]
        rcases List.mem_cons.mp hmem with rfl | hrest
        · exact absurd hid hfirst
        · exact ih hrest

/-- Where the value validator starts is where the descriptor is. -/
theorem find_of_descriptor {tables : Tables} {typeId : UInt16} {range : Nat × Nat}
    (h : tables.descriptor typeId = some range) :
    ∃ record, tables.types.find? (·.typeId == typeId) = some record ∧
      record.descriptor = range.1 := by
  unfold Tables.descriptor at h
  generalize tables.types = types at h ⊢
  induction types with
  | nil => cases h
  | cons first rest ih =>
      unfold typeDescriptor at h
      rw [List.find?_cons]
      split at h
      · rename_i hfirst
        refine ⟨first, ?_, (congrArg Prod.fst (Option.some.inj h))⟩
        simp [hfirst]
      · rename_i hfirst
        have hne : (first.typeId == typeId) = false := by simp [hfirst]
        rw [hne]
        exact ih h

/-- **A canonical value is one that the walk along the tree uses up.** -/
theorem Represents.validateValue {image : Image} {typeId : UInt16} {range : Nat × Nat}
    {r : Representation} (h : Represents image typeId range r) (payload : Bytes) :
    image.validateValue typeId payload = true ↔ r.walk payload = some [] := by
  obtain ⟨record, hfind, hrecord⟩ := find_of_descriptor h.descriptor
  rw [Image.validateValue, validateValueIn, hfind]
  simp only [hrecord]
  rw [validateValueInner_walk h.stands (Nat.zero_le _), List.drop_zero]
  cases hwalk : r.walk payload with
  | none => simp
  | some rest =>
      have hsuffix := (walk_suffix r hwalk).length_le
      simp only [Option.map_some, beq_iff_eq, Option.some.injEq]
      rw [← List.length_eq_zero_iff]
      omega

end Hermas.Image
