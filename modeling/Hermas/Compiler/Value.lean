import Hermas.Compiler.Loaders

/-!
# The compiler's value validator

The compiler checks a value with a walk of its own. It trusts that a walk over a
value ends where the walk over its descriptor ends, which the daemon's validator
checks for every item of a list; with the descriptors of an accepted image it
always does.
-/

namespace Hermas.Compiler

open Hermas.Image (readTables validateRepresentation validateValueInner payloadHead)

/-- `payload_u32` -/
def payloadU32 (payload : Bytes) (offset : Nat) : Except ImageError UInt32 :=
  if payload.length < offset + 4 then
    .error ⟨.invalidValue, some offset, "truncated value field"⟩
  else .ok (payload.readU32 offset)

/-- `validate_value_inner`: both cursors behind the value. Depth `d` of the source is `65 - d`
levels here, and an item's end is not compared, as in a release build. -/
def decodeValueInner (image : Bytes) (stop : Nat) (payload : Bytes) :
    Nat → Nat → Nat → Except ImageError (Nat × Nat)
  | 0, _, cursor =>
      .error ⟨.invalidValue, some cursor, "invalid representation while checking value"⟩
  | levels + 1, representation, cursor =>
      if stop < representation + 8 then
        .error ⟨.invalidValue, some cursor, "invalid representation while checking value"⟩
      else
        let kind := image.readU8 representation
        let children := (image.readU16 (representation + 2)).toNat
        let bound := (image.readU32 (representation + 4)).toNat
        let childStart := representation + 8
        if kind = 1 then .ok (childStart, cursor)
        else if kind = 2 then
          if payload.length < cursor + 8 then
            .error ⟨.invalidValue, some cursor, "truncated Integer"⟩
          else .ok (childStart, cursor + 8)
        else if kind = 3 then
          match payload[cursor]? with
          | none => .error ⟨.invalidValue, some cursor, "truncated Boolean"⟩
          | some value =>
              if 1 < value then
                .error ⟨.invalidValue, some cursor, "Boolean must be zero or one"⟩
              else .ok (childStart, cursor + 1)
        else if kind = 4 ∨ kind = 5 then do
          let length ← payloadU32 payload cursor
          let reserved ← payloadU32 payload (cursor + 4)
          require (¬ (reserved ≠ 0 ∨ bound < length.toNat))
            ⟨.invalidValue, some cursor, "invalid bounded byte length or reserved word"⟩
          let dataStart := cursor + 8
          let dataEnd := dataStart + length.toNat
          require (dataEnd ≤ payload.length)
            ⟨.invalidValue, some cursor, "truncated bounded bytes"⟩
          let data := payload.slice dataStart length.toNat
          require (¬ (kind = 4 ∧ (fromUtf8 data = false ∨ data.contains 0 = true)))
            ⟨.invalidValue, some dataStart, "String must be valid UTF-8 without NUL"⟩
          pure (childStart, dataEnd)
        else if kind = 6 then
          (List.range children).foldlM
            (fun cursors _ => decodeValueInner image stop payload levels cursors.1 cursors.2)
            (childStart, cursor)
        else if kind = 7 then do
          let count ← payloadU32 payload cursor
          let reserved ← payloadU32 payload (cursor + 4)
          require (¬ (reserved ≠ 0 ∨ bound < count.toNat))
            ⟨.invalidValue, some cursor, "invalid list count or reserved word"⟩
          let afterChild ← decodeRepresentation image stop levels childStart
          let last ← (List.range count.toNat).foldlM
            (fun cursor _ => do
              let next ← decodeValueInner image stop payload levels childStart cursor
              pure next.2)
            (cursor + 8)
          pure (afterChild, last)
        else if kind = 8 then do
          let tag ← payloadU32 payload cursor
          let reserved ← payloadU32 payload (cursor + 4)
          require (¬ (reserved ≠ 0 ∨ children ≤ tag.toNat))
            ⟨.invalidValue, some cursor, "invalid variant tag or reserved word"⟩
          (List.range children).foldlM
            (fun cursors child =>
              if child = tag.toNat then
                decodeValueInner image stop payload levels cursors.1 cursors.2
              else do
                let next ← decodeRepresentation image stop levels cursors.1
                pure (next, cursors.2))
            (childStart, cursor + 8)
        else .error ⟨.invalidValue, some cursor, "unknown representation kind"⟩

/-- `validate_graph_value` -/
def validateGraphValue (image : Bytes) (typeId : UInt16) (payload : Bytes) :
    Except ImageError Unit := do
  let _ ← decodeGraphImage image
  let tables := readTables image
  match tables.types.find? (·.typeId == typeId) with
  | none => .error ⟨.invalidValue, none,
      "type ID " ++ toString typeId ++ " is not present in the graph image"⟩
  | some record =>
      let ends ← decodeValueInner image tables.header.stringsOffset payload 65 record.descriptor 0
      require (ends.2 = payload.length)
        ⟨.invalidValue, some ends.2, "value contains trailing bytes"⟩

/-! ## Where a value ends -/

section Ends

variable {image payload : Bytes} {stop : Nat}

theorem payloadU32_ok {offset : Nat} {word : UInt32} :
    payloadU32 payload offset = .ok word ↔ Image.payloadU32 payload offset = some word := by
  have hroom : payload.length < offset + 4 ↔
      payload.length < offset ∨ payload.length - offset < 4 := by omega
  unfold payloadU32 Image.payloadU32
  simp only [hroom]
  split <;> simp

theorem payloadHead_some {cursor : Nat} {word : UInt32} :
    payloadHead payload cursor = some word ↔
      payloadU32 payload cursor = .ok word ∧ payloadU32 payload (cursor + 4) = .ok 0 := by
  simp only [payloadHead, Option.bind_eq_bind, Option.bind_eq_some_iff, payloadU32_ok]
  constructor
  · rintro ⟨w, hw, reserved, hreserved, h⟩
    split at h
    · cases h
    · rename_i hzero
      obtain rfl := Option.some.inj h
      rw [not_not] at hzero
      exact ⟨hw, hzero ▸ hreserved⟩
  · rintro ⟨hw, hzero⟩
    exact ⟨word, hw, 0, hzero, by simp⟩

/-- The rounds of two loops go side by side. -/
theorem foldlM_fst {f : Nat × Nat → Nat → Option (Nat × Nat)} {g : Nat → Nat → Option Nat}
    (hfg : ∀ a x b n, f a x = some b → g a.1 x = some n → b.1 = n) {xs : List Nat} :
    ∀ {a b : Nat × Nat} {n : Nat}, xs.foldlM f a = some b → xs.foldlM g a.1 = some n →
      b.1 = n := by
  induction xs with
  | nil =>
      intro a b n hf hg
      rw [List.foldlM_nil] at hf hg
      rw [← Option.some.inj hf]
      exact Option.some.inj hg
  | cons x xs ih =>
      intro a b n hf hg
      rw [List.foldlM_cons, Option.bind_eq_bind, Option.bind_eq_some_iff] at hf hg
      obtain ⟨c, hc, hf⟩ := hf
      obtain ⟨m, hm, hg⟩ := hg
      obtain rfl := hfg a x c m hc hm
      exact ih hf hg

/-- A descriptor without children is one node, and that of a list has one child. -/
theorem validNode_children {kind reserved : UInt8} {children : UInt16} {bound : UInt32}
    (h : Image.validNode kind reserved children bound = true) :
    (kind = 1 ∨ kind = 2 ∨ kind = 3 ∨ kind = 4 ∨ kind = 5 → children = 0) ∧
      (kind = 7 → children = 1) := by
  simp only [Image.validNode, Bool.and_eq_true, Bool.or_eq_true, beq_iff_eq, decide_eq_true_eq]
    at h
  obtain ⟨-, h⟩ := h
  constructor
  · intro hk
    rcases h with (((h | h) | h) | h) | h
    · exact h.1.2
    · exact h.1.1.2
    · rw [h.1] at hk
      exact absurd hk (by decide)
    · rw [h.1.1.1] at hk
      exact absurd hk (by decide)
    · rw [h.1.1] at hk
      exact absurd hk (by decide)
  · intro hk
    rcases h with (((h | h) | h) | h) | h
    · rw [hk] at h
      exact absurd h.1.1.2 (by decide)
    · rw [hk] at h
      exact absurd h.1.1.1 (by decide)
    · rw [hk] at h
      exact absurd h.1 (by decide)
    · exact h.1.1.2
    · rw [hk] at h
      exact absurd h.1.1 (by decide)

/-- **A value ends where its descriptor ends.** -/
theorem value_end : ∀ {levels representation cursor last : Nat} {ends : Nat × Nat},
    validateRepresentation image stop levels representation = some last →
    validateValueInner image stop payload levels representation cursor = some ends →
    ends.1 = last := by
  intro levels
  induction levels with
  | zero => intro _ _ _ _ hr; cases hr
  | succ levels ih =>
      intro representation cursor last ends hr hv
      rw [validateRepresentation] at hr
      rw [validateValueInner] at hv
      split at hr
      · cases hr
      rename_i hroom
      rw [if_neg hroom] at hv
      simp only at hr hv
      split at hr
      swap
      · cases hr
      rename_i hnode
      obtain ⟨hleaf, hlist⟩ := validNode_children hnode
      have hone : ∀ n, (List.range (image.readU16 (representation + 2)).toNat).foldlM
          (fun cursor _ => validateRepresentation image stop levels cursor)
            (representation + 8) = some n →
          image.readU16 (representation + 2) = 0 → representation + 8 = n := by
        intro n hn hzero
        rw [hzero] at hn
        exact Option.some.inj hn
      by_cases h1 : image.readU8 representation = 1
      · rw [if_pos h1] at hv
        rw [← Option.some.inj hv]
        exact hone last hr (hleaf (.inl h1))
      rw [if_neg h1] at hv
      by_cases h2 : image.readU8 representation = 2
      · rw [if_pos h2] at hv
        split at hv
        · cases hv
        · rw [← Option.some.inj hv]
          exact hone last hr (hleaf (.inr (.inl h2)))
      rw [if_neg h2] at hv
      by_cases h3 : image.readU8 representation = 3
      · rw [if_pos h3] at hv
        split at hv
        · cases hv
        · rw [← Option.some.inj hv]
          exact hone last hr (hleaf (.inr (.inr (.inl h3))))
      rw [if_neg h3] at hv
      by_cases h45 : image.readU8 representation = 4 ∨ image.readU8 representation = 5
      · rw [if_pos h45, Option.bind_eq_bind, Option.bind_eq_some_iff] at hv
        obtain ⟨length, -, hv⟩ := hv
        split at hv
        · cases hv
        split at hv
        · cases hv
        · rw [← Option.some.inj hv]
          exact hone last hr (hleaf (.inr (.inr (.inr h45))))
      rw [if_neg h45] at hv
      by_cases h6 : image.readU8 representation = 6
      · -- a record: child by child
        rw [if_pos h6] at hv
        exact foldlM_fst (fun a _ b n hb hn => ih hn hb) hv hr
      rw [if_neg h6] at hv
      by_cases h7 : image.readU8 representation = 7
      · -- a list: the one child is the descriptor of its items
        rw [hlist h7] at hr
        rw [if_pos h7, Option.bind_eq_bind, Option.bind_eq_some_iff] at hv
        obtain ⟨count, -, hv⟩ := hv
        split at hv
        · cases hv
        · rw [Option.bind_eq_bind, Option.bind_eq_some_iff] at hv
          obtain ⟨childEnd, hchild, hv⟩ := hv
          rw [Option.bind_eq_some_iff] at hv
          obtain ⟨_, -, hv⟩ := hv
          rw [← Option.some.inj hv]
          have hsame : validateRepresentation image stop levels (representation + 8) =
              some last := by
            simpa using hr
          rw [hchild] at hsame
          exact Option.some.inj hsame
      rw [if_neg h7] at hv
      by_cases h8 : image.readU8 representation = 8
      · -- a variant: the value under its tag, the descriptors of the others
        rw [if_pos h8, Option.bind_eq_bind, Option.bind_eq_some_iff] at hv
        obtain ⟨tag, -, hv⟩ := hv
        split at hv
        · cases hv
        · refine foldlM_fst (fun a child b n hb hn => ?_) hv hr
          split at hb
          · exact ih hn hb
          · rw [hn] at hb
            rw [← Option.some.inj hb]
      · rw [if_neg h8] at hv
        cases hv

end Ends

/-! ## The two validators -/

section Agree

variable {image payload : Bytes} {stop : Nat}

theorem bound_lt {a b : UInt32} : b < a ↔ b.toNat < a.toNat := UInt32.lt_iff_toNat_lt

/-- A head that both read is a word with a reserved zero behind it. -/
theorem head_ok {α : Type} {cursor : Nat} {bad : UInt32 → Prop} [DecidablePred bad]
    {message : String} {f : UInt32 → Except ImageError α} {g : UInt32 → Option α} {a : α}
    (hfg : ∀ word, ¬ bad word → cursor + 8 ≤ payload.length → (f word = .ok a ↔ g word = some a))
    (hbad : ∀ word, bad word → g word = none) :
    (do
      let word ← payloadU32 payload cursor
      let reserved ← payloadU32 payload (cursor + 4)
      require (¬ (reserved ≠ 0 ∨ bad word)) ⟨.invalidValue, some cursor, message⟩
      f word) = .ok a ↔
      (payloadHead payload cursor).bind g = some a := by
  have hroom : ∀ {reserved}, payloadU32 payload (cursor + 4) = .ok reserved →
      cursor + 8 ≤ payload.length := by
    intro reserved h
    unfold payloadU32 at h
    split at h
    · cases h
    · omega
  simp only [bind_ok, require_ok, not_or, not_not, Option.bind_eq_some_iff, payloadHead_some]
  constructor
  · rintro ⟨word, hword, reserved, hreserved, ⟨⟩, ⟨rfl, hgood⟩, hf⟩
    exact ⟨word, ⟨hword, hreserved⟩, (hfg word hgood (hroom hreserved)).mp hf⟩
  · rintro ⟨word, ⟨hword, hreserved⟩, hg⟩
    have hgood : ¬ bad word := by
      intro hb
      rw [hbad word hb] at hg
      cases hg
    exact ⟨word, hword, 0, hreserved, (), ⟨rfl, hgood⟩, (hfg word hgood (hroom hreserved)).mpr hg⟩

/-- **Both walks agree**, wherever they start. -/
theorem decodeValueInner_ok : ∀ {levels representation cursor : Nat} {ends : Nat × Nat},
    decodeValueInner image stop payload levels representation cursor = .ok ends ↔
      validateValueInner image stop payload levels representation cursor = some ends := by
  intro levels
  induction levels with
  | zero => intro _ _ _; simp [decodeValueInner, validateValueInner]
  | succ levels ih =>
      intro representation cursor ends
      have hroom : stop < representation + 8 ↔ stop < representation ∨ stop - representation < 8 := by
        omega
      rw [decodeValueInner, validateValueInner]
      simp only [hroom]
      by_cases hshort : stop < representation ∨ stop - representation < 8
      · rw [if_pos hshort, if_pos hshort]
        simp
      rw [if_neg hshort, if_neg hshort]
      by_cases h1 : image.readU8 representation = 1
      · rw [if_pos h1, if_pos h1]
        simp
      rw [if_neg h1, if_neg h1]
      by_cases h2 : image.readU8 representation = 2
      · have hlong : payload.length < cursor + 8 ↔
            payload.length < cursor ∨ payload.length - cursor < 8 := by omega
        rw [if_pos h2, if_pos h2]
        simp only [hlong]
        split <;> simp
      rw [if_neg h2, if_neg h2]
      by_cases h3 : image.readU8 representation = 3
      · rw [if_pos h3, if_pos h3]
        cases hget : payload[cursor]? with
        | none =>
            have hle : payload.length ≤ cursor := List.getElem?_eq_none_iff.mp hget
            simp [hle]
        | some value =>
            have hlt : ¬ payload.length ≤ cursor := by
              have := (List.getElem?_eq_some_iff.mp hget).1
              omega
            have hread : payload.readU8 cursor = value := by
              rw [Bytes.readU8, List.getD_eq_getElem?_getD, hget]
              rfl
            simp only [hlt, hread, false_or]
            split <;> simp
      rw [if_neg h3, if_neg h3]
      by_cases h45 : image.readU8 representation = 4 ∨ image.readU8 representation = 5
      · rw [if_pos h45, if_pos h45]
        refine head_ok (fun length hlength hfits => ?_) fun length hlength => ?_
        · have hend : (image.readU32 (representation + 4) < length ∨
              payload.length - 8 < cursor ∨ payload.length - (cursor + 8) < length.toNat) ↔
              ¬ cursor + 8 + length.toNat ≤ payload.length := by
            rw [bound_lt]
            omega
          have htext : (image.readU8 representation = 4 ∧
              ((!Image.validUtf8 (payload.slice (cursor + 8) length.toNat) ||
                (payload.slice (cursor + 8) length.toNat).contains 0) = true)) ↔
              (image.readU8 representation = 4 ∧
                (fromUtf8 (payload.slice (cursor + 8) length.toNat) = false ∨
                  (payload.slice (cursor + 8) length.toNat).contains 0 = true)) := by
            rw [validUtf8_eq, Bool.or_eq_true, Bool.not_eq_true']
          simp only [bind_ok, require_ok, pure_ok, hend, htext]
          constructor
          · rintro ⟨⟨⟩, hle, ⟨⟩, hgood, rfl⟩
            rw [if_neg (not_not.mpr hle), if_neg hgood]
          · intro h
            split at h
            · cases h
            rename_i hle
            split at h
            · cases h
            rename_i hgood
            exact ⟨(), not_not.mp hle, (), hgood, Option.some.inj h⟩
        · exact if_pos (.inl (bound_lt.mpr hlength))
      rw [if_neg h45, if_neg h45]
      by_cases h6 : image.readU8 representation = 6
      · rw [if_pos h6, if_pos h6]
        exact foldlM_toOption fun a _ b => ih
      rw [if_neg h6, if_neg h6]
      by_cases h7 : image.readU8 representation = 7
      · rw [if_pos h7, if_pos h7]
        refine head_ok (fun count hcount _ => ?_) fun count hcount => ?_
        · rw [if_neg (mt bound_lt.mp hcount)]
          simp only [bind_ok, pure_ok, decodeRepresentation_ok, Option.bind_eq_bind,
            Option.bind_eq_some_iff]
          refine exists_congr fun childEnd => and_congr_right fun hchild => ?_
          -- no item ends anywhere but where the descriptor of the items ends
          have hitem : ∀ (cursor x last : Nat),
              ((do
                let next ← decodeValueInner image stop payload levels (representation + 8) cursor
                pure next.2) : Except ImageError Nat) = .ok last ↔
              (validateValueInner image stop payload levels (representation + 8) cursor).bind
                (fun next => if next.1 = childEnd then some next.2 else none) = some last := by
            intro cursor _ last
            simp only [bind_ok, pure_ok, ih, Option.bind_eq_some_iff]
            refine exists_congr fun next => and_congr_right fun hnext => ?_
            rw [if_pos (value_end hchild hnext)]
            simp
          refine exists_congr fun last => ?_
          rw [foldlM_toOption hitem]
          simp
        · exact if_pos (bound_lt.mpr hcount)
      rw [if_neg h7, if_neg h7]
      by_cases h8 : image.readU8 representation = 8
      · rw [if_pos h8, if_pos h8]
        refine head_ok (fun tag htag _ => ?_) fun tag htag => ?_
        · rw [if_neg htag]
          refine foldlM_toOption fun cursors child next => ?_
          split
          · exact ih
          · simp only [bind_ok, pure_ok, decodeRepresentation_ok, Option.map_eq_some_iff]
        · exact if_pos htag
      · rw [if_neg h8, if_neg h8]
        simp

end Agree

/-- **Loader and compiler accept the same values** of every image that the loader accepts; so does
the decoder. -/
theorem validateValue_iff (image : Image) (typeId : UInt16) (payload : Bytes) :
    image.validateValue typeId payload = true ↔
      (validateGraphValue image.bytes typeId payload).toOption.isSome = true := by
  have hdecoded := ((imageValidate_iff image.bytes).mp image.valid).1
  have hisSome : ∀ {ε α : Type} (x : Except ε α),
      x.toOption.isSome = true ↔ ∃ a, x = .ok a := by
    intro ε α x
    cases x <;> simp [Except.toOption]
  rw [hisSome] at hdecoded ⊢
  obtain ⟨decoded, hdecoded⟩ := hdecoded
  unfold Image.validateValue Image.validateValueIn validateGraphValue
  simp only [bind_ok, image.tables_eq, hdecoded]
  cases hfind : image.tables.types.find? (·.typeId == typeId) with
  | none => simp
  | some record =>
      have hwalk := @decodeValueInner_ok image.bytes payload image.tables.header.stringsOffset 65
        record.descriptor 0
      simp only [bind_ok, require_ok, hwalk]
      cases validateValueInner image.bytes image.tables.header.stringsOffset payload 65
        record.descriptor 0 with
      | none => simp
      | some ends => simp

end Hermas.Compiler
