import Hermas.Image.Format

/-!
# Types and values

A type is described by a tree in preorder, eight bytes a node: a kind, the number
of children and a bound. A value is validated by walking the tree and the payload
side by side. Both walks refuse a tree that nests deeper than 64 levels, which is
what their recursion is on: depth `d` of the source is `65 - d` levels here.
-/

namespace Hermas.Image

/-! ## UTF-8 -/

def continuation (byte : UInt8) : Bool := byte &&& 0xc0 == 0x80

/-- Append the six bits of a continuation byte. -/
def appendBits (codepoint : UInt32) (byte : UInt8) : UInt32 :=
  (codepoint <<< 6) ||| (byte &&& 0x3f).toUInt32

def scalar (codepoint : UInt32) : Bool :=
  !(0xd800 ≤ codepoint && codepoint ≤ 0xdfff) && codepoint ≤ 0x10ffff

/-- `valid_utf8` -/
def validUtf8 : Bytes → Bool
  | [] => true
  | first :: rest =>
      if first ≤ 0x7f then validUtf8 rest
      else if 0xc2 ≤ first ∧ first ≤ 0xdf then
        match rest with
        | b :: rest =>
            continuation b && scalar (appendBits (first &&& 0x1f).toUInt32 b) && validUtf8 rest
        | _ => false
      else if 0xe0 ≤ first ∧ first ≤ 0xef then
        match rest with
        | b :: c :: rest =>
            let codepoint := appendBits (appendBits (first &&& 0x0f).toUInt32 b) c
            continuation b && continuation c && !(codepoint < 0x800) && scalar codepoint &&
              validUtf8 rest
        | _ => false
      else if 0xf0 ≤ first ∧ first ≤ 0xf4 then
        match rest with
        | b :: c :: d :: rest =>
            let codepoint :=
              appendBits (appendBits (appendBits (first &&& 0x07).toUInt32 b) c) d
            continuation b && continuation c && continuation d && !(codepoint < 0x10000) &&
              scalar codepoint && validUtf8 rest
        | _ => false
      else false

/-! ## Representations -/

/-- The shape of one descriptor node. -/
def validNode (kind reserved : UInt8) (children : UInt16) (bound : UInt32) : Bool :=
  reserved == 0 &&
    ((1 ≤ kind && kind ≤ 3 && children == 0 && bound == 0) ||
      ((kind == 4 || kind == 5) && children == 0 && 1 ≤ bound && bound ≤ 1048576) ||
      (kind == 6 && bound == 0) ||
      (kind == 7 && children == 1 && 1 ≤ bound && bound ≤ 256) ||
      (kind == 8 && children != 0 && bound == 0))

/-- `validate_representation`: the cursor behind the tree, or `HERMAS_IMAGE_INVALID_RECORD`. -/
def validateRepresentation (bytes : Bytes) (stop : Nat) : Nat → Nat → Option Nat
  | 0, _ => none
  | levels + 1, cursor =>
      if stop < cursor ∨ stop - cursor < 8 then none
      else
        let children := bytes.readU16 (cursor + 2)
        if validNode (bytes.readU8 cursor) (bytes.readU8 (cursor + 1)) children
            (bytes.readU32 (cursor + 4)) then
          (List.range children.toNat).foldlM
            (fun cursor _ => validateRepresentation bytes stop levels cursor) (cursor + 8)
        else none

/-- `representation_child` behind its bound check. -/
def childFrom (bytes : Bytes) (stop : Nat) : Nat → Nat → Option (Nat × Nat)
  | 0, cursor => (validateRepresentation bytes stop 64 cursor).map fun next => (cursor, next)
  | index + 1, cursor =>
      (validateRepresentation bytes stop 64 cursor).bind fun next => childFrom bytes stop index next

/-- `representation_child` -/
def representationChild (bytes : Bytes) (descriptor stop childIndex : Nat) : Option (Nat × Nat) :=
  if (bytes.readU16 (descriptor + 2)).toNat ≤ childIndex then none
  else childFrom bytes stop childIndex (descriptor + 8)

/-- Two ranges of the image hold the same bytes. -/
def sameBytes (bytes : Bytes) (a b : Nat × Nat) : Bool :=
  a.2 - a.1 == b.2 - b.1 && bytes.slice a.1 (a.2 - a.1) == bytes.slice b.1 (b.2 - b.1)

/-! ## Values -/

/-- `payload_u32` -/
def payloadU32 (payload : Bytes) (offset : Nat) : Option UInt32 :=
  if payload.length < offset ∨ payload.length - offset < 4 then none
  else some (payload.readU32 offset)

/-- The two words in front of a string, a list or a variant; the second is reserved. -/
def payloadHead (payload : Bytes) (cursor : Nat) : Option UInt32 := do
  let word ← payloadU32 payload cursor
  let reserved ← payloadU32 payload (cursor + 4)
  if reserved ≠ 0 then none else some word

/-- `validate_value_inner`: both cursors behind the value, or `HERMAS_IMAGE_INVALID_VALUE`. -/
def validateValueInner (image : Bytes) (stop : Nat) (payload : Bytes) :
    Nat → Nat → Nat → Option (Nat × Nat)
  | 0, _, _ => none
  | levels + 1, representation, cursor =>
      if stop < representation ∨ stop - representation < 8 then none
      else
        let kind := image.readU8 representation
        let children := (image.readU16 (representation + 2)).toNat
        let bound := image.readU32 (representation + 4)
        let childStart := representation + 8
        if kind = 1 then some (childStart, cursor)
        else if kind = 2 then
          if payload.length < cursor ∨ payload.length - cursor < 8 then none
          else some (childStart, cursor + 8)
        else if kind = 3 then
          if payload.length ≤ cursor ∨ 1 < payload.readU8 cursor then none
          else some (childStart, cursor + 1)
        else if kind = 4 ∨ kind = 5 then do
          let length ← payloadHead payload cursor
          if bound < length ∨ payload.length - 8 < cursor ∨
              payload.length - (cursor + 8) < length.toNat then none
          else
            let data := payload.slice (cursor + 8) length.toNat
            if kind = 4 ∧ (!validUtf8 data || data.contains 0) then none
            else some (childStart, cursor + 8 + length.toNat)
        else if kind = 6 then
          (List.range children).foldlM
            (fun cursors _ =>
              validateValueInner image stop payload levels cursors.1 cursors.2)
            (childStart, cursor)
        else if kind = 7 then do
          let count ← payloadHead payload cursor
          if bound < count then none
          else
            let childEnd ← validateRepresentation image stop levels childStart
            let last ← (List.range count.toNat).foldlM
              (fun cursor _ =>
                (validateValueInner image stop payload levels childStart cursor).bind fun next =>
                  if next.1 = childEnd then some next.2 else none)
              (cursor + 8)
            some (childEnd, last)
        else if kind = 8 then do
          let tag ← payloadHead payload cursor
          if children ≤ tag.toNat then none
          else
            (List.range children).foldlM
              (fun cursors child =>
                if child = tag.toNat then
                  validateValueInner image stop payload levels cursors.1 cursors.2
                else
                  (validateRepresentation image stop levels cursors.1).map fun next =>
                    (next, cursors.2))
              (childStart, cursor + 8)
        else none

/-- `hermas_image_validate_value` on an image that is already validated. -/
def validateValueIn (bytes : Bytes) (tables : Tables) (typeId : UInt16) (payload : Bytes) : Bool :=
  match tables.types.find? (·.typeId == typeId) with
  | none => false
  | some record =>
      match validateValueInner bytes tables.header.stringsOffset payload 65 record.descriptor 0 with
      | none => false
      | some cursors => cursors.2 == payload.length

/-- `hermas_image_list_items` on an image that is already validated: offset and length of each
item. -/
def listItemsIn (bytes : Bytes) (tables : Tables) (typeId : UInt16) (payload : Bytes)
    (capacity : Nat) : Option (List (Nat × Nat)) :=
  if payload.length < 8 then none
  else
    match tables.descriptor typeId with
    | none => none
    | some (descriptor, stop) =>
        if bytes.readU8 descriptor ≠ 7 then none
        else
          let count := payload.readU32 0
          if payload.readU32 4 ≠ 0 ∨ bytes.readU32 (descriptor + 4) < count ∨
              capacity < count.toNat ∨ 65535 < count.toNat then none
          else do
            let childStart := descriptor + 8
            let childEnd ← validateRepresentation bytes stop 64 childStart
            let (items, last) ← (List.range count.toNat).foldlM
              (fun (items, cursor) _ =>
                (validateValueInner bytes stop payload 64 childStart cursor).bind fun next =>
                  if next.1 = childEnd then some (items ++ [(cursor, next.2 - cursor)], next.2)
                  else none)
              (([] : List (Nat × Nat)), 8)
            if last ≠ payload.length then none else some items

end Hermas.Image
