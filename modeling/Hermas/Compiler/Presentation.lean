import Hermas.Base.Assoc
import Hermas.Compiler.Catalog
import Hermas.Compiler.Value
import Hermas.Image.Encode
import Hermas.Image.Lists
import Mathlib.Data.String.Basic

/-!
# Presentation

A value of one type may be passed on as a value of another if `compatible_with` says
so. Fields and cases are matched by their names there, while the bytes of a value only
know their places. In an image the names are gone: what is left of the check is a
comparison of two trees, place by place, in which a bound may grow (`Fits`). A walk
along the greater tree goes wherever a walk along the smaller one goes (`walk_fits`),
so the validators accept every payload that is passed on.
-/

namespace Hermas

/-! ## Trees with greater bounds -/

namespace Image

mutual

/-- Every value of the one tree is one of the other: its bounds are no greater. -/
def Representation.Fits : Representation → Representation → Prop
  | .unit, s => s = .unit
  | .integer, s => s = .integer
  | .boolean, s => s = .boolean
  | .string maximum, s => ∃ maximum', s = .string maximum' ∧ maximum ≤ maximum'
  | .bytes maximum, s => ∃ maximum', s = .bytes maximum' ∧ maximum ≤ maximum'
  | .record fields, s => ∃ fields', s = .record fields' ∧ FitsAll fields fields'
  | .list element maximum, s =>
      ∃ element' maximum', s = .list element' maximum' ∧ maximum ≤ maximum' ∧ element.Fits element'
  | .variant cases, s => ∃ cases', s = .variant cases' ∧ FitsAll cases cases'

def FitsAll : List Representation → List Representation → Prop
  | [], children => children = []
  | child :: children, others =>
      ∃ child' children', others = child' :: children' ∧ child.Fits child' ∧
        FitsAll children children'

end

theorem takeBytes_fits {text : Bool} {maximum maximum' : UInt32} (hle : maximum ≤ maximum')
    {payload rest : Bytes} (h : takeBytes text maximum payload = some rest) :
    takeBytes text maximum' payload = some rest := by
  rw [takeBytes_some] at h ⊢
  obtain ⟨length, behind, hhead, hmax, hlength, htext, hrest⟩ := h
  refine ⟨length, behind, hhead, ?_, hlength, htext, hrest⟩
  rw [UInt32.lt_iff_toNat_lt] at hmax ⊢
  rw [UInt32.le_iff_toNat_le] at hle
  omega

/-- A loop whose rounds another loop can follow. -/
theorem foldlM_fits {f g : Bytes → Option Bytes} (hfg : ∀ p q, f p = some q → g p = some q) :
    ∀ (rounds : List Nat) {p q : Bytes}, rounds.foldlM (fun rest _ => f rest) p = some q →
      rounds.foldlM (fun rest _ => g rest) p = some q
  | [], _, _, h => h
  | _ :: rounds, p, q, h => by
      rw [List.foldlM_cons, Option.bind_eq_bind, Option.bind_eq_some_iff] at h
      obtain ⟨next, hnext, h⟩ := h
      rw [List.foldlM_cons, Option.bind_eq_bind, hfg p next hnext]
      exact foldlM_fits hfg rounds h

mutual

/-- **A walk along the greater tree goes where one along the smaller tree goes.** -/
theorem walk_fits : ∀ (r : Representation) {s : Representation}, r.Fits s →
    ∀ {payload rest : Bytes}, r.walk payload = some rest → s.walk payload = some rest
  | .unit, s, hfits, payload, rest, h => by
      obtain rfl : s = .unit := hfits
      exact h
  | .integer, s, hfits, payload, rest, h => by
      obtain rfl : s = .integer := hfits
      exact h
  | .boolean, s, hfits, payload, rest, h => by
      obtain rfl : s = .boolean := hfits
      exact h
  | .string maximum, s, hfits, payload, rest, h => by
      obtain ⟨maximum', rfl, hle⟩ := hfits
      rw [Representation.walk] at h ⊢
      exact takeBytes_fits hle h
  | .bytes maximum, s, hfits, payload, rest, h => by
      obtain ⟨maximum', rfl, hle⟩ := hfits
      rw [Representation.walk] at h ⊢
      exact takeBytes_fits hle h
  | .record fields, s, hfits, payload, rest, h => by
      obtain ⟨fields', rfl, hfields⟩ := hfits
      rw [Representation.walk] at h ⊢
      exact walkAll_fits fields hfields h
  | .list element maximum, s, hfits, payload, rest, h => by
      obtain ⟨element', maximum', rfl, hle, helement⟩ := hfits
      rw [Representation.walk, Option.bind_eq_bind, Option.bind_eq_some_iff] at h ⊢
      obtain ⟨⟨count, behind⟩, hhead, h⟩ := h
      refine ⟨(count, behind), hhead, ?_⟩
      simp only at h ⊢
      split at h
      · cases h
      · rename_i hcount
        have hcount' : ¬ maximum'.toUInt32 < count := by
          rw [UInt32.lt_iff_toNat_lt, UInt16.toNat_toUInt32] at hcount ⊢
          rw [UInt16.le_iff_toNat_le] at hle
          omega
        rw [if_neg hcount']
        exact foldlM_fits (fun p q hp => walk_fits element helement hp) _ h
  | .variant cases, s, hfits, payload, rest, h => by
      obtain ⟨cases', rfl, hcases⟩ := hfits
      rw [Representation.walk, Option.bind_eq_bind, Option.bind_eq_some_iff] at h ⊢
      obtain ⟨⟨tag, behind⟩, hhead, h⟩ := h
      exact ⟨(tag, behind), hhead, walkCase_fits cases hcases tag.toNat h⟩

theorem walkAll_fits : ∀ (children : List Representation) {others : List Representation},
    FitsAll children others → ∀ {payload rest : Bytes}, walkAll children payload = some rest →
      walkAll others payload = some rest
  | [], others, hfits, payload, rest, h => by
      obtain rfl : others = [] := hfits
      exact h
  | child :: children, others, hfits, payload, rest, h => by
      obtain ⟨child', children', rfl, hchild, hchildren⟩ := hfits
      rw [walkAll, Option.bind_eq_some_iff] at h ⊢
      obtain ⟨behind, hwalk, h⟩ := h
      exact ⟨behind, walk_fits child hchild hwalk, walkAll_fits children hchildren h⟩

theorem walkCase_fits : ∀ (cases : List Representation) {others : List Representation},
    FitsAll cases others → ∀ (tag : Nat) {payload rest : Bytes},
      walkCase cases tag payload = some rest → walkCase others tag payload = some rest
  | [], others, hfits, tag, payload, rest, h => by
      rw [walkCase] at h
      cases h
  | child :: children, others, hfits, 0, payload, rest, h => by
      obtain ⟨child', children', rfl, hchild, -⟩ := hfits
      rw [walkCase] at h ⊢
      exact walk_fits child hchild h
  | child :: children, others, hfits, tag + 1, payload, rest, h => by
      obtain ⟨child', children', rfl, -, hchildren⟩ := hfits
      rw [walkCase] at h ⊢
      exact walkCase_fits children hchildren tag h

end

/-! ## A descriptor has one tree -/

mutual

/-- The children of every node can be counted in sixteen bits. -/
def Representation.Counted : Representation → Prop
  | .record fields => fields.length < 65536 ∧ CountedAll fields
  | .list element _ => element.Counted
  | .variant cases => cases.length < 65536 ∧ CountedAll cases
  | _ => True

def CountedAll : List Representation → Prop
  | [] => True
  | child :: children => child.Counted ∧ CountedAll children

end

mutual

theorem Representation.Valid.counted : ∀ {r : Representation}, r.Valid → r.Counted
  | .unit, _ | .integer, _ | .boolean, _ | .string _, _ | .bytes _, _ => trivial
  | .record _, h => ⟨h.1, countedAll_of_valid h.2⟩
  | .list element _, h => Representation.Valid.counted (r := element) h.2.2
  | .variant _, h => ⟨h.2.1, countedAll_of_valid h.2.2⟩

theorem countedAll_of_valid : ∀ {rs : List Representation}, ValidAll rs → CountedAll rs
  | [], _ => trivial
  | _ :: _, h => ⟨h.1.counted, countedAll_of_valid h.2⟩

end

theorem Representation.Counted.children {r : Representation} (h : r.Counted) :
    r.children.length < 65536 ∧ CountedAll r.children := by
  cases r with
  | record fields => exact h
  | variant cases => exact h
  | list element maximum => exact ⟨by simp [Representation.children], h, trivial⟩
  | _ => exact ⟨by simp [Representation.children], trivial⟩

/-- The first nodes of two descriptors are the same. -/
theorem encode_head_eq {r s : Representation} {a b : Bytes} (hr : r.Counted) (hs : s.Counted)
    (h : encodeRepresentation r ++ a = encodeRepresentation s ++ b) :
    r.kind = s.kind ∧ r.children.length = s.children.length ∧ r.bound = s.bound ∧
      encodeAll r.children ++ a = encodeAll s.children ++ b := by
  rw [encode_eq, encode_eq, List.append_assoc, List.append_assoc] at h
  obtain ⟨hnode, hrest⟩ := List.append_inj h (by rw [length_nodeBytes, length_nodeBytes])
  have hread : ∀ {kind : UInt8} {children : Nat} {bound : UInt32} {bytes : Bytes},
      nodeBytes kind children bound = bytes → bytes.readU8 0 = kind ∧
        bytes.readU16 2 = UInt16.ofNat children ∧ bytes.readU32 4 = bound := by
    intro kind children bound bytes hbytes
    have hprefix : nodeBytes kind children bound <+: bytes.drop 0 := by
      exact hbytes ▸ List.prefix_rfl
    obtain ⟨hkind, -, hchildren, hbound⟩ := node_read hprefix
    exact ⟨hkind, hchildren, hbound⟩
  obtain ⟨hkind, hchildren, hbound⟩ := hread hnode
  obtain ⟨hkind', hchildren', hbound'⟩ := hread (rfl : nodeBytes s.kind _ _ = _)
  have hcount := congrArg UInt16.toNat (hchildren.symm.trans hchildren')
  rw [UInt16.toNat_ofNat_of_lt' hr.children.1, UInt16.toNat_ofNat_of_lt' hs.children.1] at hcount
  exact ⟨hkind.symm.trans hkind', hcount, hbound.symm.trans hbound', hrest⟩

mutual

/-- **Bytes start with one descriptor at most.** -/
theorem encode_prefix : ∀ {r s : Representation} {a b : Bytes}, r.Counted → s.Counted →
    encodeRepresentation r ++ a = encodeRepresentation s ++ b → r = s ∧ a = b
  | .record fields, s, a, b, hr, hs, h => by
      obtain ⟨hkind, hlength, -, hrest⟩ := encode_head_eq hr hs h
      cases s <;> cases hkind
      obtain ⟨rfl, rfl⟩ := encodeAll_prefix hlength hr.2 hs.2 hrest
      exact ⟨rfl, rfl⟩
  | .variant cases, s, a, b, hr, hs, h => by
      obtain ⟨hkind, hlength, -, hrest⟩ := encode_head_eq hr hs h
      cases s <;> cases hkind
      obtain ⟨rfl, rfl⟩ := encodeAll_prefix hlength hr.2 hs.2 hrest
      exact ⟨rfl, rfl⟩
  | .list element maximum, s, a, b, hr, hs, h => by
      obtain ⟨hkind, -, hbound, hrest⟩ := encode_head_eq hr hs h
      cases s <;> cases hkind
      simp only [Representation.children, encodeAll, List.append_nil] at hrest
      rename_i element' maximum'
      have helement : element.Counted := hr
      have helement' : element'.Counted := hs
      obtain ⟨rfl, rfl⟩ := encode_prefix helement helement' hrest
      have hmaximum := congrArg UInt32.toNat hbound
      simp only [Representation.bound, UInt16.toNat_toUInt32] at hmaximum
      rw [UInt16.toNat_inj.mp hmaximum]
      exact ⟨rfl, rfl⟩
  | .string maximum, s, a, b, hr, hs, h => by
      obtain ⟨hkind, -, hbound, hrest⟩ := encode_head_eq hr hs h
      cases s <;> cases hkind
      exact ⟨congrArg Representation.string hbound, hrest⟩
  | .bytes maximum, s, a, b, hr, hs, h => by
      obtain ⟨hkind, -, hbound, hrest⟩ := encode_head_eq hr hs h
      cases s <;> cases hkind
      exact ⟨congrArg Representation.bytes hbound, hrest⟩
  | .unit, s, a, b, hr, hs, h => by
      obtain ⟨hkind, -, -, hrest⟩ := encode_head_eq hr hs h
      cases s <;> cases hkind
      exact ⟨rfl, hrest⟩
  | .integer, s, a, b, hr, hs, h => by
      obtain ⟨hkind, -, -, hrest⟩ := encode_head_eq hr hs h
      cases s <;> cases hkind
      exact ⟨rfl, hrest⟩
  | .boolean, s, a, b, hr, hs, h => by
      obtain ⟨hkind, -, -, hrest⟩ := encode_head_eq hr hs h
      cases s <;> cases hkind
      exact ⟨rfl, hrest⟩

theorem encodeAll_prefix : ∀ {rs ss : List Representation} {a b : Bytes}, rs.length = ss.length →
    CountedAll rs → CountedAll ss → encodeAll rs ++ a = encodeAll ss ++ b → rs = ss ∧ a = b
  | [], [], a, b, _, _, _, h => ⟨rfl, h⟩
  | r :: rs, s :: ss, a, b, hlength, hr, hs, h => by
      rw [encodeAll, encodeAll, List.append_assoc, List.append_assoc] at h
      obtain ⟨rfl, hrest⟩ := encode_prefix hr.1 hs.1 h
      obtain ⟨rfl, rfl⟩ := encodeAll_prefix (Nat.succ.inj hlength) hr.2 hs.2 hrest
      exact ⟨rfl, rfl⟩

end

/-- **A type is represented by the tree whose bytes describe it.** -/
theorem represents_of_bytes {image : Image} {typeId : UInt16} {range : Nat × Nat}
    {r : Representation} (hcounted : r.Counted) (hdescriptor : image.tables.descriptor typeId = some range)
    (hbytes : image.bytes.slice range.1 (range.2 - range.1) = encodeRepresentation r) :
    Represents image typeId range r := by
  obtain ⟨s, hs⟩ := exists_represents image hdescriptor
  have hsame : encodeRepresentation s ++ [] = encodeRepresentation r ++ [] := by
    have hlength : range.2 - range.1 = (encodeRepresentation s).length := by
      have := hs.last
      omega
    rw [← hbytes, hlength, hs.stands.slice_eq]
  obtain ⟨rfl, -⟩ := encode_prefix hs.stands.valid.counted hcounted hsame
  exact hs

end Image

namespace Catalog

/-! ## Names and places -/

mutual

/-- What a `BTreeMap` is: the entries stand in the order of their names, each name once. -/
def Representation.Ordered : Representation → Prop
  | .record fields => Assoc.Sorted fields ∧ OrderedAll fields
  | .list element _ => element.Ordered
  | .variant cases => Assoc.Sorted cases ∧ OrderedAll cases
  | _ => True

def OrderedAll : List (String × Representation) → Prop
  | [] => True
  | (_, child) :: children => child.Ordered ∧ OrderedAll children

end

mutual

/-- `encode_representation`; it does not return if a node has more children than it can count. -/
def Representation.encode : Representation → Option Bytes
  | .unit => some (Image.nodeBytes 1 0 0)
  | .integer => some (Image.nodeBytes 2 0 0)
  | .boolean => some (Image.nodeBytes 3 0 0)
  | .string maximum => some (Image.nodeBytes 4 0 maximum)
  | .bytes maximum => some (Image.nodeBytes 5 0 maximum)
  | .record fields =>
      if fields.length < 65536 then do
        return Image.nodeBytes 6 fields.length 0 ++ (← encodeChildren fields)
      else none
  | .list element maximum => do
      return Image.nodeBytes 7 1 maximum.toUInt32 ++ (← element.encode)
  | .variant cases =>
      if cases.length < 65536 then do
        return Image.nodeBytes 8 cases.length 0 ++ (← encodeChildren cases)
      else none

def encodeChildren : List (String × Representation) → Option Bytes
  | [] => some []
  | (_, child) :: children => do
      return (← child.encode) ++ (← encodeChildren children)

end

theorem length_namelessAll : ∀ children : List (String × Representation),
    (namelessAll children).length = children.length
  | [] => rfl
  | _ :: children => by
      rw [namelessAll, List.length_cons, List.length_cons, length_namelessAll children]

mutual

/-- What is encoded is the tree without the names. -/
theorem encode_some : ∀ {r : Representation} {bytes : Bytes}, r.encode = some bytes →
    bytes = Image.encodeRepresentation r.nameless ∧ r.nameless.Counted
  | .unit, bytes, h | .integer, bytes, h | .boolean, bytes, h | .string _, bytes, h
  | .bytes _, bytes, h => ⟨(Option.some.inj h).symm, trivial⟩
  | .record fields, bytes, h => by
      rw [Representation.encode] at h
      split at h
      swap
      · cases h
      rename_i hcount
      simp only [Option.bind_eq_bind, Option.bind_eq_some_iff] at h
      obtain ⟨behind, hbehind, h⟩ := h
      obtain ⟨rfl, hcounted⟩ := encodeChildren_some hbehind
      have hlength := length_namelessAll fields
      refine ⟨?_, by rw [hlength]; exact hcount, hcounted⟩
      rw [← Option.some.inj h, Representation.nameless, Image.encodeRepresentation, hlength]
  | .list element maximum, bytes, h => by
      simp only [Representation.encode, Option.bind_eq_bind, Option.bind_eq_some_iff] at h
      obtain ⟨behind, hbehind, h⟩ := h
      obtain ⟨rfl, hcounted⟩ := encode_some hbehind
      refine ⟨?_, hcounted⟩
      rw [← Option.some.inj h, Representation.nameless, Image.encodeRepresentation]
  | .variant cases, bytes, h => by
      rw [Representation.encode] at h
      split at h
      swap
      · cases h
      rename_i hcount
      simp only [Option.bind_eq_bind, Option.bind_eq_some_iff] at h
      obtain ⟨behind, hbehind, h⟩ := h
      obtain ⟨rfl, hcounted⟩ := encodeChildren_some hbehind
      have hlength := length_namelessAll cases
      refine ⟨?_, by rw [hlength]; exact hcount, hcounted⟩
      rw [← Option.some.inj h, Representation.nameless, Image.encodeRepresentation, hlength]

theorem encodeChildren_some : ∀ {children : List (String × Representation)} {bytes : Bytes},
    encodeChildren children = some bytes →
      bytes = Image.encodeAll (namelessAll children) ∧ Image.CountedAll (namelessAll children)
  | [], bytes, h => ⟨(Option.some.inj h).symm, trivial⟩
  | (_, child) :: children, bytes, h => by
      simp only [encodeChildren, Option.bind_eq_bind, Option.bind_eq_some_iff] at h
      obtain ⟨first, hfirst, behind, hbehind, h⟩ := h
      obtain ⟨rfl, hcounted⟩ := encode_some hfirst
      obtain ⟨rfl, hall⟩ := encodeChildren_some hbehind
      exact ⟨(Option.some.inj h).symm, hcounted, hall⟩

end

/-! ## `compatible_with` -/

/-- Every child that was compared has a partner under its name. -/
structure Matched (children others : List (String × Representation)) : Prop where
  length : children.length = others.length
  matched : ∀ entry ∈ children, ∃ partner path, others.lookup entry.1 = some partner ∧
    entry.2.compatibleWith partner path = .ok ()

theorem compatibleFields_ok : ∀ {fields destination : List (String × Representation)}
    {path : String}, compatibleFields fields destination path = .ok () →
    ∀ entry ∈ fields, ∃ partner path, destination.lookup entry.1 = some partner ∧
      entry.2.compatibleWith partner path = .ok ()
  | [], _, _, _ => by simp
  | (name, field) :: fields, destination, path, h => by
      rw [compatibleFields] at h
      cases hlookup : destination.lookup name with
      | none => rw [hlookup] at h; cases h
      | some partner =>
          simp only [hlookup, bind_ok] at h
          obtain ⟨⟨⟩, hfield, h⟩ := h
          rw [List.forall_mem_cons]
          exact ⟨⟨partner, _, hlookup, hfield⟩, compatibleFields_ok h⟩

theorem compatibleCases_ok : ∀ {cases destination : List (String × Representation)}
    {path : String}, compatibleCases cases destination path = .ok () →
    ∀ entry ∈ cases, ∃ partner path, destination.lookup entry.1 = some partner ∧
      entry.2.compatibleWith partner path = .ok ()
  | [], _, _, _ => by simp
  | (name, payload) :: cases_, destination, path, h => by
      rw [compatibleCases] at h
      cases hlookup : destination.lookup name with
      | none => rw [hlookup] at h; cases h
      | some partner =>
          simp only [hlookup, bind_ok] at h
          obtain ⟨⟨⟩, hpayload, h⟩ := h
          rw [List.forall_mem_cons]
          exact ⟨⟨partner, _, hlookup, hpayload⟩, compatibleCases_ok h⟩

/-- **Partners stand in the same places**: both maps have the same names in the same order. -/
theorem Matched.names_eq {children others : List (String × Representation)}
    (h : Matched children others) (hsorted : Assoc.Sorted children) (hsorted' : Assoc.Sorted others) :
    children.map Prod.fst = others.map Prod.fst := by
  refine hsorted.keys_eq hsorted' h.length fun name hname => ?_
  obtain ⟨entry, hentry, rfl⟩ := List.mem_map.mp hname
  obtain ⟨partner, -, hlookup, -⟩ := h.matched entry hentry
  exact List.mem_map.mpr ⟨(entry.1, partner), Assoc.mem_of_lookup hlookup, rfl⟩

theorem orderedAll_mem : ∀ {children : List (String × Representation)}, OrderedAll children →
    ∀ entry ∈ children, entry.2.Ordered
  | [], _ => by simp
  | (_, child) :: children, h => by
      rw [List.forall_mem_cons]
      exact ⟨h.1, orderedAll_mem h.2⟩

mutual

/-- **A representation that is compatible by name fits by place.** -/
theorem fits_of_compatible : ∀ (r : Representation) {s : Representation} {path : String},
    r.Ordered → s.Ordered → r.compatibleWith s path = .ok () → r.nameless.Fits s.nameless
  | .unit, s, path, hr, hs, h => by
      cases s <;> cases h
      exact rfl
  | .integer, s, path, hr, hs, h => by
      cases s <;> cases h
      exact rfl
  | .boolean, s, path, hr, hs, h => by
      cases s <;> cases h
      exact rfl
  | .string maximum, s, path, hr, hs, h => by
      cases s <;> first | cases h | skip
      rw [Representation.compatibleWith, compatibleBytes] at h
      split at h
      · cases h
      · rename_i maximum' hle
        exact ⟨maximum', rfl, UInt32.not_lt.mp hle⟩
  | .bytes maximum, s, path, hr, hs, h => by
      cases s <;> first | cases h | skip
      rw [Representation.compatibleWith, compatibleBytes] at h
      split at h
      · cases h
      · rename_i maximum' hle
        exact ⟨maximum', rfl, UInt32.not_lt.mp hle⟩
  | .record fields, s, path, hr, hs, h => by
      cases s <;> first | cases h | skip
      rename_i fields'
      rw [Representation.compatibleWith] at h
      split at h
      · cases h
      rename_i hlength
      have hmatched : Matched fields fields' :=
        ⟨not_not.mp hlength, compatibleFields_ok h⟩
      exact ⟨_, rfl, fitsAll_of_matched fields hr.2 hs.2 (hmatched.names_eq hr.1 hs.1)
        (fun _ hmem => hs.1.lookup hmem) hmatched.matched⟩
  | .list element maximum, s, path, hr, hs, h => by
      cases s <;> first | cases h | skip
      rw [Representation.compatibleWith] at h
      split at h
      · cases h
      · rename_i element' maximum' hle
        exact ⟨_, maximum', rfl, UInt16.not_lt.mp hle, fits_of_compatible element hr hs h⟩
  | .variant cases_, s, path, hr, hs, h => by
      cases s <;> first | cases h | skip
      rename_i cases'
      rw [Representation.compatibleWith] at h
      split at h
      · cases h
      rename_i hlength
      have hmatched : Matched cases_ cases' :=
        ⟨not_not.mp hlength, compatibleCases_ok h⟩
      exact ⟨_, rfl, fitsAll_of_matched cases_ hr.2 hs.2 (hmatched.names_eq hr.1 hs.1)
        (fun _ hmem => hs.1.lookup hmem) hmatched.matched⟩

/-- The induction goes along both maps, whose partners are looked up in the whole of the other. -/
theorem fitsAll_of_matched : ∀ (children : List (String × Representation))
    {others whole : List (String × Representation)}, OrderedAll children → OrderedAll others →
    children.map Prod.fst = others.map Prod.fst →
    (∀ entry ∈ others, whole.lookup entry.1 = some entry.2) →
    (∀ entry ∈ children, ∃ partner path, whole.lookup entry.1 = some partner ∧
      entry.2.compatibleWith partner path = .ok ()) →
    Image.FitsAll (namelessAll children) (namelessAll others)
  | [], others, whole, _, _, hnames, _, _ => by
      obtain rfl : others = [] := List.map_eq_nil_iff.mp hnames.symm
      exact rfl
  | (name, child) :: children, [], whole, _, _, hnames, _, _ => by cases hnames
  | (name, child) :: children, (name', child') :: others, whole, hr, hs, hnames, hwhole,
      hmatched => by
      have hrest : children.map Prod.fst = others.map Prod.fst := (List.cons.inj hnames).2
      obtain rfl : name = name' := (List.cons.inj hnames).1
      obtain ⟨partner, path, hlookup, hcompatible⟩ := hmatched (name, child) (by simp)
      rw [hwhole (name, child') (by simp)] at hlookup
      obtain rfl : child' = partner := Option.some.inj hlookup
      exact ⟨child'.nameless, namelessAll others, rfl, fits_of_compatible child hr.1 hs.1 hcompatible,
        fitsAll_of_matched children hr.2 hs.2 hrest
          (fun entry hentry => hwhole entry (by simp [hentry]))
          (fun entry hentry => hmatched entry (by simp [hentry]))⟩

end

/-! ## Passing a value on -/

/-- A type of an accepted image whose descriptor is the encoded representation. -/
def Describes (image : Image) (typeId : UInt16) (representation : Representation) : Prop :=
  ∃ range, image.tables.descriptor typeId = some range ∧
    representation.encode = some (image.bytes.slice range.1 (range.2 - range.1))

theorem Describes.represents {image : Image} {typeId : UInt16} {r : Representation}
    (h : Describes image typeId r) :
    ∃ range, Image.Represents image typeId range r.nameless := by
  obtain ⟨range, hdescriptor, hencode⟩ := h
  obtain ⟨hbytes, hcounted⟩ := encode_some hencode
  exact ⟨range, Image.represents_of_bytes hcounted hdescriptor hbytes⟩

/--
**Presentation is sound.** If a source representation is compatible with a destination, then whatever
image either of them is encoded in, every payload that is accepted for the source is accepted for
the destination, by the loader's validator and by the compiler's.
-/
theorem presentation_sound {source destination : Representation} (hsource : source.Ordered)
    (hdestination : destination.Ordered) {path : String}
    (hcompatible : source.compatibleWith destination path = .ok ())
    {image image' : Image} {typeId typeId' : UInt16} (hdescribes : Describes image typeId source)
    (hdescribes' : Describes image' typeId' destination) (payload : Bytes) :
    (image.validateValue typeId payload = true → image'.validateValue typeId' payload = true) ∧
      (Compiler.validateGraphValue image.bytes typeId payload = .ok () →
        Compiler.validateGraphValue image'.bytes typeId' payload = .ok ()) := by
  obtain ⟨range, hr⟩ := hdescribes.represents
  obtain ⟨range', hs⟩ := hdescribes'.represents
  have hfits := fits_of_compatible source hsource hdestination hcompatible
  have hloader : image.validateValue typeId payload = true →
      image'.validateValue typeId' payload = true := by
    rw [hr.validateValue, hs.validateValue]
    exact Image.walk_fits _ hfits
  refine ⟨hloader, fun h => ?_⟩
  have hok : ∀ {image : Image} {typeId : UInt16}, image.validateValue typeId payload = true ↔
      Compiler.validateGraphValue image.bytes typeId payload = .ok () := by
    intro image typeId
    rw [Compiler.validateValue_iff]
    cases Compiler.validateGraphValue image.bytes typeId payload <;> simp [Except.toOption]
  exact hok.mp (hloader (hok.mpr h))

/-- A flag with a note of at most so many bytes. -/
def note (maximum : UInt32) : Representation :=
  .record [("flag", .boolean), ("note", .bytes maximum)]

/-- A workflow of one action in whose image notes of two and of five bytes are described. -/
def notesLayout : Image.Layout where
  errors := [1]
  contracts := [.of 1]
  types := [Image.boolType, (2, Image.encodeRepresentation (note 2).nameless),
    (3, Image.encodeRepresentation (note 5).nameless)]
  nodes := [.action1 1, .terminal 1, .terminal 2, .terminal 3, .terminal 4]
  edges := [.wire 0 0 1 1, .wire 1 1 2 2, .wire 2 1 2 3, .bare 3 1 4, .bare 4 1 5]

set_option maxRecDepth 20000 in
theorem notes_valid : (Image.imageValidate notesLayout.encode).toOption.isSome = true := by
  decide +kernel

def notes : Image := notesLayout.image notes_valid

set_option maxRecDepth 20000 in
/-- A note of one byte may be passed on. -/
theorem presentation_sound_note :
    notes.validateValue 3 [1, 1, 0, 0, 0, 0, 0, 0, 0, 42] = true := by
  have hordered : ∀ maximum, (note maximum).Ordered := fun _ =>
    ⟨List.pairwise_pair.mpr (show "flag" < "note" by decide), trivial, trivial, trivial⟩
  have hcompatible : (note 2).compatibleWith (note 5) "$" = .ok () := rfl
  have hsource : Describes notes 2 (note 2) :=
    ⟨(272, 296), by decide +kernel, by decide +kernel⟩
  have hdestination : Describes notes 3 (note 5) :=
    ⟨(296, 320), by decide +kernel, by decide +kernel⟩
  exact (presentation_sound (hordered 2) (hordered 5) hcompatible hsource hdestination _).1
    (by decide +kernel)

end Catalog

end Hermas
