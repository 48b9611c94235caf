import Hermas.Image.Encode
import Hermas.Image.Representation

/-!
# Lists and their items

A list is a count and its items end to end. `hermas_image_list_items` says where
they stand; here that is a division of the payload into pieces, each of which the
walk along the element's tree takes off in one go. Values put end to end are such
pieces again, which is how a collected list comes to be canonical.
-/

namespace Hermas.Image

/-! ## A walk needs nothing behind the value -/

section Cut

variable {after rest payload : Bytes}

theorem takeHead_cut {word : UInt32} (h : takeHead (payload ++ after) = some (word, rest))
    (hafter : after <:+ rest) :
    ∃ front, rest = front ++ after ∧ takeHead payload = some (word, front) := by
  rw [takeHead_some] at h
  obtain ⟨hlen, hzero, hword, hrest⟩ := h
  have hroom : 8 ≤ payload.length := by
    have hlength := hafter.length_le
    rw [← hrest, List.length_drop, List.length_append] at hlength
    rw [List.length_append] at hlen
    omega
  rw [readU32_append _ (by omega)] at hzero hword
  rw [List.drop_append_of_le_length hroom] at hrest
  exact ⟨_, hrest.symm, takeHead_some.mpr ⟨hroom, hzero, hword, rfl⟩⟩

theorem takeBytes_cut {text : Bool} {maximum : UInt32}
    (h : takeBytes text maximum (payload ++ after) = some rest) (hafter : after <:+ rest) :
    ∃ front, rest = front ++ after ∧ takeBytes text maximum payload = some front := by
  rw [takeBytes_some] at h
  obtain ⟨length, behind, hhead, hmax, hlen, htext, hrest⟩ := h
  have hbehind : after <:+ behind := hafter.trans (hrest ▸ List.drop_suffix _ behind)
  obtain ⟨front, rfl, hfront⟩ := takeHead_cut hhead hbehind
  have hroom : length.toNat ≤ front.length := by
    have hlength := hafter.length_le
    rw [← hrest, List.length_drop, List.length_append] at hlength
    rw [List.length_append] at hlen
    omega
  rw [List.drop_append_of_le_length hroom] at hrest
  rw [List.take_append_of_le_length hroom] at htext
  exact ⟨_, hrest.symm, takeBytes_some.mpr ⟨length, front, hfront, hmax, hroom, htext, rfl⟩⟩

/-- A loop that takes values off the front stays in front of a common end. -/
theorem foldlM_cut {f : Bytes → Option Bytes} (hsuffix : ∀ p q, f p = some q → q <:+ p)
    (hf : ∀ p q, f (p ++ after) = some q → after <:+ q → ∃ front, q = front ++ after ∧ f p = some front)
    (rounds : List Nat) : ∀ {p q : Bytes}, rounds.foldlM (fun rest _ => f rest) (p ++ after) = some q →
      after <:+ q → ∃ front, q = front ++ after ∧
        rounds.foldlM (fun rest _ => f rest) p = some front := by
  induction rounds with
  | nil =>
      intro p q h _
      rw [List.foldlM_nil] at h
      exact ⟨p, (Option.some.inj h).symm, rfl⟩
  | cons _ rounds ih =>
      intro p q h hafter
      rw [List.foldlM_cons, Option.bind_eq_bind, Option.bind_eq_some_iff] at h
      obtain ⟨next, hnext, h⟩ := h
      have hq : q <:+ next := foldlM_take (R := fun p q => q <:+ p) List.suffix_refl
        (fun hpq hqr => hqr.trans hpq) hsuffix _ h
      obtain ⟨front, rfl, hfront⟩ := hf p next hnext (hafter.trans hq)
      rw [List.foldlM_cons, Option.bind_eq_bind, hfront]
      exact ih h hafter

mutual

/-- **A walk that stops in front of an end does not need that end.** -/
theorem walk_cut : ∀ (r : Representation) {payload rest : Bytes},
    r.walk (payload ++ after) = some rest → after <:+ rest →
      ∃ front, rest = front ++ after ∧ r.walk payload = some front
  | .unit, payload, rest, h, _ => by
      rw [Representation.walk] at h
      exact ⟨payload, (Option.some.inj h).symm, rfl⟩
  | .integer, payload, rest, h, hafter => by
      rw [Representation.walk] at h
      split at h
      · cases h
      rename_i hlen
      have hlength := hafter.length_le
      rw [← Option.some.inj h, List.length_drop, List.length_append] at hlength
      rw [List.length_append] at hlen
      have hroom : 8 ≤ payload.length := by omega
      rw [List.drop_append_of_le_length hroom] at h
      exact ⟨_, (Option.some.inj h).symm, by rw [Representation.walk, if_neg (by omega)]⟩
  | .boolean, payload, rest, h, hafter => by
      cases payload with
      | nil =>
          -- The flag would be the first byte of the end itself.
          have hlength := hafter.length_le
          cases after with
          | nil => cases h
          | cons value behind =>
              simp only [Representation.walk, List.nil_append] at h
              split at h
              · cases h
              · rw [← Option.some.inj h, List.length_cons] at hlength
                omega
      | cons value behind =>
          simp only [Representation.walk, List.cons_append] at h ⊢
          split at h
          · cases h
          · rename_i hvalue
            exact ⟨behind, (Option.some.inj h).symm, if_neg hvalue⟩
  | .string maximum, payload, rest, h, hafter => by
      rw [Representation.walk] at h ⊢
      exact takeBytes_cut h hafter
  | .bytes maximum, payload, rest, h, hafter => by
      rw [Representation.walk] at h ⊢
      exact takeBytes_cut h hafter
  | .record fields, payload, rest, h, hafter => by
      rw [Representation.walk] at h ⊢
      exact walkAll_cut fields h hafter
  | .list element maximum, payload, rest, h, hafter => by
      rw [Representation.walk, Option.bind_eq_bind, Option.bind_eq_some_iff] at h
      obtain ⟨⟨count, behind⟩, hhead, h⟩ := h
      simp only at h
      split at h
      · cases h
      rename_i hcount
      have hbehind : rest <:+ behind := foldlM_take (R := fun p q => q <:+ p) List.suffix_refl
        (fun hpq hqr => hqr.trans hpq) (fun p q hp => walk_suffix element hp) _ h
      obtain ⟨front, rfl, hfront⟩ := takeHead_cut hhead (hafter.trans hbehind)
      obtain ⟨last, hlast, h⟩ := foldlM_cut (fun p q hp => walk_suffix element hp)
        (fun p q hp hq => walk_cut element hp hq) _ h hafter
      refine ⟨last, hlast, ?_⟩
      rw [Representation.walk, hfront, Option.bind_eq_bind, Option.bind_some]
      simp only
      rw [if_neg hcount, h]
  | .variant cases, payload, rest, h, hafter => by
      rw [Representation.walk, Option.bind_eq_bind, Option.bind_eq_some_iff] at h
      obtain ⟨⟨tag, behind⟩, hhead, h⟩ := h
      have hbehind := walkCase_suffix cases tag.toNat h
      obtain ⟨front, rfl, hfront⟩ := takeHead_cut hhead (hafter.trans hbehind)
      obtain ⟨last, hlast, h⟩ := walkCase_cut cases tag.toNat h hafter
      refine ⟨last, hlast, ?_⟩
      rw [Representation.walk, hfront, Option.bind_eq_bind, Option.bind_some]
      exact h

theorem walkAll_cut : ∀ (children : List Representation) {payload rest : Bytes},
    walkAll children (payload ++ after) = some rest → after <:+ rest →
      ∃ front, rest = front ++ after ∧ walkAll children payload = some front
  | [], payload, rest, h, _ => by
      rw [walkAll] at h
      exact ⟨payload, (Option.some.inj h).symm, rfl⟩
  | child :: children, payload, rest, h, hafter => by
      rw [walkAll, Option.bind_eq_some_iff] at h
      obtain ⟨behind, hchild, h⟩ := h
      have hbehind := walkAll_suffix children h
      obtain ⟨front, rfl, hfront⟩ := walk_cut child hchild (hafter.trans hbehind)
      obtain ⟨last, hlast, h⟩ := walkAll_cut children h hafter
      exact ⟨last, hlast, by rw [walkAll, hfront, Option.bind_some, h]⟩

theorem walkCase_cut : ∀ (cases : List Representation) (tag : Nat) {payload rest : Bytes},
    walkCase cases tag (payload ++ after) = some rest → after <:+ rest →
      ∃ front, rest = front ++ after ∧ walkCase cases tag payload = some front
  | [], tag, payload, rest, h, _ => by
      rw [walkCase] at h
      cases h
  | child :: children, 0, payload, rest, h, hafter => by
      rw [walkCase] at h ⊢
      exact walk_cut child h hafter
  | child :: children, tag + 1, payload, rest, h, hafter => by
      rw [walkCase] at h ⊢
      exact walkCase_cut children tag h hafter

end

end Cut

/-! ## Pieces -/

/-- The walk along the tree takes off these pieces one after the other. -/
inductive Pieces (element : Representation) : List Bytes → Bytes → Bytes → Prop
  | nil (payload : Bytes) : Pieces element [] payload payload
  | cons {value after rest : Bytes} {values : List Bytes} :
      element.walk (value ++ after) = some after → Pieces element values after rest →
      Pieces element (value :: values) (value ++ after) rest

variable {element : Representation} {values : List Bytes} {payload rest : Bytes}

theorem Pieces.flatten (h : Pieces element values payload rest) :
    payload = values.flatten ++ rest := by
  induction h with
  | nil payload => rfl
  | cons _ _ ih => rw [List.flatten_cons, List.append_assoc, ← ih]

theorem Pieces.walk (h : Pieces element values payload rest) :
    ∀ {rounds : List Nat}, rounds.length = values.length →
      rounds.foldlM (fun rest _ => element.walk rest) payload = some rest := by
  induction h with
  | nil payload =>
      intro rounds hlen
      obtain rfl := List.length_eq_zero_iff.mp hlen
      rfl
  | cons hvalue _ ih =>
      intro rounds hlen
      cases rounds with
      | nil => cases hlen
      | cons _ rounds =>
          rw [List.foldlM_cons, hvalue]
          exact ih (Nat.succ.inj hlen)

/-- A walk that gets through divides the payload. -/
theorem pieces_of_walk (rounds : List Nat) : ∀ {payload rest : Bytes},
    rounds.foldlM (fun rest _ => element.walk rest) payload = some rest →
      ∃ values, values.length = rounds.length ∧ Pieces element values payload rest := by
  induction rounds with
  | nil =>
      intro payload rest h
      rw [List.foldlM_nil] at h
      obtain rfl := Option.some.inj h
      exact ⟨[], rfl, .nil _⟩
  | cons _ rounds ih =>
      intro payload rest h
      rw [List.foldlM_cons, Option.bind_eq_bind, Option.bind_eq_some_iff] at h
      obtain ⟨after, hwalk, h⟩ := h
      obtain ⟨values, hlen, hpieces⟩ := ih h
      obtain ⟨value, rfl⟩ := walk_suffix element hwalk
      exact ⟨value :: values, by rw [List.length_cons, List.length_cons, hlen],
        .cons hwalk hpieces⟩

/-- **Canonical values end to end are the pieces they were.** -/
theorem pieces_of_values : ∀ {values : List Bytes},
    (∀ value ∈ values, element.walk value = some []) → Pieces element values values.flatten []
  | [], _ => .nil []
  | value :: values, h => by
      have hwalk := walk_append values.flatten element (h value (by simp))
      exact .cons hwalk (pieces_of_values fun v hv => h v (by simp [hv]))

/-- Each piece is a value of its own: the walk that takes it off does not need what is behind. -/
theorem Pieces.accepted (h : Pieces element values payload rest) :
    ∀ value ∈ values, element.walk value = some [] := by
  induction h with
  | nil => simp
  | cons hwalk hrest ih =>
      obtain ⟨front, hfront, hvalue⟩ := walk_cut element hwalk (List.suffix_refl _)
      obtain rfl : front = [] := List.append_left_eq_self.mp hfront.symm
      rw [List.forall_mem_cons]
      exact ⟨hvalue, ih⟩

/-! ## `hermas_image_list_items` -/

section Items

variable {bytes : Bytes} {stop levels start : Nat}

/-- The ranges of values that stand end to end. -/
def ranges : Nat → List Bytes → List (Nat × Nat)
  | _, [] => []
  | cursor, value :: values => (cursor, value.length) :: ranges (cursor + value.length) values

/-- Each range begins where the one before it ends, the first at one place and the last up to the
other. -/
def Contiguous : Nat → List (Nat × Nat) → Nat → Prop
  | start, [], stop => start = stop
  | start, item :: items, stop => item.1 = start ∧ Contiguous (item.1 + item.2) items stop

theorem contiguous_ranges : ∀ (cursor : Nat) (values : List Bytes),
    Contiguous cursor (ranges cursor values) (cursor + values.flatten.length)
  | _, [] => rfl
  | cursor, value :: values => by
      rw [List.flatten_cons, List.length_append, ← Nat.add_assoc]
      exact ⟨rfl, contiguous_ranges (cursor + value.length) values⟩

theorem length_ranges : ∀ (cursor : Nat) (values : List Bytes),
    (ranges cursor values).length = values.length
  | _, [] => rfl
  | cursor, value :: values => by
      rw [ranges, List.length_cons, List.length_cons, length_ranges (cursor + value.length) values]

theorem slice_ranges {payload : Bytes} : ∀ {cursor : Nat} {values : List Bytes},
    values.flatten <+: payload.drop cursor →
      (ranges cursor values).map (fun item => payload.slice item.1 item.2) = values
  | _, [], _ => rfl
  | cursor, value :: values, h => by
      rw [List.flatten_cons] at h
      obtain ⟨hvalue, hrest⟩ := stands_append.mp h
      obtain ⟨behind, hbehind⟩ := hvalue
      rw [ranges, List.map_cons, slice_ranges hrest, Bytes.slice, ← hbehind, List.take_left]

/-- The items are found where the pieces are. -/
theorem Pieces.items_eq (hstands : Stands bytes stop levels element start)
    (h : Pieces element values rest []) : ∀ (rounds : List Nat) (items : List (Nat × Nat))
    {payload : Bytes} {cursor : Nat}, payload.drop cursor = rest → cursor ≤ payload.length →
    rounds.length = values.length →
    rounds.foldlM
        (fun (items, cursor) _ =>
          (validateValueInner bytes stop payload levels start cursor).bind fun next =>
            if next.1 = start + (encodeRepresentation element).length then
              some (items ++ [(cursor, next.2 - cursor)], next.2)
            else none)
        (items, cursor) = some (items ++ ranges cursor values, payload.length) := by
  generalize hend : ([] : Bytes) = final at h
  induction h with
  | nil last =>
      intro rounds items payload cursor hdrop hcursor hlen
      obtain rfl := List.length_eq_zero_iff.mp hlen
      rw [← hend, List.drop_eq_nil_iff] at hdrop
      obtain rfl := Nat.le_antisymm hcursor hdrop
      simp [ranges]
  | @cons value after final values hwalk hrest ih =>
      intro rounds items payload cursor hdrop hcursor hlen
      cases rounds with
      | nil => cases hlen
      | cons _ rounds =>
          have hsuffix : after <:+ payload :=
            (List.suffix_append value after).trans (hdrop ▸ List.drop_suffix cursor payload)
          have hlength : payload.length - cursor = value.length + after.length := by
            rw [← List.length_append, ← hdrop, List.length_drop]
          have hnext : payload.length - after.length = cursor + value.length := by omega
          have hfound := ih hend rounds (items ++ [(cursor, payload.length - after.length - cursor)])
            (drop_cursor hsuffix) (Nat.sub_le _ _) (Nat.succ.inj hlen)
          rw [List.foldlM_cons]
          dsimp only
          rw [validateValueInner_walk hstands hcursor, hdrop, hwalk]
          simp only [Option.map_some, Option.bind_eq_bind, Option.bind_some, if_true]
          rw [hfound, ranges, hnext, List.append_assoc, Nat.add_sub_cancel_left]
          rfl

end Items

section Image

variable {image : Image} {typeId : UInt16} {range : Nat × Nat} {maximum : UInt16} {count : UInt32}

/-- The tree of the items stands behind the node of the list. -/
theorem Represents.child (h : Represents image typeId range (.list element maximum)) :
    Stands image.bytes range.2 64 element (range.1 + 8) := by
  have hall := h.stands.children.head
  have hlast := h.last
  rw [Stands.end_eq] at hlast
  simp only [Representation.children, encodeAll, List.append_nil] at hlast
  exact ⟨hall.valid, hall.depth, hall.stands, by omega⟩

theorem validateValue_list (h : Represents image typeId range (.list element maximum)) :
    image.validateValue typeId payload = true ↔ ∃ count values, ¬ maximum.toUInt32 < count ∧
      values.length = count.toNat ∧ takeHead payload = some (count, values.flatten) ∧
        Pieces element values values.flatten [] := by
  rw [h.validateValue, Representation.walk, Option.bind_eq_bind, Option.bind_eq_some_iff]
  constructor
  · rintro ⟨⟨count, behind⟩, hhead, hwalk⟩
    simp only at hwalk
    split at hwalk
    · cases hwalk
    · rename_i hcount
      obtain ⟨values, hlen, hpieces⟩ := pieces_of_walk _ hwalk
      rw [List.length_range] at hlen
      have hflatten := hpieces.flatten
      rw [List.append_nil] at hflatten
      exact ⟨count, values, hcount, hlen, hflatten ▸ hhead, hflatten ▸ hpieces⟩
  · rintro ⟨count, values, hcount, hlen, hhead, hpieces⟩
    refine ⟨(count, values.flatten), hhead, ?_⟩
    simp only
    rw [if_neg hcount]
    exact hpieces.walk (by rw [List.length_range, hlen])

/-- The items of a canonical list are found where its values are. -/
theorem listItems_eq_ranges (h : Represents image typeId range (.list element maximum))
    (hhead : takeHead payload = some (count, values.flatten)) (hlen : values.length = count.toNat)
    (hcount : ¬ maximum.toUInt32 < count) (hpieces : Pieces element values values.flatten [])
    (capacity : Nat) (hcapacity : count.toNat ≤ capacity) :
    image.listItems typeId payload capacity = some (ranges 8 values) := by
  obtain ⟨hroom, hreserved, hword, hbehind⟩ := takeHead_some.mp hhead
  obtain ⟨hkind, -, -, hbound⟩ := h.stands.node
  have hstands := h.child
  have hchild := hstands.validate
  have hfound := hpieces.items_eq hstands (List.range count.toNat) []
    hbehind hroom (by rw [List.length_range, hlen])
  have hmaximum : count.toNat ≤ maximum.toNat := by
    have := mt UInt32.lt_iff_toNat_lt.mpr hcount
    rw [UInt16.toNat_toUInt32] at this
    omega
  have hsmall := maximum.toNat_lt
  rw [Image.listItems, listItemsIn, if_neg (by omega), h.descriptor]
  simp only [hkind, hbound, hword, hreserved, Representation.kind, Representation.bound]
  rw [if_neg (by simp), if_neg (by
    simp only [ne_eq, not_true, false_or, not_or]
    exact ⟨hcount, by omega, by omega⟩), hchild]
  simp only [Option.bind_eq_bind, Option.bind_some]
  rw [List.nil_append] at hfound
  rw [hfound]
  simp

/-- **The items of a canonical list are found**, as long as there is room for them. -/
theorem listItems_of_pieces (h : Represents image typeId range (.list element maximum))
    (hhead : takeHead payload = some (count, values.flatten)) (hlen : values.length = count.toNat)
    (hcount : ¬ maximum.toUInt32 < count) (hpieces : Pieces element values values.flatten [])
    (capacity : Nat) (hcapacity : count.toNat ≤ capacity) :
    ∃ items, image.listItems typeId payload capacity = some items ∧
      items.map (fun item => payload.slice item.1 item.2) = values := by
  obtain ⟨-, -, -, hbehind⟩ := takeHead_some.mp hhead
  refine ⟨_, listItems_eq_ranges h hhead hlen hcount hpieces capacity hcapacity, slice_ranges ?_⟩
  exact hbehind ▸ List.prefix_rfl

/-! ## The lists of an each region -/

theorem Stands.slice_eq {bytes : Bytes} {stop levels start : Nat} {r : Representation}
    (h : Stands bytes stop levels r start) :
    bytes.slice start (encodeRepresentation r).length = encodeRepresentation r := by
  obtain ⟨behind, hbytes⟩ := h.stands
  rw [Bytes.slice, ← hbytes, List.take_left]

/-- A list type whose items are of another type, as the loader compares the two. -/
theorem listOf_represents {listType itemType : UInt16} {boundOk : UInt32 → Bool}
    (h : listOf image.bytes image.tables listType itemType boundOk = true) :
    ∃ range itemRange element maximum, Represents image listType range (.list element maximum) ∧
      Represents image itemType itemRange element ∧ boundOk maximum.toUInt32 = true := by
  unfold listOf at h
  split at h
  swap
  · cases h
  rename_i range itemRange hlist hitem
  simp only [Bool.and_eq_true, beq_iff_eq] at h
  obtain ⟨⟨hkind, hbound⟩, hchild⟩ := h
  obtain ⟨r, hr⟩ := exists_represents image hlist
  obtain ⟨s, hs⟩ := exists_represents image hitem
  obtain ⟨hkind', -, -, hbound'⟩ := hr.stands.node
  -- Only the tree of a list starts with this kind.
  obtain ⟨element, maximum, rfl⟩ : ∃ element maximum, r = .list element maximum := by
    rw [hkind] at hkind'
    cases r with
    | list element maximum => exact ⟨element, maximum, rfl⟩
    | _ => cases hkind'
  rw [hbound'] at hbound
  refine ⟨range, itemRange, element, maximum, hr, ?_, hbound⟩
  have hstands := hr.child
  have hone : ¬ (image.bytes.readU16 (range.1 + 2)).toNat ≤ 0 := by
    rw [hr.stands.childCount]
    simp [Representation.children]
  rw [representationChild, if_neg hone, childFrom, hstands.validate] at hchild
  simp only [Option.map_some, sameBytes, Bool.and_eq_true, beq_iff_eq] at hchild
  obtain ⟨hlength, hbytes⟩ := hchild
  have hsame : encodeRepresentation element = encodeRepresentation s := by
    have hleft := hstands.slice_eq
    have hright := hs.stands.slice_eq
    have hend := hs.last
    rw [Nat.add_sub_cancel_left] at hlength hbytes
    have hitems : itemRange.2 - itemRange.1 = (encodeRepresentation s).length := by omega
    rw [hitems, hleft, hright] at hbytes
    exact hbytes
  refine ⟨hs.descriptor, ⟨hstands.valid, hstands.depth.trans (by decide), ?_, ?_⟩, ?_⟩
  · rw [hsame]
    exact hs.stands.stands
  · rw [hsame]
    exact hs.stands.inside
  · rw [hsame]
    exact hs.last

/-! ## Collecting -/

/-- The two words in front of a list. -/
def listHead (count : Nat) : Bytes := Bytes.writeU32 (UInt32.ofNat count) ++ Bytes.writeU32 0

theorem takeHead_listHead (count : Nat) (behind : Bytes) :
    takeHead (listHead count ++ behind) = some (UInt32.ofNat count, behind) := by
  have hlen : (listHead count).length = 8 := by simp [listHead]
  rw [takeHead_some]
  refine ⟨by rw [List.length_append]; omega, ?_, ?_, ?_⟩
  · rw [listHead, List.append_assoc, Bytes.readU32_skip _ _ _ (by simp)]
    exact Bytes.readU32_here 0 behind
  · rw [listHead, List.append_assoc]
    exact Bytes.readU32_here _ _
  · rw [← hlen, List.drop_left]

/-- The items of a list value, in order. -/
def itemsOf (image : Image) (typeId : UInt16) (payload : Bytes)
    (capacity : Nat) : List Bytes :=
  ((image.listItems typeId payload capacity).getD []).map fun item => payload.slice item.1 item.2

/-- **A canonical list is found item by item.** -/
theorem listItems_of_valid (h : Represents image typeId range (.list element maximum))
    (hvalid : image.validateValue typeId payload = true) {capacity : Nat}
    (hcapacity : maximum.toNat ≤ capacity) :
    ∃ items, image.listItems typeId payload capacity = some items ∧
      items.length ≤ maximum.toNat := by
  obtain ⟨count, values, hcount, hlen, hhead, hpieces⟩ := (validateValue_list h).mp hvalid
  have hmaximum : count.toNat ≤ maximum.toNat := by
    have := mt UInt32.lt_iff_toNat_lt.mpr hcount
    rw [UInt16.toNat_toUInt32] at this
    omega
  obtain ⟨items, hitems, hvalues⟩ := listItems_of_pieces h hhead hlen hcount hpieces
    capacity (hmaximum.trans hcapacity)
  refine ⟨items, hitems, ?_⟩
  have := congrArg List.length hvalues
  rw [List.length_map] at this
  omega

/-- **Canonical values put end to end are a canonical list of these values.** -/
theorem collected_valid (h : Represents image typeId range (.list element maximum))
    (hvalues : ∀ value ∈ values, element.walk value = some [])
    (hcount : values.length ≤ maximum.toNat) {capacity : Nat} (hcapacity : maximum.toNat ≤ capacity) :
    image.validateValue typeId (listHead values.length ++ values.flatten) = true ∧
      image.itemsOf typeId (listHead values.length ++ values.flatten) capacity = values := by
  have hsmall : values.length < 65536 := hcount.trans_lt maximum.toNat_lt
  have hword : (UInt32.ofNat values.length).toNat = values.length := by
    rw [UInt32.toNat_ofNat', Nat.mod_eq_of_lt (by omega)]
  have hbound : ¬ maximum.toUInt32 < UInt32.ofNat values.length := by
    rw [UInt32.lt_iff_toNat_lt, hword, UInt16.toNat_toUInt32]
    omega
  have hhead := takeHead_listHead values.length values.flatten
  have hpieces := pieces_of_values hvalues
  refine ⟨(validateValue_list h).mpr ⟨_, values, hbound, hword.symm, hhead, hpieces⟩, ?_⟩
  obtain ⟨items, hitems, hslices⟩ := listItems_of_pieces h hhead hword.symm hbound hpieces
    capacity (by omega)
  rw [Image.itemsOf, hitems]
  exact hslices

end Image

/-! ## Splitting and collecting -/

/-- The walk along the descriptor at a place uses the payload up. -/
def accepts (bytes : Bytes) (stop levels start : Nat) (payload : Bytes) : Bool :=
  match validateValueInner bytes stop payload levels start 0 with
  | none => false
  | some cursors => cursors.2 == payload.length

theorem Stands.accepts {bytes : Bytes} {stop levels start : Nat} {r : Representation}
    (h : Stands bytes stop levels r start) (payload : Bytes) :
    accepts bytes stop levels start payload = true ↔ r.walk payload = some [] := by
  rw [Image.accepts, validateValueInner_walk h (Nat.zero_le _), List.drop_zero]
  cases hwalk : r.walk payload with
  | none => simp
  | some rest =>
      have hsuffix := (walk_suffix r hwalk).length_le
      simp only [Option.map_some, beq_iff_eq, Option.some.injEq]
      rw [← List.length_eq_zero_iff]
      omega

/-- An item of a list type: the descriptor of the items stands behind the node of the list. -/
def acceptsItem (image : Image) (typeId : UInt16) (item : Bytes) : Bool :=
  match image.tables.descriptor typeId with
  | none => false
  | some (descriptor, stop) => accepts image.bytes stop 64 (descriptor + 8) item

/-- The bound of a list type. -/
def listBound (image : Image) (typeId : UInt16) : Option Nat :=
  match image.tables.descriptor typeId with
  | none => none
  | some (descriptor, _) =>
      if image.bytes.readU8 descriptor = 7 then some (image.bytes.readU32 (descriptor + 4)).toNat
      else none

section Split

variable {image : Image} {typeId : UInt16} {range : Nat × Nat} {maximum : UInt16}

theorem Represents.acceptsItem (h : Represents image typeId range (.list element maximum))
    (item : Bytes) : acceptsItem image typeId item = true ↔ element.walk item = some [] := by
  rw [Image.acceptsItem, h.descriptor]
  exact h.child.accepts item

/-- A type with a bound is a list. -/
theorem listBound_represents {bound : Nat} (h : listBound image typeId = some bound) :
    ∃ range element maximum, Represents image typeId range (.list element maximum) ∧
      maximum.toNat = bound := by
  unfold listBound at h
  split at h
  · cases h
  rename_i descriptor stop hdescriptor
  split at h
  swap
  · cases h
  rename_i hlist
  obtain ⟨r, hr⟩ := exists_represents image hdescriptor
  obtain ⟨hkind, -, -, hbound⟩ := hr.stands.node
  rw [hlist] at hkind
  cases r with
  | list element maximum =>
      refine ⟨_, element, maximum, hr, ?_⟩
      rw [hbound] at h
      simpa [Representation.bound] using h
  | _ => cases hkind

/--
**Lists are split and collected without loss.** A value carries its own end: no accepted payload
begins another one. So the items of a list are found end to end behind the count, each of them
accepted, and they use the payload up. And accepted items, as many as the bound allows, become an
accepted list behind a count, which is split into these items again.
-/
theorem split_collect :
    (∀ (bytes : Bytes) (stop start last : Nat), stop ≤ bytes.length →
      validateRepresentation bytes stop 65 start = some last →
      ∀ payload behind, accepts bytes stop 65 start payload = true →
        accepts bytes stop 65 start (payload ++ behind) = true → behind = []) ∧
    (∀ (image : Image) (typeId : UInt16) (bound : Nat), listBound image typeId = some bound →
      ∀ payload capacity, image.validateValue typeId payload = true →
        (payload.readU32 0).toNat ≤ capacity →
        ∃ items, image.listItems typeId payload capacity = some items ∧
          items.length = (payload.readU32 0).toNat ∧ Contiguous 8 items payload.length ∧
          ∀ item ∈ items, acceptsItem image typeId (payload.slice item.1 item.2) = true) ∧
    (∀ (image : Image) (typeId : UInt16) (bound : Nat), listBound image typeId = some bound →
      ∀ values : List Bytes, values.length ≤ bound →
        (∀ value ∈ values, acceptsItem image typeId value = true) →
        image.validateValue typeId (listHead values.length ++ values.flatten) = true ∧
          ∀ capacity, values.length ≤ capacity →
            image.listItems typeId (listHead values.length ++ values.flatten) capacity =
              some (ranges 8 values) ∧
            (ranges 8 values).map
              (fun item => (listHead values.length ++ values.flatten).slice item.1 item.2) =
                values) := by
  refine ⟨?_, ?_, ?_⟩
  · intro bytes stop start last hstop hvalid payload behind hpayload hlonger
    obtain ⟨r, hr, hdepth, hstands, rfl, hlast⟩ := representation_of_validate hstop hvalid
    have h : Stands bytes stop 65 r start := ⟨hr, hdepth, hstands, hlast⟩
    rw [h.accepts] at hpayload hlonger
    have hwalk := walk_append behind r hpayload
    rw [hlonger, List.nil_append] at hwalk
    exact (Option.some.inj hwalk).symm
  · intro image typeId bound hbound payload capacity hvalid hcapacity
    obtain ⟨range, element, maximum, h, rfl⟩ := listBound_represents hbound
    obtain ⟨count, values, hcount, hlen, hhead, hpieces⟩ := (validateValue_list h).mp hvalid
    obtain ⟨hroom, -, hword, hbehind⟩ := takeHead_some.mp hhead
    rw [hword] at hcapacity ⊢
    have hslices : (ranges 8 values).map (fun item => payload.slice item.1 item.2) = values :=
      slice_ranges (hbehind ▸ List.prefix_rfl)
    refine ⟨ranges 8 values, listItems_eq_ranges h hhead hlen hcount hpieces capacity hcapacity,
      by rw [length_ranges, hlen], ?_, fun item hitem => ?_⟩
    · have hlength : payload.length = 8 + values.flatten.length := by
        rw [← hbehind, List.length_drop]
        omega
      rw [hlength]
      exact contiguous_ranges 8 values
    · have hmem : payload.slice item.1 item.2 ∈ values :=
        hslices ▸ List.mem_map_of_mem hitem
      rw [h.acceptsItem]
      exact hpieces.accepted _ hmem
  · intro image typeId bound hbound values hcount hvalues
    obtain ⟨range, element, maximum, h, rfl⟩ := listBound_represents hbound
    have hwalks : ∀ value ∈ values, element.walk value = some [] := fun value hvalue =>
      (h.acceptsItem value).mp (hvalues value hvalue)
    have hsmall : values.length < 65536 := hcount.trans_lt maximum.toNat_lt
    have hword : (UInt32.ofNat values.length).toNat = values.length := by
      rw [UInt32.toNat_ofNat', Nat.mod_eq_of_lt (by omega)]
    have hfits : ¬ maximum.toUInt32 < UInt32.ofNat values.length := by
      rw [UInt32.lt_iff_toNat_lt, hword, UInt16.toNat_toUInt32]
      omega
    have hhead := takeHead_listHead values.length values.flatten
    have hpieces := pieces_of_values hwalks
    refine ⟨(validateValue_list h).mpr ⟨_, values, hfits, hword.symm, hhead, hpieces⟩,
      fun capacity hcapacity => ⟨?_, slice_ranges ?_⟩⟩
    · exact listItems_eq_ranges h hhead hword.symm hfits hpieces capacity (by omega)
    · exact (takeHead_some.mp hhead).2.2.2 ▸ List.prefix_rfl

end Split

/-- A workflow of one action in whose image lists of at most three flags are described. -/
def flagsLayout : Layout where
  errors := [1]
  contracts := [.of 1]
  types := [boolType, (2, encodeRepresentation (.list .boolean 3))]
  nodes := [.action1 1, .terminal 1, .terminal 2, .terminal 3, .terminal 4]
  edges := [.wire 0 0 1 1, .wire 1 1 2 2, .wire 2 1 2 3, .bare 3 1 4, .bare 4 1 5]

set_option maxRecDepth 20000 in
theorem flags_valid : (imageValidate flagsLayout.encode).toOption.isSome = true := by
  decide +kernel

def flags : Image := flagsLayout.image flags_valid

set_option maxRecDepth 20000 in
/-- Two flags are collected, and found again in the list. -/
theorem split_collect_flags :
    (∃ items, flags.listItems 2 (listHead 2 ++ [1, 0]) 256 = some items ∧ items.length = 2) ∧
      flags.listItems 2 (listHead 2 ++ [1, 0]) 2 = some [(8, 1), (9, 1)] := by
  have hbound : listBound flags 2 = some 3 := by decide +kernel
  obtain ⟨hvalid, hsplit⟩ := split_collect.2.2 flags 2 3 hbound [[1], [0]] (by decide)
    (by decide +kernel)
  obtain ⟨items, hitems, hlength, -⟩ := split_collect.2.1 flags 2 3 hbound _ 256 hvalid
    (by decide)
  exact ⟨⟨items, hitems, hlength⟩, (hsplit 2 (by decide)).1⟩

end Hermas.Image
