import Hermas.Base.Verdict
import Hermas.Compiler.Decode

/-!
# Loader and decoder up to the nodes

Header, tables, descriptors and nodes: the daemon's loader and the compiler's
decoder check the same things here, and remember the same descriptors and the
same node classes.
-/

namespace Hermas.Compiler

open Hermas.Image (Header Tables TypeRecord Node Edge Region NodeClass classAt)

/-! ## Header and offsets -/

theorem header_alike (bytes : Bytes) :
    SameVerdict (Image.validateFrame bytes) (decodeHeader bytes) := by
  refine (Alike.require Iff.rfl).bind fun _ _ _ _ _ => ?_
  refine (Alike.require Iff.rfl).bind fun _ _ _ _ _ => ?_
  refine (Alike.require Iff.rfl).bind fun _ _ _ _ _ => ?_
  refine (Alike.require Iff.rfl).bind fun _ _ _ _ _ => ?_
  refine Alike.require ?_
  simp only [not_or, not_not, ne_eq]
  rfl

theorem counts_alike (header : Header) :
    SameVerdict (Image.validateCounts header) (decodeCounts header) := by
  refine Alike.require ?_
  simp only [not_or, Nat.not_lt]
  rfl

theorem offsets_alike (bytes : Bytes) (header : Header) :
    SameVerdict (Image.validateOffsets bytes header) (decodeOffsets bytes header) := by
  refine Alike.require ?_
  simp only [not_or, not_not, ne_eq, align4, actionContractRecordSize, typeRecordSize,
    nodeRecordSize, edgeRecordSize, regionRecordSize, headerSize, Image.headerSize]
  omega

theorem name_alike {bytes : Bytes} {header : Header}
    (h : Image.validateOffsets bytes header = .ok ()) :
    Alike (fun _ _ => True) (Image.validateName bytes header) (decodeName bytes header) := by
  simp only [Image.validateOffsets, require_ok] at h
  obtain ⟨-, -, -, -, -, -, -, -, -, hle, hlength⟩ := h
  have hname : bytes.slice header.nameOffset header.nameLength = bytes.drop header.nameOffset := by
    rw [Bytes.slice, List.take_of_length_le]
    rw [List.length_drop, hlength]
  have hempty : header.nameLength ≠ 0 ↔ bytes.drop header.nameOffset ≠ [] := by
    rw [← List.length_pos_iff, List.length_drop, ← hlength, Nat.pos_iff_ne_zero]
  have hcheck : SameVerdict (Image.validateName bytes header)
      (require (fromUtf8 (bytes.drop header.nameOffset) = true ∧ bytes.drop header.nameOffset ≠ [])
        (⟨.invalidString, some header.nameOffset, "workflow name is empty or invalid UTF-8"⟩ :
          ImageError)) := by
    refine Alike.require ?_
    rw [hname, hempty, validUtf8_eq, and_comm]
  constructor
  · intro u hu
    obtain ⟨v, hv, -⟩ := hcheck.left u hu
    exact ⟨_, bind_ok.mpr ⟨v, hv, rfl⟩, trivial⟩
  · intro name hname
    obtain ⟨v, hv, -⟩ := bind_ok.mp hname
    exact hcheck.right v hv

/-! ## Errors and contracts -/

theorem checkEach_fresh {ε α : Type} [DecidableEq α] {reason : ε} (p : α → Prop) [DecidablePred p]
    {xs : List α} : ∀ {prior : List α},
      checkEach (fun prior x => require (p x ∧ ¬ x ∈ prior) reason) prior xs = .ok () ↔
        (∀ x ∈ xs, p x ∧ ¬ x ∈ prior) ∧ xs.Nodup := by
  induction xs with
  | nil => intro prior; simp [checkEach]
  | cons x xs ih =>
      intro prior
      have hfresh : ∀ y, ¬ y ∈ prior ++ [x] ↔ ¬ y ∈ prior ∧ y ≠ x := by
        intro y
        rw [List.mem_append, List.mem_singleton, not_or]
      simp only [checkEach, bind_ok, require_ok, ih, hfresh, List.mem_cons, forall_eq_or_imp,
        List.nodup_cons]
      constructor
      · rintro ⟨⟨⟩, hx, hxs, hnodup⟩
        exact ⟨⟨hx, fun y hy => ⟨(hxs y hy).1, (hxs y hy).2.1⟩⟩,
          fun hmem => (hxs x hmem).2.2 rfl, hnodup⟩
      · rintro ⟨⟨hx, hxs⟩, hmem, hnodup⟩
        refine ⟨(), hx, fun y hy => ⟨(hxs y hy).1, (hxs y hy).2, ?_⟩, hnodup⟩
        rintro rfl
        exact hmem hy

theorem errors_alike (tables : Tables) :
    SameVerdict (Image.validateErrors tables) (decodeErrors tables) := by
  have hiff : Image.validateErrors tables = .ok () ↔ decodeErrors tables = .ok () := by
    rw [Image.validateErrors, checkEach_fresh, decodeErrors, require_ok]
    constructor
    · rintro ⟨hall, hnodup⟩
      exact ⟨hnodup, fun hzero => (hall 0 hzero).1 rfl⟩
    · rintro ⟨hnodup, hzero⟩
      refine ⟨fun x hx => ⟨?_, by simp⟩, hnodup⟩
      rintro rfl
      exact hzero hx
  exact ⟨fun _ h => ⟨(), hiff.mp h, trivial⟩, fun _ h => ⟨(), hiff.mpr h, trivial⟩⟩

theorem contracts_alike (tables : Tables) :
    SameVerdict (Image.validateContracts tables) (decodeContracts tables) := by
  refine Alike.checkEach fun prior contract _ => Alike.require ?_
  simp only [List.any_eq_true, Bool.and_eq_true, beq_iff_eq, List.mem_map, Prod.mk.injEq, not_or,
    ne_eq]

/-- A contract names an action. -/
theorem contract_action {tables : Tables} (h : Image.validateContracts tables = .ok ())
    {app action : UInt16} (hc : tables.containsActionContract app action = true) : action ≠ 0 := by
  rw [Tables.containsActionContract, List.any_eq_true] at hc
  obtain ⟨contract, hmem, hc⟩ := hc
  obtain ⟨before, hcheck⟩ := checkEach_mem h hmem
  rw [require_ok] at hcheck
  simp only [Bool.and_eq_true, beq_iff_eq] at hc
  exact hc.2 ▸ hcheck.2.1

/-! ## Descriptors -/

theorem validDescriptor_eq (kind reserved : UInt8) (children : UInt16) (bound : UInt32) :
    validDescriptor kind reserved children.toNat bound =
      Image.validNode kind reserved children bound := by
  have hone : children.toNat = 1 ↔ children = 1 := by
    rw [← UInt16.toNat_inj]; rfl
  have hzero : children.toNat = 0 ↔ children = 0 := by
    rw [← UInt16.toNat_inj]; rfl
  rw [Bool.eq_iff_iff]
  simp only [validDescriptor, Image.validNode]
  split_ifs with h123 h45 h6 h7 h8
  · obtain ⟨h1, h3⟩ := h123
    have h4 : kind ≠ 4 := by rintro rfl; exact absurd h3 (by decide)
    have h5 : kind ≠ 5 := by rintro rfl; exact absurd h3 (by decide)
    have h6 : kind ≠ 6 := by rintro rfl; exact absurd h3 (by decide)
    have h7 : kind ≠ 7 := by rintro rfl; exact absurd h3 (by decide)
    have h8 : kind ≠ 8 := by rintro rfl; exact absurd h3 (by decide)
    simp [h1, h3, h4, h5, h6, h7, h8, hzero]
  · rcases h45 with rfl | rfl <;> simp [hzero]
  · subst h6; simp
  · subst h7; simp [hone]
  · subst h8; simp [hzero]
  · simp_all

theorem foldlM_toOption {ε α ι : Type} {f : α → ι → Except ε α} {g : α → ι → Option α}
    (hfg : ∀ a x b, f a x = .ok b ↔ g a x = some b) {xs : List ι} :
    ∀ {a b : α}, xs.foldlM f a = .ok b ↔ xs.foldlM g a = some b := by
  induction xs with
  | nil => intro a b; simp [pure, Except.pure]
  | cons x xs ih =>
      intro a b
      rw [List.foldlM_cons, List.foldlM_cons, bind_ok, Option.bind_eq_bind,
        Option.bind_eq_some_iff]
      simp only [hfg, ih]

/-- Both walk a descriptor alike. -/
theorem decodeRepresentation_ok {bytes : Bytes} {stop : Nat} :
    ∀ {levels offset next : Nat}, decodeRepresentation bytes stop levels offset = .ok next ↔
      Image.validateRepresentation bytes stop levels offset = some next := by
  intro levels
  induction levels with
  | zero => intro offset next; simp [decodeRepresentation, Image.validateRepresentation]
  | succ levels ih =>
      intro offset next
      have hroom : stop < offset + 8 ↔ stop < offset ∨ stop - offset < 8 := by omega
      rw [decodeRepresentation, Image.validateRepresentation]
      simp only [hroom, validDescriptor_eq]
      split_ifs with h1 h2
      · simp
      · exact foldlM_toOption (fun a _ b => ih) 
      · simp

theorem childRangeFrom_ok {bytes : Bytes} {stop : Nat} :
    ∀ {index cursor : Nat} {range : Nat × Nat},
      childRangeFrom bytes stop index cursor = .ok range ↔
        Image.childFrom bytes stop index cursor = some range := by
  intro index
  induction index with
  | zero =>
      intro cursor range
      simp only [childRangeFrom, Image.childFrom, bind_ok, pure_ok, decodeRepresentation_ok,
        Option.map_eq_some_iff]
  | succ index ih =>
      intro cursor range
      simp only [childRangeFrom, Image.childFrom, bind_ok, decodeRepresentation_ok, ih,
        Option.bind_eq_some_iff]

theorem toOption_eq {ε α : Type} {x : Except ε α} {y : Option α}
    (h : ∀ a, x = .ok a ↔ y = some a) : x.toOption = y := by
  cases x with
  | ok a => exact ((h a).mp rfl).symm
  | error e =>
      cases y with
      | none => rfl
      | some a => cases (h a).mpr rfl

theorem representationChildRange_eq (bytes : Bytes) (descriptor : Nat × Nat) (childIndex : Nat) :
    representationChildRange bytes descriptor childIndex =
      Image.representationChild bytes descriptor.1 descriptor.2 childIndex := by
  unfold representationChildRange Image.representationChild
  split
  · rfl
  · exact toOption_eq fun range => childRangeFrom_ok

/-! ## Types -/

/-- The ranges between the descriptors of consecutive records; the last ends at the cursor. -/
def ranges (cursor : Nat) : List TypeRecord → TypeDescriptors
  | [] => []
  | [record] => [(record.typeId, (record.descriptor, cursor))]
  | record :: next :: rest =>
      (record.typeId, (record.descriptor, next.descriptor)) :: ranges cursor (next :: rest)

theorem ranges_append (cursor : Nat) (record : TypeRecord) : ∀ types : List TypeRecord,
    ranges cursor (types ++ [record]) =
      ranges record.descriptor types ++ [(record.typeId, (record.descriptor, cursor))]
  | [] => rfl
  | [_] => rfl
  | _ :: next :: rest => congrArg _ (ranges_append cursor record (next :: rest))

theorem ranges_types (cursor : Nat) : ∀ types : List TypeRecord,
    (ranges cursor types).map (·.1) = types.map (·.typeId)
  | [] => rfl
  | [_] => rfl
  | _ :: next :: rest => congrArg _ (ranges_types cursor (next :: rest))

theorem ranges_get (cursor : Nat) (typeId : UInt16) : ∀ types : List TypeRecord,
    TypeDescriptors.get (ranges cursor types) typeId = Image.typeDescriptor cursor typeId types
  | [] => rfl
  | [record] => by
      simp only [ranges, TypeDescriptors.get, Image.typeDescriptor, List.find?_cons]
      by_cases h : record.typeId = typeId
      · simp [h]
      · have hne : (record.typeId == typeId) = false := by simpa using h
        simp [h, hne]
  | record :: next :: rest => by
      have ih := ranges_get cursor typeId (next :: rest)
      simp only [TypeDescriptors.get] at ih
      simp only [ranges, TypeDescriptors.get, Image.typeDescriptor, List.find?_cons]
      by_cases h : record.typeId = typeId
      · simp [h]
      · have hne : (record.typeId == typeId) = false := by simpa using h
        simp only [Image.typeDescriptor] at ih
        simp [h, hne, ih]

/-- What the decoder keeps of the type records is what the loader finds in the table. -/
structure TypesRead (tables : Tables) (descriptors : TypeDescriptors) : Prop where
  get : ∀ typeId, descriptors.get typeId = tables.descriptor typeId
  types : descriptors.map (·.1) = tables.types.map (·.typeId)

theorem contains_types {tables : Tables} (typeId : UInt16) :
    typeId ∈ tables.types.map (·.typeId) ↔ tables.containsType typeId = true := by
  simp [Tables.containsType]

theorem type_alike {bytes : Bytes} {header : Header} {prior : List TypeRecord} {cursor : Nat}
    {record : TypeRecord} :
    Alike (fun a b => b = (ranges a.2 a.1, a.2))
      (Image.validateType bytes header.stringsOffset (prior, cursor) record)
      (decodeType bytes header (ranges cursor prior, cursor) record) := by
  unfold Image.validateType decodeType
  constructor
  · intro a ha
    simp only [bind_ok, require_ok] at ha ⊢
    obtain ⟨⟨⟩, ⟨hid, hreserved, hcursor⟩, ⟨⟩, hfresh, hrest⟩ := ha
    split at hrest
    · cases hrest
    · rename_i next hnext
      cases hrest
      refine ⟨_, ⟨(), ?_, next, decodeRepresentation_ok.mpr hnext, rfl⟩, ?_⟩
      · simp only [ranges_types, List.any_eq_true, beq_iff_eq, List.mem_map] at hfresh ⊢
        simp [hid, hreserved, hcursor, hfresh]
      · rw [ranges_append, hcursor]
  · intro b hb
    simp only [bind_ok, require_ok, not_or, not_not, ranges_types] at hb ⊢
    obtain ⟨⟨⟩, ⟨hid, hreserved, hfresh, hcursor⟩, next, hnext, hb⟩ := hb
    refine ⟨(prior ++ [record], next), ⟨(), ⟨hid, hreserved, hcursor⟩, (), ?_, ?_⟩, ?_⟩
    · simpa using hfresh
    · rw [decodeRepresentation_ok.mp hnext]
    · rw [pure_ok] at hb
      rw [← hb, ranges_append, hcursor]

/-- The loop over the type records keeps them all. -/
theorem validateTypes_records {bytes : Bytes} {stop : Nat} {records : List TypeRecord} :
    ∀ {state state' : List TypeRecord × Nat},
      records.foldlM (Image.validateType bytes stop) state = .ok state' →
      state'.1 = state.1 ++ records := by
  induction records with
  | nil =>
      intro state state' h
      rw [List.foldlM_nil, pure_ok] at h
      simp [h]
  | cons record records ih =>
      intro state state' h
      rw [List.foldlM_cons, bind_ok] at h
      obtain ⟨next, hrecord, hrest⟩ := h
      simp only [Image.validateType, bind_ok] at hrecord
      obtain ⟨⟨⟩, -, ⟨⟩, -, hrecord⟩ := hrecord
      split at hrecord
      · cases hrecord
      · cases hrecord
        rw [ih hrest, List.append_assoc]
        rfl

theorem types_alike (bytes : Bytes) (tables : Tables) :
    Alike (fun _ descriptors => TypesRead tables descriptors) (Image.validateTypes bytes tables)
      (decodeTypes bytes tables) := by
  have hfold : Alike (fun a b => b = (ranges a.2 a.1, a.2))
      (tables.types.foldlM (Image.validateType bytes tables.header.stringsOffset)
        ([], tables.header.representationsOffset))
      (tables.types.foldlM (decodeType bytes tables.header)
        ([], tables.header.representationsOffset)) := by
    refine Alike.foldlM rfl fun record _ a b hab => ?_
    obtain ⟨prior, cursor⟩ := a
    rw [hab]
    exact type_alike
  have hboundary : ∀ a descriptors cursor,
      tables.types.foldlM (Image.validateType bytes tables.header.stringsOffset)
        ([], tables.header.representationsOffset) = .ok a →
      (descriptors, cursor) = (ranges a.2 a.1, a.2) →
      cursor = a.2 ∧ descriptors = ranges a.2 tables.types ∧
        descriptors.map (·.1) = tables.types.map (·.typeId) := by
    intro a descriptors cursor ha hab
    have hrecords := validateTypes_records ha
    rw [List.nil_append] at hrecords
    rw [hrecords] at hab
    obtain ⟨rfl, rfl⟩ := Prod.mk.inj hab
    exact ⟨rfl, rfl, ranges_types _ _⟩
  have hcontains : ∀ xs : List UInt16, (∀ x ∈ xs, tables.containsType x = true) ↔
      xs.all (tables.types.map (·.typeId)).contains = true := by
    intro xs
    simp only [List.all_eq_true, List.contains_iff_mem, contains_types]
  constructor
  · intro u hu
    simp only [Image.validateTypes, bind_ok, require_ok] at hu
    obtain ⟨⟨records, cursor⟩, ha, ⟨⟩, ⟨hcursor, hinput, hsuccess⟩, herrors⟩ := hu
    obtain ⟨⟨descriptors, cursor'⟩, hb, hab⟩ := hfold.left _ ha
    obtain ⟨rfl, hranges, htypes⟩ := hboundary _ _ _ ha hab
    refine ⟨descriptors, ?_, ?_, htypes⟩
    · simp only [decodeTypes, bind_ok, require_ok, pure_ok]
      refine ⟨_, hb, (), ?_, rfl⟩
      simp only [htypes, not_or, not_not, contains_types]
      exact ⟨hcursor, hinput, hsuccess, (hcontains _).mp (List.all_eq_true.mp herrors)⟩
    · intro typeId
      rw [hranges, ranges_get, hcursor]
      rfl
  · intro descriptors hd
    simp only [decodeTypes, bind_ok, require_ok, pure_ok] at hd
    obtain ⟨⟨descriptors', cursor'⟩, hb, ⟨⟩, hcheck, rfl⟩ := hd
    obtain ⟨⟨records, cursor⟩, ha, hab⟩ := hfold.right _ hb
    obtain ⟨rfl, hranges, htypes⟩ := hboundary _ _ _ ha hab
    simp only [htypes, not_or, not_not, contains_types] at hcheck
    obtain ⟨hcursor, hinput, hsuccess, herrors⟩ := hcheck
    refine ⟨(), ?_, ?_, htypes⟩
    · simp only [Image.validateTypes, bind_ok, require_ok]
      exact ⟨_, ha, (), ⟨hcursor, hinput, hsuccess⟩,
        List.all_eq_true.mpr ((hcontains _).mpr herrors)⟩
    · intro typeId
      rw [hranges, ranges_get, hcursor]
      rfl

variable {tables : Tables} {descriptors : TypeDescriptors}

theorem TypesRead.mem (h : TypesRead tables descriptors) (typeId : UInt16) :
    typeId ∈ descriptors.map (·.1) ↔ tables.containsType typeId = true := by
  rw [h.types, contains_types]

theorem TypesRead.contains (h : TypesRead tables descriptors) (typeId : UInt16) :
    (descriptors.map (·.1)).contains typeId = tables.containsType typeId := by
  rw [Bool.eq_iff_iff, List.contains_iff_mem, h.mem]

theorem sameDescriptor_eq (bytes : Bytes) (a b : Nat × Nat) :
    sameDescriptor bytes a b = Image.sameBytes bytes a b := rfl

theorem TypesRead.listMatches (h : TypesRead tables descriptors) (bytes : Bytes)
    (listType itemType : UInt16) (boundOk : UInt32 → Bool) :
    listMatches bytes descriptors listType itemType boundOk =
      Image.listOf bytes tables listType itemType boundOk := by
  unfold Compiler.listMatches Image.listOf
  rw [h.get, h.get]
  cases tables.descriptor listType with
  | none => rfl
  | some list =>
      cases tables.descriptor itemType with
      | none => rfl
      | some item =>
          simp only [representationChildRange_eq]
          cases Image.representationChild bytes list.1 list.2 0 <;> rfl

/-! ## Nodes -/

theorem node_alike (h : TypesRead tables descriptors) (bytes : Bytes)
    (hcontracts : Image.validateContracts tables = .ok ()) (prior : List NodeClass) (node : Node) :
    Alike (fun a b => a = b) (Image.classifyNode bytes tables prior node)
      (decodeNode bytes tables descriptors prior node) := by
  have htwo : ∀ subtype : UInt8, 2 ≤ subtype ↔ 2 ≤ subtype.toNat := fun subtype =>
    UInt8.le_iff_toNat_le
  have haction : (node.kind = 1 ∧ node.subtype = 0 ∧ node.action ≠ 0 ∧ node.reserved = 0 ∧
      tables.containsActionContract node.app node.action = true) ↔
      (node.kind = 1 ∧ node.subtype = 0 ∧
        tables.containsActionContract node.app node.action = true ∧ node.reserved = 0) := by
    constructor
    · rintro ⟨hkind, hsubtype, -, hreserved, hcontract⟩
      exact ⟨hkind, hsubtype, hcontract, hreserved⟩
    · rintro ⟨hkind, hsubtype, hcontract, hreserved⟩
      exact ⟨hkind, hsubtype, contract_action hcontracts hcontract, hreserved, hcontract⟩
  have hfork : (node.kind = 4 ∧ 2 ≤ node.subtype ∧ node.subtype.toNat ≤ Image.maxAllBranches ∧
      node.action ≠ 0 ∧ node.app = 0 ∧ node.reserved = 0 ∧
      tables.containsType node.action = true) ↔
      (node.kind = 4 ∧ 2 ≤ node.subtype.toNat ∧ node.subtype.toNat ≤ maxAllBranches ∧
        node.action ≠ 0 ∧ node.action ∈ descriptors.map (·.1) ∧ node.app = 0 ∧
        node.reserved = 0) := by
    rw [h.mem, htwo]
    constructor
    · rintro ⟨h1, h2, h3, h4, h5, h6, h7⟩
      exact ⟨h1, h2, h3, h4, h7, h5, h6⟩
    · rintro ⟨h1, h2, h3, h4, h7, h5, h6⟩
      exact ⟨h1, h2, h3, h4, h5, h6, h7⟩
  have hjoin : (node.kind = 5 ∧ 2 ≤ node.subtype ∧ node.subtype.toNat ≤ Image.maxAllBranches ∧
      node.action = 0 ∧ node.app = 0 ∧ node.reserved = 0) ↔
      (node.kind = 5 ∧ 2 ≤ node.subtype.toNat ∧ node.subtype.toNat ≤ maxAllBranches ∧
        node.action = 0 ∧ node.app = 0 ∧ node.reserved = 0) := by
    rw [htwo]
    rfl
  unfold Image.classifyNode decodeNode
  by_cases h1 : node.kind = 1 ∧ node.subtype = 0 ∧ node.action ≠ 0 ∧ node.reserved = 0 ∧
      tables.containsActionContract node.app node.action = true
  · rw [if_pos h1]
    simp only [if_pos (haction.mp h1)]
    exact .ok rfl
  rw [if_neg h1]
  simp only [if_neg (mt haction.mpr h1), h.get]
  by_cases h3 : node.kind = 3 ∧ node.subtype = 0 ∧ node.action ≠ 0 ∧ node.app = 0 ∧
      node.reserved = 0
  · rw [if_pos h3]
    obtain ⟨hkind, hsubtype, hne, happ, hreserved⟩ := h3
    have hedges : ∀ cases : UInt16,
        (maxGraphEdges < cases.toNat ∨ 255 + 1 < cases.toNat) ↔ Image.maxEdges < cases.toNat := by
      intro cases
      simp only [maxGraphEdges, Image.maxEdges]
      omega
    -- a type that is no variant is refused in the first branch here, in the last one there
    cases tables.descriptor node.action with
    | none =>
        simp only [Option.any_none, Bool.false_eq_true, and_false, if_false, hkind]
        exact .error
    | some descriptor =>
        by_cases hvariant : bytes.readU8 descriptor.1 = 8
        · simp only [hkind, hsubtype, happ, hreserved, hvariant, hedges, Option.any_some,
            beq_self_eq_true, hne, not_true_eq_false, false_or, and_self, if_true, ne_eq,
            not_false_eq_true]
          split
          · exact .error
          · exact .ok rfl
        · have hno : (bytes.readU8 descriptor.1 == 8) = false := by simpa using hvariant
          simp only [hkind, hvariant, hno, Option.any_some, Bool.false_eq_true, and_false, if_false,
            ne_eq, not_false_eq_true, true_or, if_true]
          exact .error
  · rw [if_neg h3]
    have h3' : ∀ p : Prop, ¬ (node.kind = 3 ∧ node.subtype = 0 ∧ node.action ≠ 0 ∧ node.app = 0 ∧
        node.reserved = 0 ∧ p) := by
      rintro p ⟨hkind, hsubtype, hne, happ, hreserved, -⟩
      exact h3 ⟨hkind, hsubtype, hne, happ, hreserved⟩
    rw [if_neg (h3' _)]
    by_cases h4 : node.kind = 4 ∧ 2 ≤ node.subtype ∧ node.subtype.toNat ≤ Image.maxAllBranches ∧
        node.action ≠ 0 ∧ node.app = 0 ∧ node.reserved = 0 ∧
        tables.containsType node.action = true
    · rw [if_pos h4, if_pos (hfork.mp h4)]
      exact .ok rfl
    rw [if_neg h4, if_neg (mt hfork.mpr h4)]
    by_cases h5 : node.kind = 5 ∧ 2 ≤ node.subtype ∧ node.subtype.toNat ≤ Image.maxAllBranches ∧
        node.action = 0 ∧ node.app = 0 ∧ node.reserved = 0
    · rw [if_pos h5, if_pos (hjoin.mp h5)]
      exact .ok rfl
    rw [if_neg h5, if_neg (mt hjoin.mpr h5)]
    split
    · exact .ok rfl
    · exact .error

/-- Both loops classify the nodes alike. -/
theorem nodes_alike (h : TypesRead tables descriptors) (bytes : Bytes)
    (hcontracts : Image.validateContracts tables = .ok ()) :
    Alike (fun a b => a = b) (Image.validateNodes bytes tables)
      (decodeNodes bytes tables descriptors) := by
  refine Alike.bind (R := fun a b => a = b) ?_ fun a b _ _ hab => ?_
  · refine Alike.foldlM rfl fun node _ a b hab => ?_
    subst hab
    exact (node_alike h bytes hcontracts a node).bind fun _ _ _ _ hclass => hclass ▸ .ok rfl
  · subst hab
    refine Alike.bind (Alike.require ?_) fun _ _ _ _ _ => .ok rfl
    constructor
    · rintro ⟨h1, h2, h3, h4⟩ subtype
      match subtype with
      | 0 => exact h1
      | 1 => exact h2
      | 2 => exact h3
      | 3 => exact h4
    · intro hall
      exact ⟨hall 0, hall 1, hall 2, hall 3⟩

end Hermas.Compiler
