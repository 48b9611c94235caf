import Hermas.Image.Validate

/-!
# Writing images

The layout that the loader accepts, in the other direction: records to bytes, and
tables behind a header that says where they are. The records are found again where
they were written (`Layout.Fits.readTables`). Images of workflows that stand for a
whole class of runs are written with it.
-/

namespace Hermas.Image

def ActionContract.write (contract : ActionContract) : Bytes :=
  Bytes.writeU16 contract.appId ++ (Bytes.writeU16 contract.actionId ++ contract.fingerprint)

def TypeRecord.write (record : TypeRecord) : Bytes :=
  Bytes.writeU16 record.typeId ++
    (Bytes.writeU16 record.reserved ++ Bytes.writeU32 (UInt32.ofNat record.descriptor))

def Node.write (node : Node) : Bytes :=
  [node.kind, node.subtype] ++ (Bytes.writeU16 node.action ++
    (Bytes.writeU16 node.app ++ Bytes.writeU16 node.reserved))

def Edge.write (edge : Edge) : Bytes :=
  [edge.sourceKind, edge.targetKind, edge.flags, edge.caseTag] ++
    (Bytes.writeU16 edge.sourceNode ++ (Bytes.writeU16 edge.targetNode ++
      (Bytes.writeU16 edge.sourceType ++ (Bytes.writeU16 edge.targetType ++
        (Bytes.writeU16 edge.presentation ++ Bytes.writeU16 edge.reserved)))))

@[simp] theorem Node.length_write (node : Node) : node.write.length = 8 := by
  simp [Node.write]

@[simp] theorem Edge.length_write (edge : Edge) : edge.write.length = 16 := by
  simp [Edge.write]

/-- The last field of a record. -/
theorem readU16_last (v : UInt16) : Bytes.readU16 (Bytes.writeU16 v) 0 = v := by
  have := Bytes.readU16_here v []
  rwa [List.append_nil] at this

theorem readU16_cons (b : UInt8) (bytes : Bytes) (offset : Nat) :
    Bytes.readU16 (b :: bytes) (offset + 1) = Bytes.readU16 bytes offset := rfl

theorem Node.read_write (node : Node) : Node.read node.write = node := by
  obtain ⟨kind, subtype, action, app, reserved⟩ := node
  simp [Node.read, Node.write, Bytes.readU8, readU16_cons, Bytes.readU16_skip,
    Bytes.readU16_here, readU16_last]

theorem Edge.read_write (edge : Edge) : Edge.read edge.write = edge := by
  obtain ⟨sourceKind, targetKind, flags, caseTag, sourceNode, targetNode, sourceType, targetType,
    presentation, reserved⟩ := edge
  simp [Edge.read, Edge.write, Bytes.readU8, readU16_cons, Bytes.readU16_skip,
    Bytes.readU16_here, readU16_last]

theorem ActionContract.length_write {contract : ActionContract}
    (h : contract.fingerprint.length = 32) : contract.write.length = 36 := by
  simp [ActionContract.write, h]

theorem ActionContract.read_write {contract : ActionContract}
    (h : contract.fingerprint.length = 32) : ActionContract.read contract.write = contract := by
  obtain ⟨appId, actionId, fingerprint⟩ := contract
  have hdigest : (ActionContract.write ⟨appId, actionId, fingerprint⟩).slice 4 32 = fingerprint := by
    rw [ActionContract.write, Bytes.slice_append_right _ _ _ _ (by simp),
      Bytes.slice_append_right _ _ _ _ (by simp)]
    exact Bytes.slice_self fingerprint 32 h
  rw [ActionContract.read, hdigest]
  simp [ActionContract.write, Bytes.readU16_skip, Bytes.readU16_here]

/-- What an image is made from; a type comes with its descriptor. -/
structure Layout where
  inputType : UInt16 := 1
  successType : UInt16 := 1
  errors : List UInt16 := []
  contracts : List ActionContract := []
  types : List (UInt16 × Bytes)
  nodes : List Node
  edges : List Edge
  regions : List Region := []
  name : Bytes := [0x77]

namespace Layout

variable (layout : Layout)

/-- The contracts start at a multiple of four. -/
def contractsOffset : Nat := (headerSize + 2 * layout.errors.length + 3) / 4 * 4

def typesOffset : Nat := layout.contractsOffset + 36 * layout.contracts.length
def nodesOffset : Nat := layout.typesOffset + 8 * layout.types.length
def edgesOffset : Nat := layout.nodesOffset + 8 * layout.nodes.length
def regionsOffset : Nat := layout.edgesOffset + 16 * layout.edges.length
def representationsOffset : Nat := layout.regionsOffset + 16 * layout.regions.length

def representations : Bytes := layout.types.flatMap (·.2)

def stringsOffset : Nat := layout.representationsOffset + layout.representations.length

def size : Nat := layout.stringsOffset + layout.name.length

/-- The types with the offsets of their descriptors. -/
def typeRecords : List (UInt16 × Bytes) → Nat → List TypeRecord
  | [], _ => []
  | (typeId, descriptor) :: rest, offset =>
      { typeId, reserved := 0, descriptor := offset } ::
        typeRecords rest (offset + descriptor.length)

/-- The padding in front of the contracts. -/
def padding : Bytes :=
  List.replicate (layout.contractsOffset - (headerSize + 2 * layout.errors.length)) 0

def u16 (n : Nat) : Bytes := Bytes.writeU16 (UInt16.ofNat n)
def u32 (n : Nat) : Bytes := Bytes.writeU32 (UInt32.ofNat n)

def header : Bytes :=
  magic ++ u16 1 ++ u16 headerSize ++ u32 layout.size ++ u32 0 ++
    u32 layout.stringsOffset ++ u16 layout.name.length ++
    Bytes.writeU16 layout.inputType ++ Bytes.writeU16 layout.successType ++
    u16 layout.errors.length ++ u16 layout.contracts.length ++ u16 layout.nodes.length ++
    u16 layout.edges.length ++ u16 layout.types.length ++
    u32 headerSize ++ u32 layout.contractsOffset ++ u32 layout.typesOffset ++
    u32 layout.nodesOffset ++ u32 layout.edgesOffset ++ u32 layout.representationsOffset ++
    u32 layout.stringsOffset ++ u32 layout.representations.length ++
    u16 layout.regions.length ++ u16 0 ++ u32 layout.regionsOffset ++ u32 0

/-- The image. -/
def encode : Bytes :=
  layout.header ++ layout.errors.flatMap Bytes.writeU16 ++ layout.padding ++
    layout.contracts.flatMap ActionContract.write ++
    (typeRecords layout.types layout.representationsOffset).flatMap TypeRecord.write ++
    layout.nodes.flatMap Node.write ++ layout.edges.flatMap Edge.write ++
    layout.regions.flatten ++ layout.representations ++ layout.name

/-- The loaded image of a layout that the loader accepts. -/
def image (h : (imageValidate layout.encode).toOption.isSome = true) : Image where
  bytes := layout.encode
  tables := readTables layout.encode
  tables_eq := rfl
  valid := h

end Layout

/-! ## Reading back -/

theorem length_flatMap_write {α : Type} {write : α → Bytes} {size : Nat} {xs : List α}
    (h : ∀ x ∈ xs, (write x).length = size) : (xs.flatMap write).length = size * xs.length := by
  rw [List.flatMap_def, Bytes.length_flatten_records _ (by simpa using h), List.length_map]

/-- Records that were written one behind the other are read back. -/
theorem readTable_write {α : Type} {read : Bytes → α} {write : α → Bytes} {size : Nat}
    {xs : List α} (h : ∀ x ∈ xs, (write x).length = size)
    (hread : ∀ x ∈ xs, read (write x) = x) {bytes front behind : Bytes} {offset : Nat}
    (hoffset : front.length = offset) (hbytes : bytes = front ++ (xs.flatMap write ++ behind)) :
    readTable read bytes offset size xs.length = xs := by
  subst hbytes hoffset
  have hmap : ∀ r ∈ xs.map write, r.length = size := by simpa using h
  have hrecords : Bytes.records size xs.length (xs.flatMap write ++ behind) = xs.map write := by
    have hsplit := Bytes.records_append xs.length 0 (xs.flatMap write) behind
      (length_flatMap_write h)
    rw [Nat.add_zero, Bytes.records_zero, List.append_nil, List.flatMap_def] at hsplit
    have hlength : (xs.map write).length = xs.length := List.length_map write
    rw [List.flatMap_def, hsplit, ← hlength, Bytes.records_flatten _ hmap]
  rw [readTable, List.drop_left, hrecords, List.map_map]
  exact (List.map_congr_left hread).trans (List.map_id xs)

namespace Layout

variable (layout : Layout)

theorem length_u16 (n : Nat) : (u16 n).length = 2 := Bytes.length_writeU16 _

theorem length_u32 (n : Nat) : (u32 n).length = 4 := Bytes.length_writeU32 _

theorem length_magic : magic.length = 4 := rfl

theorem readU16_u16 (n : Nat) (rest : Bytes) : Bytes.readU16 (u16 n ++ rest) 0 = UInt16.ofNat n :=
  Bytes.readU16_here _ _

theorem readU32_u32 (n : Nat) (rest : Bytes) : Bytes.readU32 (u32 n ++ rest) 0 = UInt32.ofNat n :=
  Bytes.readU32_here _ _

theorem length_header : layout.header.length = headerSize := by
  unfold header u16 u32
  simp only [List.length_append, Bytes.length_writeU16, Bytes.length_writeU32]
  decide

/-- The header says how many nodes, edges and regions there are, and where they start. -/
theorem header_fields :
    Bytes.readU16 layout.encode 30 = UInt16.ofNat layout.nodes.length ∧
      Bytes.readU16 layout.encode 32 = UInt16.ofNat layout.edges.length ∧
      Bytes.readU16 layout.encode 68 = UInt16.ofNat layout.regions.length ∧
      Bytes.readU32 layout.encode 48 = UInt32.ofNat layout.nodesOffset ∧
      Bytes.readU32 layout.encode 52 = UInt32.ofNat layout.edgesOffset ∧
      Bytes.readU32 layout.encode 72 = UInt32.ofNat layout.regionsOffset := by
  unfold encode header
  simp only [List.append_assoc]
  refine ⟨?_, ?_, ?_, ?_, ?_, ?_⟩ <;>
    simp (disch := simp only [length_magic, length_u16, length_u32, Bytes.length_writeU16]; decide)
      only [Bytes.readU16_skip, Bytes.readU32_skip, length_magic, length_u16, length_u32,
        Bytes.length_writeU16, Nat.reduceSub, readU16_u16, readU32_u32]

/-- What a layout has to be like for its records to be found again. -/
structure Fits : Prop where
  size : layout.size ≤ maxSize
  contracts : ∀ contract ∈ layout.contracts, contract.fingerprint.length = 32
  nodes : layout.nodes.length < 65536
  edges : layout.edges.length < 65536
  regions : layout.regions.length < 65536
  region : ∀ region ∈ layout.regions, region.length = 16

/-- Everything in front of the nodes. -/
def beforeNodes : Bytes :=
  layout.header ++ layout.errors.flatMap Bytes.writeU16 ++ layout.padding ++
    layout.contracts.flatMap ActionContract.write ++
    (typeRecords layout.types layout.representationsOffset).flatMap TypeRecord.write

theorem length_front : (layout.header ++ layout.errors.flatMap Bytes.writeU16 ++
    layout.padding).length = layout.contractsOffset := by
  have herrors : (layout.errors.flatMap Bytes.writeU16).length = 2 * layout.errors.length :=
    length_flatMap_write fun _ _ => Bytes.length_writeU16 _
  have : headerSize + 2 * layout.errors.length ≤ layout.contractsOffset := by
    unfold contractsOffset
    omega
  simp only [padding, List.length_append, length_header, herrors, List.length_replicate]
  omega

theorem length_typeRecords : ∀ (types : List (UInt16 × Bytes)) (offset : Nat),
    (typeRecords types offset).length = types.length
  | [], _ => rfl
  | (_, descriptor) :: rest, offset => by
      rw [typeRecords, List.length_cons, List.length_cons,
        length_typeRecords rest (offset + descriptor.length)]

variable {layout}

theorem Fits.length_beforeNodes (h : layout.Fits) : layout.beforeNodes.length = layout.nodesOffset := by
  have hcontracts : (layout.contracts.flatMap ActionContract.write).length =
      36 * layout.contracts.length :=
    length_flatMap_write fun contract hmem => ActionContract.length_write (h.contracts contract hmem)
  have htypes : ((typeRecords layout.types layout.representationsOffset).flatMap
      TypeRecord.write).length = 8 * layout.types.length := by
    have hrecord : ∀ record ∈ typeRecords layout.types layout.representationsOffset,
        (TypeRecord.write record).length = 8 := fun record _ => by simp [TypeRecord.write]
    rw [length_flatMap_write hrecord, length_typeRecords]
  rw [beforeNodes, List.length_append, List.length_append, layout.length_front, hcontracts, htypes]
  rfl

/-- **The records of a layout are found again.** -/
theorem Fits.readTables (h : layout.Fits) :
    (readTables layout.encode).nodes = layout.nodes ∧
      (readTables layout.encode).edges = layout.edges ∧
      (readTables layout.encode).regions = layout.regions := by
  obtain ⟨hnodes, hedges, hregions, hnodesAt, hedgesAt, hregionsAt⟩ := layout.header_fields
  have hsize : layout.regionsOffset ≤ maxSize := by
    have := h.size
    unfold Layout.size stringsOffset representationsOffset at this
    omega
  have hsmall : maxSize < 2 ^ 32 := by decide
  have hencode : layout.encode = layout.beforeNodes ++ (layout.nodes.flatMap Node.write ++
      (layout.edges.flatMap Edge.write ++ (layout.regions.flatten ++ (layout.representations ++
        layout.name)))) := by
    simp only [encode, beforeNodes, List.append_assoc]
  have hnodesLength : (layout.nodes.flatMap Node.write).length = 8 * layout.nodes.length :=
    length_flatMap_write fun node _ => node.length_write
  have hedgesLength : (layout.edges.flatMap Edge.write).length = 16 * layout.edges.length :=
    length_flatMap_write fun edge _ => edge.length_write
  have hnodesOffset := h.length_beforeNodes
  have hregionsSum : layout.regionsOffset = layout.edgesOffset + 16 * layout.edges.length := rfl
  have hedgesSum : layout.edgesOffset = layout.nodesOffset + 8 * layout.nodes.length := rfl
  simp only [Image.readTables, readHeader, hnodes, hedges, hregions, hnodesAt, hedgesAt, hregionsAt,
    UInt16.toNat_ofNat_of_lt' h.nodes, UInt16.toNat_ofNat_of_lt' h.edges,
    UInt16.toNat_ofNat_of_lt' h.regions]
  rw [UInt32.toNat_ofNat_of_lt' (show layout.nodesOffset < 2 ^ 32 by omega),
    UInt32.toNat_ofNat_of_lt' (show layout.edgesOffset < 2 ^ 32 by omega),
    UInt32.toNat_ofNat_of_lt' (show layout.regionsOffset < 2 ^ 32 by omega)]
  refine ⟨?_, ?_, ?_⟩
  · exact readTable_write (fun node _ => node.length_write) (fun node _ => node.read_write) hnodesOffset hencode
  · have hfront : (layout.beforeNodes ++ layout.nodes.flatMap Node.write).length =
        layout.edgesOffset := by
      rw [List.length_append, hnodesLength, hnodesOffset, hedgesSum]
    exact readTable_write (fun edge _ => edge.length_write) (fun edge _ => edge.read_write) hfront
      (by rw [hencode, List.append_assoc])
  · have hfront : (layout.beforeNodes ++ (layout.nodes.flatMap Node.write ++
        layout.edges.flatMap Edge.write)).length = layout.regionsOffset := by
      rw [List.length_append, List.length_append, hnodesLength, hedgesLength, hnodesOffset]
      omega
    have hregionBytes : layout.encode = (layout.beforeNodes ++ (layout.nodes.flatMap Node.write ++
        layout.edges.flatMap Edge.write)) ++ (layout.regions.flatMap id ++
          (layout.representations ++ layout.name)) := by
      simp only [hencode, List.flatMap_id, List.append_assoc]
    exact readTable_write h.region (fun _ _ => rfl) hfront hregionBytes

/-- The header says how many contracts there are, and where they start. -/
theorem header_contracts (layout : Layout) :
    Bytes.readU16 layout.encode 28 = UInt16.ofNat layout.contracts.length ∧
      Bytes.readU32 layout.encode 40 = UInt32.ofNat layout.contractsOffset := by
  unfold encode header
  simp only [List.append_assoc]
  refine ⟨?_, ?_⟩ <;>
    simp (disch := simp only [length_magic, length_u16, length_u32, Bytes.length_writeU16]; decide)
      only [Bytes.readU16_skip, Bytes.readU32_skip, length_magic, length_u16, length_u32,
        Bytes.length_writeU16, Nat.reduceSub, readU16_u16, readU32_u32]

/-- And so are its contracts. -/
theorem Fits.readContracts (h : layout.Fits) (hcount : layout.contracts.length < 65536) :
    (Image.readTables layout.encode).contracts = layout.contracts := by
  obtain ⟨hcontracts, hcontractsAt⟩ := layout.header_contracts
  have hoffset : layout.contractsOffset < 2 ^ 32 := by
    have hsize := h.size
    have hsmall : maxSize < 2 ^ 32 := by decide
    unfold Layout.size stringsOffset representationsOffset regionsOffset edgesOffset nodesOffset
      typesOffset at hsize
    omega
  simp only [Image.readTables, readHeader, hcontracts, hcontractsAt,
    UInt16.toNat_ofNat_of_lt' hcount, UInt32.toNat_ofNat_of_lt' hoffset]
  have hencode : layout.encode = (layout.header ++ layout.errors.flatMap Bytes.writeU16 ++
      layout.padding) ++ (layout.contracts.flatMap ActionContract.write ++
        ((typeRecords layout.types layout.representationsOffset).flatMap TypeRecord.write ++
          (layout.nodes.flatMap Node.write ++ (layout.edges.flatMap Edge.write ++
            (layout.regions.flatten ++ (layout.representations ++ layout.name)))))) := by
    simp only [encode, List.append_assoc]
  exact readTable_write
    (fun contract hmem => ActionContract.length_write (h.contracts contract hmem))
    (fun contract hmem => ActionContract.read_write (h.contracts contract hmem))
    layout.length_front hencode

end Layout

/-! ## Wiring -/

/-- An action of the first application; its contract has an empty fingerprint. -/
def Node.action1 (action : UInt16) : Node :=
  { kind := 1, subtype := 0, action, app := 1, reserved := 0 }

def Node.terminal (outcome : UInt8) : Node :=
  { kind := 2, subtype := outcome, action := 0, app := 0, reserved := 0 }

def ActionContract.of (action : UInt16) : ActionContract :=
  { appId := 1, actionId := action, fingerprint := List.replicate 32 0 }

/-- An edge that carries a value of the first type. -/
def Edge.wire (sourceKind : UInt8) (sourceNode : UInt16) (targetKind : UInt8)
    (targetNode : UInt16) (caseTag : UInt8 := 0) : Edge :=
  { sourceKind, targetKind, flags := 0, caseTag, sourceNode, targetNode
    sourceType := 1, targetType := 1, presentation := 0, reserved := 0 }

/-- An edge that carries no value. -/
def Edge.bare (sourceKind : UInt8) (sourceNode : UInt16) (targetNode : UInt16) : Edge :=
  { sourceKind, targetKind := 2, flags := 0, caseTag := 0, sourceNode, targetNode
    sourceType := 0, targetType := 0, presentation := 0, reserved := 0 }

/-- `Bool` as the first type. -/
def boolType : UInt16 × Bytes := (1, [3, 0, 0, 0, 0, 0, 0, 0])

end Hermas.Image
