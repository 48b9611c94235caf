import Hermas.Compiler.Utf8
import Hermas.Image.Validate

/-!
# The compiler's decoder

The compiler reads an image back with a decoder of its own. `decodeGraphImage`
follows it check by check. It and the daemon's loader read the header and the
tables at the same places, so both use `readHeader` and `readTables`; the checks
are written separately, as they are in the source. The decoder's maps over nodes
are the list of node classes here, and its maps over edges are read off the edges
decoded so far.
-/

namespace Hermas.Compiler

open Image (Header Tables TypeRecord Node Edge Region NodeClass EachRegion readHeader readTables
  classAt)

inductive ImageErrorCode where
  | missingFingerprint | sizeOverflow | truncated | badMagic | unsupportedVersion | invalidHeader
  | invalidOffset | invalidCount | invalidString | invalidRecord | duplicateRecord
  | invalidTopology | invalidValue
  deriving DecidableEq, Repr

structure ImageError where
  code : ImageErrorCode
  offset : Option Nat
  message : String
  deriving DecidableEq, Repr

structure DecodedImage where
  workflowName : Bytes
  inputType : UInt16
  successType : UInt16
  errorCount : Nat
  actionContractCount : Nat
  typeCount : Nat
  nodeCount : Nat
  edgeCount : Nat
  regionCount : Nat
  deriving DecidableEq, Repr

def headerSize : Nat := 80
def maxGraphImageSize : Nat := 1024 * 1024
def actionContractRecordSize : Nat := 36
def maxGraphNodes : Nat := 64
def maxGraphEdges : Nat := 192
def maxActionContracts : Nat := maxGraphNodes + 16
def typeRecordSize : Nat := 8
def nodeRecordSize : Nat := 8
def edgeRecordSize : Nat := 16
def regionRecordSize : Nat := 16
def maxImageErrors : Nat := 256
def maxAllBranches : Nat := 8

/-- `align4`; no size here comes near an overflow. -/
def align4 (value : Nat) : Nat := (value + 3) / 4 * 4

/-! ## Header and offsets -/

def decodeHeader (bytes : Bytes) : Except ImageError Unit := do
  require (headerSize ≤ bytes.length)
    ⟨.truncated, none, "image is smaller than its fixed header"⟩
  require (bytes.length ≤ maxGraphImageSize)
    ⟨.sizeOverflow, none, "graph image exceeds the 1 MiB format limit"⟩
  require (bytes.take 4 = Image.magic) ⟨.badMagic, some 0, "bad graph-image magic"⟩
  require (bytes.readU16 4 = 1)
    ⟨.unsupportedVersion, some 4, "unsupported graph-image version"⟩
  require (¬ ((bytes.readU16 6).toNat ≠ headerSize ∨ (bytes.readU32 8).toNat ≠ bytes.length ∨
      bytes.readU32 12 ≠ 0 ∨ bytes.readU16 70 ≠ 0 ∨ bytes.readU32 76 ≠ 0))
    ⟨.invalidHeader, none, "invalid size, flags, or reserved header field"⟩

def decodeCounts (header : Header) : Except ImageError Unit :=
  require (¬ (header.inputType = 0 ∨ header.successType = 0 ∨ header.errorCount = 0 ∨
      maxImageErrors < header.errorCount ∨ header.actionContractCount = 0 ∨
      maxActionContracts < header.actionContractCount ∨ header.typeCount = 0 ∨
      maxImageErrors < header.typeCount ∨ maxGraphNodes < header.nodeCount ∨
      maxGraphEdges < header.edgeCount ∨ 40 < header.regionCount))
    ⟨.invalidCount, none, "invalid type ID or table count"⟩

def decodeOffsets (bytes : Bytes) (header : Header) : Except ImageError Unit :=
  let expectedActionContracts := align4 (headerSize + header.errorCount * 2)
  let expectedTypes :=
    expectedActionContracts + header.actionContractCount * actionContractRecordSize
  let expectedNodes := expectedTypes + header.typeCount * typeRecordSize
  let expectedEdges := expectedNodes + header.nodeCount * nodeRecordSize
  let expectedRegions := expectedEdges + header.edgeCount * edgeRecordSize
  let expectedRepresentations := expectedRegions + header.regionCount * regionRecordSize
  let expectedStrings := expectedRepresentations + header.representationsLength
  require (¬ (header.errorsOffset ≠ headerSize ∨
      header.actionContractsOffset ≠ expectedActionContracts ∨
      header.typesOffset ≠ expectedTypes ∨ header.nodesOffset ≠ expectedNodes ∨
      header.edgesOffset ≠ expectedEdges ∨ header.regionsOffset ≠ expectedRegions ∨
      header.representationsOffset ≠ expectedRepresentations ∨
      header.stringsOffset ≠ expectedStrings ∨ header.nameOffset ≠ header.stringsOffset ∨
      header.nameOffset + header.nameLength ≠ bytes.length))
    ⟨.invalidOffset, none, "table offsets are not canonical or exceed the image"⟩

def decodeName (bytes : Bytes) (header : Header) : Except ImageError Bytes := do
  let name := bytes.drop header.nameOffset
  require (fromUtf8 name = true ∧ name ≠ [])
    ⟨.invalidString, some header.nameOffset, "workflow name is empty or invalid UTF-8"⟩
  pure name

/-! ## Errors, contracts and types -/

def decodeErrors (tables : Tables) : Except ImageError Unit :=
  require (tables.errors.Nodup ∧ ¬ 0 ∈ tables.errors)
    ⟨.duplicateRecord, some tables.header.errorsOffset,
      "workflow error IDs must be unique and nonzero"⟩

def decodeContracts (tables : Tables) : Except ImageError Unit :=
  checkEach (fun prior contract =>
    require (¬ (contract.appId = 0 ∨ contract.actionId = 0 ∨
        (contract.appId, contract.actionId) ∈ prior.map fun p => (p.appId, p.actionId)))
      ⟨.invalidRecord,
        some (tables.header.actionContractsOffset + prior.length * actionContractRecordSize),
        "invalid or duplicate Action contract record"⟩) [] tables.contracts

/-- The header of one descriptor. -/
def validDescriptor (kind reserved : UInt8) (children : Nat) (bound : UInt32) : Bool :=
  reserved == 0 &&
    if 1 ≤ kind ∧ kind ≤ 3 then children == 0 && bound == 0
    else if kind = 4 ∨ kind = 5 then children == 0 && 1 ≤ bound && bound ≤ 1048576
    else if kind = 6 then bound == 0
    else if kind = 7 then children == 1 && 1 ≤ bound && bound ≤ 256
    else if kind = 8 then children != 0 && bound == 0
    else false

/-- `validate_representation`; depth `d` of the source is `65 - d` levels here. -/
def decodeRepresentation (bytes : Bytes) (stop : Nat) : Nat → Nat → Except ImageError Nat
  | 0, offset =>
      .error ⟨.invalidRecord, some offset,
        "truncated or excessively nested representation descriptor"⟩
  | levels + 1, offset =>
      if stop < offset + 8 then
        .error ⟨.invalidRecord, some offset,
          "truncated or excessively nested representation descriptor"⟩
      else
        let children := (bytes.readU16 (offset + 2)).toNat
        if ¬ validDescriptor (bytes.readU8 offset) (bytes.readU8 (offset + 1)) children
            (bytes.readU32 (offset + 4)) then
          .error ⟨.invalidRecord, some offset, "invalid representation descriptor header"⟩
        else
          (List.range children).foldlM
            (fun cursor _ => decodeRepresentation bytes stop levels cursor) (offset + 8)

/-- The rounds of `representation_child_range` up to the child. -/
def childRangeFrom (bytes : Bytes) (stop : Nat) : Nat → Nat → Except ImageError (Nat × Nat)
  | 0, cursor => do
      let next ← decodeRepresentation bytes stop 64 cursor
      pure (cursor, next)
  | index + 1, cursor => do
      let next ← decodeRepresentation bytes stop 64 cursor
      childRangeFrom bytes stop index next

/-- `representation_child_range(..).ok().flatten()` -/
def representationChildRange (bytes : Bytes) (descriptor : Nat × Nat) (childIndex : Nat) :
    Option (Nat × Nat) :=
  if (bytes.readU16 (descriptor.1 + 2)).toNat ≤ childIndex then none
  else (childRangeFrom bytes descriptor.2 childIndex (descriptor.1 + 8)).toOption

/-- `type_descriptors`: where the descriptor of a type starts and ends. -/
abbrev TypeDescriptors := List (UInt16 × (Nat × Nat))

def TypeDescriptors.get (descriptors : TypeDescriptors) (typeId : UInt16) : Option (Nat × Nat) :=
  (descriptors.find? (·.1 == typeId)).map (·.2)

/-- `bytes[a] == bytes[b]`: slices of the same length with the same bytes. -/
def sameDescriptor (bytes : Bytes) (a b : Nat × Nat) : Bool :=
  a.2 - a.1 == b.2 - b.1 && bytes.slice a.1 (a.2 - a.1) == bytes.slice b.1 (b.2 - b.1)

def decodeType (bytes : Bytes) (header : Header) (state : TypeDescriptors × Nat)
    (record : TypeRecord) : Except ImageError (TypeDescriptors × Nat) := do
  require (¬ (record.typeId = 0 ∨ record.reserved ≠ 0 ∨ record.typeId ∈ state.1.map (·.1) ∨
      record.descriptor ≠ state.2))
    ⟨.invalidRecord, some (header.typesOffset + state.1.length * typeRecordSize),
      "invalid, duplicate, or noncanonical type record"⟩
  let descriptorEnd ← decodeRepresentation bytes header.stringsOffset 65 state.2
  pure (state.1 ++ [(record.typeId, (state.2, descriptorEnd))], descriptorEnd)

def decodeTypes (bytes : Bytes) (tables : Tables) : Except ImageError TypeDescriptors := do
  let (descriptors, cursor) ← tables.types.foldlM (decodeType bytes tables.header)
    ([], tables.header.representationsOffset)
  let types := descriptors.map (·.1)
  require (¬ (cursor ≠ tables.header.stringsOffset ∨ ¬ tables.header.inputType ∈ types ∨
      ¬ tables.header.successType ∈ types ∨ ¬ tables.errors.all types.contains))
    ⟨.invalidRecord, some tables.header.typesOffset,
      "representation descriptors or workflow boundary types are incomplete"⟩
  pure descriptors

/-! ## Nodes -/

def decodeNode (bytes : Bytes) (tables : Tables) (descriptors : TypeDescriptors)
    (prior : List NodeClass) (node : Node) : Except ImageError NodeClass :=
  let offset := tables.header.nodesOffset + prior.length * nodeRecordSize
  if node.kind = 1 ∧ node.subtype = 0 ∧ tables.containsActionContract node.app node.action ∧
      node.reserved = 0 then
    .ok .action
  else if node.kind = 3 ∧ node.subtype = 0 ∧ node.action ≠ 0 ∧ node.app = 0 ∧
      node.reserved = 0 ∧ (descriptors.get node.action).any (fun d => bytes.readU8 d.1 == 8) then
    match descriptors.get node.action with
    | none => .error ⟨.invalidRecord, some offset, "invalid node record"⟩
    | some descriptor =>
        let cases := bytes.readU16 (descriptor.1 + 2)
        if maxGraphEdges < cases.toNat ∨ 255 + 1 < cases.toNat then
          .error ⟨.invalidRecord, some offset, "Dispatch variant has too many cases"⟩
        else .ok (.dispatch node.action cases)
  else if node.kind = 4 ∧ 2 ≤ node.subtype.toNat ∧ node.subtype.toNat ≤ maxAllBranches ∧
      node.action ≠ 0 ∧ node.action ∈ descriptors.map (·.1) ∧ node.app = 0 ∧
      node.reserved = 0 then
    .ok (.fork node.action node.subtype)
  else if node.kind = 5 ∧ 2 ≤ node.subtype.toNat ∧ node.subtype.toNat ≤ maxAllBranches ∧
      node.action = 0 ∧ node.app = 0 ∧ node.reserved = 0 then
    .ok (.join node.subtype)
  else if node.kind = 2 ∧ 1 ≤ node.subtype ∧ node.subtype ≤ 4 ∧ node.action = 0 ∧
      node.app = 0 ∧ node.reserved = 0 ∧ ¬ .terminal node.subtype ∈ prior then
    .ok (.terminal node.subtype)
  else .error ⟨.invalidRecord, some offset, "invalid node record"⟩

def decodeNodes (bytes : Bytes) (tables : Tables) (descriptors : TypeDescriptors) :
    Except ImageError (List NodeClass) := do
  let classes ← tables.nodes.foldlM
    (fun classes node => do
      let class_ ← decodeNode bytes tables descriptors classes node
      pure (classes ++ [class_])) []
  require (∀ subtype : Fin 4, .terminal (UInt8.ofNat (subtype.val + 1)) ∈ classes)
    ⟨.invalidTopology, some tables.header.nodesOffset, "terminal kinds must occur exactly once"⟩
  pure classes

/-- `action_nodes.contains` -/
def actionNodes (classes : List NodeClass) (node : UInt16) : Bool :=
  classAt classes node == some .action

/-! ## Regions -/

structure SagaStep where
  compensationApp : UInt16
  compensationAction : UInt16
  sourceType : UInt16
  destinationType : UInt16
  ordinal : UInt16
  deriving DecidableEq, Repr

structure DecodedRegions where
  deadlineRanges : List (Nat × Nat) := []
  eachRegions : List EachRegion := []
  sagaSteps : List (UInt16 × SagaStep) := []
  sagaOutcomes : List (UInt16 × (UInt16 × UInt16)) := []
  deriving DecidableEq, Repr

namespace DecodedRegions

/-- The regions decoded so far. -/
def count (regions : DecodedRegions) : Nat :=
  regions.deadlineRanges.length + regions.eachRegions.length + regions.sagaSteps.length +
    regions.sagaOutcomes.length

/-- `saga_steps.get` -/
def step (regions : DecodedRegions) (forward : UInt16) : Option SagaStep :=
  (regions.sagaSteps.find? (·.1 == forward)).map (·.2)

/-- `each_regions.get`; each regions are numbered from 1. -/
def each (regions : DecodedRegions) (region : UInt16) : Option EachRegion :=
  if region = 0 then none else regions.eachRegions[region.toNat - 1]?

end DecodedRegions

def decodeDeadline (header : Header) (regions : DecodedRegions) (region : Region) :
    Except ImageError DecodedRegions := do
  let first := (region.readU16 2).toNat
  let count := (region.readU16 4).toNat
  let parent := (region.readU16 6).toNat
  let last : Option Nat := if first + count = 0 then none else some (first + count - 1)
  let withinParent : Bool := parent == 0 ||
    regions.deadlineRanges[parent - 1]?.any fun outer =>
      outer.1 ≤ first && last.any fun last => last ≤ outer.2
  require (¬ (region.readU8 1 ≠ 0 ∨ first = 0 ∨ count = 0 ∨
      ¬ last.any (fun last => last ≤ header.nodeCount) ∨
      regions.deadlineRanges.length < parent ∨ ¬ withinParent ∨
      (regions.deadlineRanges = [] ∧ (first ≠ 1 ∨ count ≠ header.nodeCount ∨ parent ≠ 0)) ∨
      region.readU64 8 = 0 ∨ regions.eachRegions ≠ [] ∨ regions.sagaSteps ≠ []))
    ⟨.invalidRecord, some (header.regionsOffset + regions.count * regionRecordSize),
      "invalid deadline region"⟩
  pure { regions with
    deadlineRanges := regions.deadlineRanges ++ [(first, first + count - 1)] }

/-- A list type whose items are of another type. -/
def listMatches (bytes : Bytes) (descriptors : TypeDescriptors) (listType itemType : UInt16)
    (boundOk : UInt32 → Bool) : Bool :=
  match descriptors.get listType, descriptors.get itemType with
  | some list, some item =>
      bytes.readU8 list.1 == 7 && boundOk (bytes.readU32 (list.1 + 4)) &&
        (representationChildRange bytes list 0).any fun child => sameDescriptor bytes child item
  | _, _ => false

def decodeEach (bytes : Bytes) (header : Header) (descriptors : TypeDescriptors)
    (classes : List NodeClass) (regions : DecodedRegions) (region : Region) :
    Except ImageError DecodedRegions := do
  let offset := header.regionsOffset + regions.count * regionRecordSize
  require (regions.sagaSteps = [])
    ⟨.invalidRecord, some offset, "Each regions must precede saga steps"⟩
  let each := EachRegion.read region
  let sourceMatches := listMatches bytes descriptors each.sourceList each.itemInput
    fun maximum => maximum.toNat == each.bound.toNat
  let outputMatches := listMatches bytes descriptors each.collected each.itemOutput
    fun maximum => each.bound.toNat ≤ maximum.toNat
  require (¬ (¬ (1 ≤ each.concurrency ∧ each.concurrency ≤ 8) ∨
      each.bound.toNat < each.concurrency.toNat ∨ each.bound = 0 ∨
      ¬ actionNodes classes each.template ∨ ¬ sourceMatches ∨ ¬ outputMatches ∨
      region.readU16 14 ≠ 0))
    ⟨.invalidRecord, some offset, "invalid Each region"⟩
  pure { regions with eachRegions := regions.eachRegions ++ [each] }

def decodeSagaStep (bytes : Bytes) (tables : Tables) (descriptors : TypeDescriptors)
    (classes : List NodeClass) (regions : DecodedRegions) (region : Region) :
    Except ImageError DecodedRegions := do
  let forward := region.readU16 2
  let step : SagaStep := {
    compensationApp := region.readU16 4
    compensationAction := region.readU16 6
    sourceType := region.readU16 8
    destinationType := region.readU16 10
    ordinal := region.readU16 12 }
  let compatible : Bool :=
    match descriptors.get step.sourceType, descriptors.get step.destinationType with
    | some source, some destination => sameDescriptor bytes source destination
    | _, _ => false
  require (¬ (region.readU8 1 ≠ 0 ∨ ¬ actionNodes classes forward ∨ step.compensationApp = 0 ∨
      step.compensationAction = 0 ∨
      ¬ tables.containsActionContract step.compensationApp step.compensationAction ∨
      step.ordinal.toNat ≠ regions.sagaSteps.length + 1 ∨ ¬ compatible ∨
      region.readU16 14 ≠ 0 ∨ (regions.step forward).isSome))
    ⟨.invalidRecord, some (tables.header.regionsOffset + regions.count * regionRecordSize),
      "invalid saga step"⟩
  pure { regions with sagaSteps := regions.sagaSteps ++ [(forward, step)] }

def decodeSagaOutcome (header : Header) (descriptors : TypeDescriptors)
    (regions : DecodedRegions) (region : Region) : Except ImageError DecodedRegions := do
  let forward := region.readU16 2
  let successType := region.readU16 4
  let errorType := region.readU16 6
  let nextOutcome : Bool := regions.sagaSteps.length == regions.sagaOutcomes.length + 1 &&
    (regions.step forward).any fun step => step.ordinal.toNat == regions.sagaSteps.length
  require (¬ (region.readU8 1 ≠ 0 ∨ ¬ nextOutcome ∨ ¬ (descriptors.get successType).isSome ∨
      ¬ (descriptors.get errorType).isSome ∨ region.slice 8 8 ≠ List.replicate 8 0 ∨
      forward ∈ regions.sagaOutcomes.map (·.1)))
    ⟨.invalidRecord, some (header.regionsOffset + regions.count * regionRecordSize),
      "invalid saga outcome record"⟩
  pure { regions with
    sagaOutcomes := regions.sagaOutcomes ++ [(forward, (successType, errorType))] }

def decodeRegion (bytes : Bytes) (tables : Tables) (descriptors : TypeDescriptors)
    (classes : List NodeClass) (regions : DecodedRegions) (region : Region) :
    Except ImageError DecodedRegions :=
  let kind := region.readU8 0
  if kind = 1 then decodeDeadline tables.header regions region
  else if kind = 2 then decodeEach bytes tables.header descriptors classes regions region
  else if kind = 3 then decodeSagaStep bytes tables descriptors classes regions region
  else if kind = 4 then decodeSagaOutcome tables.header descriptors regions region
  else .error ⟨.invalidRecord,
    some (tables.header.regionsOffset + regions.count * regionRecordSize), "unknown region kind"⟩

def decodeRegions (bytes : Bytes) (tables : Tables) (descriptors : TypeDescriptors)
    (classes : List NodeClass) : Except ImageError DecodedRegions :=
  tables.regions.foldlM (decodeRegion bytes tables descriptors classes) {}

/-! ## Edges -/

def dispatchSource (bytes : Bytes) (descriptors : TypeDescriptors) (classes : List NodeClass)
    (edge : Edge) : Bool :=
  match classAt classes edge.sourceNode with
  | some (.dispatch variant cases) =>
      edge.caseTag.toNat < cases.toNat &&
        match descriptors.get variant with
        | none => false
        | some descriptor =>
            match representationChildRange bytes descriptor edge.caseTag.toNat,
                descriptors.get edge.sourceType with
            | some child, some source => sameDescriptor bytes child source
            | _, _ => false
  | _ => false

/-- `valid_source` -/
def sourceAllowed (bytes : Bytes) (tables : Tables) (descriptors : TypeDescriptors)
    (classes : List NodeClass) (regions : DecodedRegions) (edge : Edge) : Bool :=
  let types := descriptors.map (·.1)
  if edge.sourceKind = 0 then
    edge.sourceNode == 0 && edge.sourceType == tables.header.inputType &&
      types.contains edge.sourceType
  else if edge.sourceKind = 1 ∨ edge.sourceKind = 2 then
    actionNodes classes edge.sourceNode && types.contains edge.sourceType
  else if edge.sourceKind = 3 ∨ edge.sourceKind = 4 then
    actionNodes classes edge.sourceNode && edge.sourceType == 0 && edge.targetType == 0
  else if edge.sourceKind = 5 then dispatchSource bytes descriptors classes edge
  else if edge.sourceKind = 6 then
    match classAt classes edge.sourceNode with
    | some (.fork input branches) => edge.caseTag < branches && edge.sourceType == input
    | _ => false
  else if edge.sourceKind = 7 then
    match classAt classes edge.sourceNode with
    | some (.join branches) => edge.caseTag < branches && types.contains edge.sourceType
    | _ => false
  else if edge.sourceKind = 8 then
    (regions.each edge.sourceNode).any fun each =>
      edge.caseTag == 0 && edge.sourceType == each.itemInput
  else if edge.sourceKind = 9 then
    (regions.each edge.sourceNode).any fun each =>
      edge.caseTag == 0 && edge.sourceType == each.collected
  else false

/-- `valid_target` -/
def targetAllowed (tables : Tables) (descriptors : TypeDescriptors) (classes : List NodeClass)
    (regions : DecodedRegions) (edge : Edge) : Bool :=
  let types := descriptors.map (·.1)
  if edge.targetKind = 1 then
    actionNodes classes edge.targetNode && types.contains edge.targetType
  else if edge.targetKind = 2 then
    match classAt classes edge.targetNode with
    | some (.terminal subtype) =>
        if subtype = 1 then edge.targetType == tables.header.successType
        else if subtype = 2 then tables.errors.contains edge.targetType
        else if subtype = 3 ∨ subtype = 4 then edge.targetType == 0
        else false
    | _ => false
  else if edge.targetKind = 3 then
    match classAt classes edge.targetNode with
    | some (.dispatch variant _) => edge.targetType == variant
    | _ => false
  else if edge.targetKind = 4 then
    match classAt classes edge.targetNode with
    | some (.fork input _) => edge.targetType == input
    | _ => false
  else if edge.targetKind = 5 then
    match classAt classes edge.targetNode with
    | some (.join branches) => edge.caseTag < branches && types.contains edge.targetType
    | _ => false
  else if edge.targetKind = 6 then
    (regions.each edge.targetNode).any fun each =>
      edge.caseTag == 0 && edge.targetType == each.sourceList
  else if edge.targetKind = 7 then
    (regions.each edge.targetNode).any fun each =>
      edge.caseTag == 0 && edge.targetType == each.itemOutput
  else false

/-- A key of `edge_keys`. -/
def edgeKey (edge : Edge) : UInt8 × UInt16 × UInt8 × UInt8 × UInt16 :=
  (edge.sourceKind, edge.sourceNode, edge.caseTag, edge.targetKind, edge.targetNode)

/-- A key of `source_ports`. -/
def sourcePort (edge : Edge) : UInt8 × UInt16 × UInt8 :=
  (edge.sourceKind, edge.sourceNode,
    if 5 ≤ edge.sourceKind ∧ edge.sourceKind ≤ 7 then edge.caseTag else 0)

/-- `input_targets` -/
def inputTargets (edges : List Edge) (node : UInt16) : Nat :=
  edges.countP fun e =>
    (e.targetKind == 1 || e.targetKind == 3 || e.targetKind == 4) && e.targetNode == node

/-- `source_ports` -/
def sourcePorts (edges : List Edge) (port : UInt8 × UInt16 × UInt8) : Nat :=
  edges.countP fun e => sourcePort e == port

/-- `join_input_types` -/
def joinInput (edges : List Edge) (port : UInt16 × UInt8) : Option UInt16 :=
  (edges.find? fun e => e.targetKind == 5 && (e.targetNode, e.caseTag) == port).map (·.targetType)

/-- `join_output_types` -/
def joinOutput (edges : List Edge) (port : UInt16 × UInt8) : Option UInt16 :=
  (edges.find? fun e => e.sourceKind == 7 && (e.sourceNode, e.caseTag) == port).map (·.sourceType)

/-- `each_input_ports` and `each_collect_ports` -/
def eachPorts (edges : List Edge) (kind : UInt8) (region : UInt16) : Nat :=
  edges.countP fun e => e.targetKind == kind && e.targetNode == region

/-- `action_success_types`; the last edge counts. -/
def actionSuccess (edges : List Edge) (node : UInt16) : Option UInt16 :=
  (edges.reverse.find? fun e => e.sourceKind == 1 && e.sourceNode == node).map (·.sourceType)

/-- `graph_source` -/
def graphSource (regions : DecodedRegions) (edge : Edge) : Option UInt16 :=
  if edge.sourceKind = 8 then none
  else if edge.sourceKind = 9 then (regions.each edge.sourceNode).map (·.template)
  else if edge.sourceKind ≠ 0 then some edge.sourceNode
  else none

/-- `graph_target` -/
def graphTarget (regions : DecodedRegions) (edge : Edge) : Option UInt16 :=
  if edge.targetKind = 6 then (regions.each edge.targetNode).map (·.template)
  else if edge.targetKind = 7 then none
  else some edge.targetNode

/-- One round of the edge loop; `prior` are the edges of the rounds before. -/
def decodeEdge (bytes : Bytes) (tables : Tables) (descriptors : TypeDescriptors)
    (classes : List NodeClass) (regions : DecodedRegions) (prior : List Edge) (edge : Edge) :
    Except ImageError Unit := do
  let offset := some (tables.header.edgesOffset + prior.length * edgeRecordSize)
  let validPresentation : Bool := (edge.flags == 0 && edge.presentation == 0) ||
    (edge.flags == 1 && edge.presentation == edge.targetType)
  require (¬ (¬ sourceAllowed bytes tables descriptors classes regions edge ∨
      ¬ targetAllowed tables descriptors classes regions edge ∨ ¬ validPresentation ∨
      (edge.sourceKind ≠ 5 ∧ edge.sourceKind ≠ 6 ∧ edge.sourceKind ≠ 7 ∧ edge.sourceKind ≠ 8 ∧
        edge.sourceKind ≠ 9 ∧ edge.targetKind ≠ 5 ∧ edge.caseTag ≠ 0) ∨
      edge.reserved ≠ 0))
    ⟨.invalidRecord, offset, "invalid edge record"⟩
  require (¬ edgeKey edge ∈ prior.map edgeKey) ⟨.duplicateRecord, offset, "duplicate edge"⟩
  require (¬ (edge.targetKind = 5 ∧ (joinInput prior (edge.targetNode, edge.caseTag)).isSome))
    ⟨.duplicateRecord, offset, "duplicate Join input"⟩
  require (¬ (edge.sourceKind = 7 ∧ (joinOutput prior (edge.sourceNode, edge.caseTag)).isSome))
    ⟨.duplicateRecord, offset, "duplicate Join output"⟩

/-- The ports of one node that are missing or connected more than once. -/
def portsMissing (edges : List Edge) (node : UInt16) : NodeClass → Bool
  | .action =>
      inputTargets edges node != 1 ||
        (sourcePorts edges (1, node, 0) != 1 || sourcePorts edges (2, node, 0) != 1 ||
          sourcePorts edges (3, node, 0) != 1 || sourcePorts edges (4, node, 0) != 1)
  | .terminal _ => false
  | .dispatch _ cases =>
      inputTargets edges node != 1 ||
        (List.range cases.toNat).any fun tag => sourcePorts edges (5, node, UInt8.ofNat tag) != 1
  | .fork _ branches =>
      inputTargets edges node != 1 ||
        (List.range branches.toNat).any fun tag =>
          sourcePorts edges (6, node, UInt8.ofNat tag) != 1
  | .join branches =>
      let tags := (List.range branches.toNat).map UInt8.ofNat
      tags.countP (fun tag => (joinOutput edges (node, tag)).isSome) == 0 ||
        tags.any fun tag =>
          (joinInput edges (node, tag)).isNone ||
            (joinOutput edges (node, tag)).any fun output =>
              some output != joinInput edges (node, tag)

/-- The ids `1 .. count` of nodes or regions. -/
def ids (count : Nat) : List UInt16 := (List.range count).map fun index => UInt16.ofNat (index + 1)

/-- Steps and outcomes of a saga for every action, with the type of its success. -/
def sagaIncomplete (edges : List Edge) (classes : List NodeClass) (regions : DecodedRegions) :
    Bool :=
  regions.sagaSteps != [] &&
    (regions.sagaSteps.length != classes.countP (· == .action) ||
      regions.sagaOutcomes.length != regions.sagaSteps.length ||
      (ids classes.length).any fun node => actionNodes classes node &&
        !(regions.step node).any fun step => actionSuccess edges node == some step.sourceType)

/-- Targets of the edges that leave a node: an entry of `adjacency`. -/
def adjacency (regions : DecodedRegions) (edges : List Edge) (node : UInt16) : List UInt16 :=
  edges.filterMap fun edge =>
    if edge.sourceKind ≠ 0 ∧ graphSource regions edge = some node then graphTarget regions edge
    else none

/-- The loop over the queue. A round takes one node from it, and an edge puts its target there once
at most, so the roots and the edges bound the rounds. -/
def drainQueue (regions : DecodedRegions) (edges : List Edge) :
    Nat → List UInt16 → List UInt16 → List UInt16
  | 0, _, reachable => reachable
  | _ + 1, [], reachable => reachable
  | rounds + 1, node :: queue, reachable =>
      if node ∈ reachable then drainQueue regions edges rounds queue reachable
      else drainQueue regions edges rounds (queue ++ adjacency regions edges node)
        (node :: reachable)

/-- `roots` -/
def roots (regions : DecodedRegions) (edges : List Edge) : List UInt16 :=
  edges.filterMap fun edge => if edge.sourceKind = 0 then graphTarget regions edge else none

def reachable (regions : DecodedRegions) (edges : List Edge) : List UInt16 :=
  drainQueue regions edges ((roots regions edges).length + edges.length + 1)
    (roots regions edges) []

def decodeEdges (bytes : Bytes) (tables : Tables) (descriptors : TypeDescriptors)
    (classes : List NodeClass) (regions : DecodedRegions) : Except ImageError Unit := do
  let edges := tables.edges
  checkEach (decodeEdge bytes tables descriptors classes regions) [] edges
  require (¬ (((ids classes.length).zip classes).any (fun entry =>
        portsMissing edges entry.1 entry.2) ∨
      sourcePorts edges (0, 0, 0) ≠ 1 ∨
      (ids regions.eachRegions.length).any (fun region =>
        eachPorts edges 6 region != 1 || eachPorts edges 7 region != 1 ||
          sourcePorts edges (8, region, 0) != 1 || sourcePorts edges (9, region, 0) != 1) ∨
      sagaIncomplete edges classes regions))
    ⟨.invalidTopology, some tables.header.edgesOffset, "required graph ports are missing"⟩
  let allNodes := ids tables.header.nodeCount
  let reached := reachable regions edges
  require (reached.all allNodes.contains ∧ allNodes.all reached.contains)
    ⟨.invalidTopology, some tables.header.edgesOffset,
      "graph contains an unreachable node or cycle"⟩

/-! ## The decoder -/

/-- `decode_graph_image` -/
def decodeGraphImage (bytes : Bytes) : Except ImageError DecodedImage := do
  decodeHeader bytes
  let tables := readTables bytes
  decodeCounts tables.header
  decodeOffsets bytes tables.header
  let workflowName ← decodeName bytes tables.header
  decodeErrors tables
  decodeContracts tables
  let descriptors ← decodeTypes bytes tables
  let classes ← decodeNodes bytes tables descriptors
  let regions ← decodeRegions bytes tables descriptors classes
  decodeEdges bytes tables descriptors classes regions
  pure {
    workflowName
    inputType := tables.header.inputType
    successType := tables.header.successType
    errorCount := tables.header.errorCount
    actionContractCount := tables.header.actionContractCount
    typeCount := tables.header.typeCount
    nodeCount := tables.header.nodeCount
    edgeCount := tables.header.edgeCount
    regionCount := tables.header.regionCount }

end Hermas.Compiler
