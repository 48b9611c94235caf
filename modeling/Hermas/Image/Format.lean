import Hermas.Base.Bytes

/-!
# The graph image as tables

An image is a header of 80 bytes, six tables of fixed-size records, the type
descriptors and the workflow's name. This file reads the header and the tables;
it accepts everything, and what is acceptable is the business of `Validate`.
-/

namespace Hermas.Image

def headerSize : Nat := 80
def maxSize : Nat := 1024 * 1024
def maxNodes : Nat := 64
def maxActionContracts : Nat := 80
def maxEdges : Nat := 192
def maxErrors : Nat := 256
def maxAllBranches : Nat := 8

/-- `"HGI1"` -/
def magic : Bytes := [0x48, 0x47, 0x49, 0x31]

/-- The header's counts and offsets. -/
structure Header where
  nameOffset : Nat
  nameLength : Nat
  inputType : UInt16
  successType : UInt16
  errorCount : Nat
  actionContractCount : Nat
  nodeCount : Nat
  edgeCount : Nat
  typeCount : Nat
  regionCount : Nat
  errorsOffset : Nat
  actionContractsOffset : Nat
  typesOffset : Nat
  nodesOffset : Nat
  edgesOffset : Nat
  representationsOffset : Nat
  stringsOffset : Nat
  representationsLength : Nat
  regionsOffset : Nat
  deriving DecidableEq, Repr

def readHeader (bytes : Bytes) : Header where
  nameOffset := (bytes.readU32 16).toNat
  nameLength := (bytes.readU16 20).toNat
  inputType := bytes.readU16 22
  successType := bytes.readU16 24
  errorCount := (bytes.readU16 26).toNat
  actionContractCount := (bytes.readU16 28).toNat
  nodeCount := (bytes.readU16 30).toNat
  edgeCount := (bytes.readU16 32).toNat
  typeCount := (bytes.readU16 34).toNat
  regionCount := (bytes.readU16 68).toNat
  errorsOffset := (bytes.readU32 36).toNat
  actionContractsOffset := (bytes.readU32 40).toNat
  typesOffset := (bytes.readU32 44).toNat
  nodesOffset := (bytes.readU32 48).toNat
  edgesOffset := (bytes.readU32 52).toNat
  representationsOffset := (bytes.readU32 56).toNat
  stringsOffset := (bytes.readU32 60).toNat
  representationsLength := (bytes.readU32 64).toNat
  regionsOffset := (bytes.readU32 72).toNat

structure ActionContract where
  appId : UInt16
  actionId : UInt16
  fingerprint : Bytes
  deriving DecidableEq, Repr

structure TypeRecord where
  typeId : UInt16
  reserved : UInt16
  descriptor : Nat
  deriving DecidableEq, Repr

/-- A node record. `action` is the type of a dispatch and of a fork. -/
structure Node where
  kind : UInt8
  subtype : UInt8
  action : UInt16
  app : UInt16
  reserved : UInt16
  deriving DecidableEq, Repr, Inhabited

structure Edge where
  sourceKind : UInt8
  targetKind : UInt8
  flags : UInt8
  caseTag : UInt8
  sourceNode : UInt16
  targetNode : UInt16
  sourceType : UInt16
  targetType : UInt16
  presentation : UInt16
  reserved : UInt16
  deriving DecidableEq, Repr

/-- A region record; its fields depend on its kind, the first byte. -/
abbrev Region := Bytes

def ActionContract.read (record : Bytes) : ActionContract where
  appId := record.readU16 0
  actionId := record.readU16 2
  fingerprint := record.slice 4 32

def TypeRecord.read (record : Bytes) : TypeRecord where
  typeId := record.readU16 0
  reserved := record.readU16 2
  descriptor := (record.readU32 4).toNat

def Node.read (record : Bytes) : Node where
  kind := record.readU8 0
  subtype := record.readU8 1
  action := record.readU16 2
  app := record.readU16 4
  reserved := record.readU16 6

def Edge.read (record : Bytes) : Edge where
  sourceKind := record.readU8 0
  targetKind := record.readU8 1
  flags := record.readU8 2
  caseTag := record.readU8 3
  sourceNode := record.readU16 4
  targetNode := record.readU16 6
  sourceType := record.readU16 8
  targetType := record.readU16 10
  presentation := record.readU16 12
  reserved := record.readU16 14

/-- Everything that stands in front of the descriptors. -/
structure Tables where
  header : Header
  errors : List UInt16
  contracts : List ActionContract
  types : List TypeRecord
  nodes : List Node
  edges : List Edge
  regions : List Region
  deriving DecidableEq, Repr

/-- A table of `count` records of `size` bytes. -/
def readTable {α : Type} (read : Bytes → α) (bytes : Bytes) (offset size count : Nat) : List α :=
  (Bytes.records size count (bytes.drop offset)).map read

def readTables (bytes : Bytes) : Tables :=
  let header := readHeader bytes
  { header
    errors := readTable (fun record => record.readU16 0) bytes header.errorsOffset 2
      header.errorCount
    contracts := readTable ActionContract.read bytes header.actionContractsOffset 36
      header.actionContractCount
    types := readTable TypeRecord.read bytes header.typesOffset 8 header.typeCount
    nodes := readTable Node.read bytes header.nodesOffset 8 header.nodeCount
    edges := readTable Edge.read bytes header.edgesOffset 16 header.edgeCount
    regions := readTable id bytes header.regionsOffset 16 header.regionCount }

namespace Tables

variable (tables : Tables)

/-- `contains_u16` over the type table. -/
def containsType (typeId : UInt16) : Bool := tables.types.any (·.typeId == typeId)

/-- `contains_action_contract` -/
def containsActionContract (app action : UInt16) : Bool :=
  tables.contracts.any fun contract => contract.appId == app && contract.actionId == action

end Tables

/-- `type_descriptor`: a descriptor ends where the next one starts. -/
def typeDescriptor (stringsOffset : Nat) (typeId : UInt16) : List TypeRecord → Option (Nat × Nat)
  | [] => none
  | record :: rest =>
      if record.typeId = typeId then
        some (record.descriptor,
          match rest with
          | [] => stringsOffset
          | next :: _ => next.descriptor)
      else typeDescriptor stringsOffset typeId rest

def Tables.descriptor (tables : Tables) (typeId : UInt16) : Option (Nat × Nat) :=
  typeDescriptor tables.header.stringsOffset typeId tables.types

end Hermas.Image
