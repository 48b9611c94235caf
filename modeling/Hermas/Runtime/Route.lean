import Hermas.Image.Validate
import Hermas.Protocol.Frame

/-!
# Routes

Both interpreters move a value along the edges of the image. An edge into a
dispatch is not the end of the move: the tag in front of the value picks the next
edge. `landing` follows the dispatches and says where the value comes to rest,
which depends on the image, the edge and the value only.
-/

namespace Hermas

open Image (Edge Node)

/-- `hermas_execution_state` -/
inductive ExecutionState where
  | empty | ready | prepared | sent | complete | waiting
  deriving DecidableEq, Repr

/-- `hermas_runtime_result` -/
inductive RuntimeResult where
  | ok | invalidArgument | invalidImage | invalidValue | bufferTooSmall | invalidState
  | unexpectedResult | requestIdExhausted
  deriving DecidableEq, Repr

namespace Image

variable (image : Image)

/-- The record of a node; nodes are numbered from 1. -/
def node (node : UInt16) : Node := (image.tables.nodes[node.toNat - 1]?).getD default

def isAction (node : UInt16) : Bool := (image.node node).kind == 1

/-- `find_edge` -/
def findEdge (sourceKind : UInt8) (sourceNode : UInt16) : Option Edge :=
  image.tables.edges.find? fun edge =>
    edge.sourceKind == sourceKind && edge.sourceNode == sourceNode

/-- `find_case_edge` -/
def findCaseEdge (sourceNode : UInt16) (caseTag : UInt8) : Option Edge :=
  image.tables.edges.find? fun edge =>
    edge.sourceKind == 5 && edge.sourceNode == sourceNode && edge.caseTag == caseTag

/-- `group_find_edge`: tags tell apart cases, branches and fields. -/
def groupFindEdge (sourceKind : UInt8) (sourceNode : UInt16) (tag : UInt8) : Option Edge :=
  image.tables.edges.find? fun edge =>
    edge.sourceKind == sourceKind && edge.sourceNode == sourceNode &&
      (sourceKind < 5 || edge.caseTag == tag)

end Image

/-! ## Dispatches -/

/-- Where a value comes to rest: at an edge that enters no dispatch, or stuck at one. -/
inductive Landing where
  | at (edge : Edge) (value : Bytes)
  | stuck (edge : Edge) (value : Bytes) (result : RuntimeResult)
  deriving DecidableEq, Repr

/-- The move through the dispatches behind an edge. -/
def landing (image : Image) : Bytes → Edge → Landing
  | value, edge =>
      if edge.targetKind ≠ 3 then .at edge value
      else
        match value with
        | t0 :: t1 :: t2 :: t3 :: r0 :: r1 :: r2 :: r3 :: rest =>
            let tag := Bytes.readU32 [t0, t1, t2, t3] 0
            if Bytes.readU32 [r0, r1, r2, r3] 0 ≠ 0 ∨ 255 < tag then
              .stuck edge value .invalidValue
            else
              match image.findCaseEdge edge.targetNode tag.toUInt8 with
              | none => .stuck edge value .invalidImage
              | some next =>
                  if image.validateValue next.sourceType rest then landing image rest next
                  else .stuck edge rest .invalidValue
        | value => .stuck edge value .invalidValue

end Hermas
