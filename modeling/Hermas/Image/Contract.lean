import Hermas.Image.Validate

/-!
# The contract behind a fingerprint

An image has a record for the fingerprint of every action it uses, but the types of the
action are not in it. `hermas_image_find_action_contract` takes them from the edges at
the nodes that deliver the action and from the saga steps that compensate with it, and
refuses an image in which two of these places disagree. A fingerprint that two records
share is refused as well.
-/

namespace Hermas.Image

/-- `hermas_image_action_contract` -/
structure ResolvedContract where
  appId : UInt16
  actionId : UInt16
  inputType : UInt16
  successType : UInt16
  errorType : UInt16
  fingerprint : Bytes
  deriving DecidableEq, Repr

/-- The three types of an action; 0 is a type that was not found yet. -/
structure ContractTypes where
  input : UInt16 := 0
  success : UInt16 := 0
  error : UInt16 := 0
  deriving DecidableEq, Repr

/-! ## The record -/

/-- One record of the table; a second match is refused. -/
def matchContract (fingerprint : Bytes) (found : Option ActionContract)
    (contract : ActionContract) : Except ImageResult (Option ActionContract) :=
  if contract.fingerprint ≠ fingerprint then .ok found
  else if found.isSome then .error .invalidRecord
  else .ok (some contract)

/-! ## The types -/

/-- `assign_contract_type`; every caller refuses the image for the same reason. -/
def assignContractType (slot value : UInt16) : Except ImageResult UInt16 := do
  require (value ≠ 0 ∧ (slot = 0 ∨ slot = value)) .invalidTopology
  pure value

/-- The three calls at one place of the image. -/
def ContractTypes.assign (found seen : ContractTypes) : Except ImageResult ContractTypes := do
  let input ← assignContractType found.input seen.input
  let success ← assignContractType found.success seen.success
  let error ← assignContractType found.error seen.error
  pure { input, success, error }

def entersAction (node : UInt16) (edge : Edge) : Bool :=
  edge.targetKind == 1 && edge.targetNode == node

def leavesAction (kind : UInt8) (node : UInt16) (edge : Edge) : Bool :=
  edge.sourceNode == node && edge.sourceKind == kind

/-- What an edge says about the types of a node; a later edge wins. -/
def seeEdge (node : UInt16) (types : ContractTypes) (edge : Edge) : ContractTypes where
  input := if entersAction node edge then edge.targetType else types.input
  success := if leavesAction 1 node edge then edge.sourceType else types.success
  error := if leavesAction 2 node edge then edge.sourceType else types.error

def nodeTypes (edges : List Edge) (node : UInt16) : ContractTypes :=
  edges.foldl (seeEdge node) {}

/-- The node delivers the action. -/
def deliversContract (contract : ActionContract) (node : Node) : Bool :=
  node.kind == 1 && node.action == contract.actionId && node.app == contract.appId

/-- The region is the first record of a step that compensates with the action. -/
def compensatesContract (contract : ActionContract) (region : Region) : Bool :=
  region.readU8 0 == 3 && region.readU16 4 == contract.appId &&
    region.readU16 6 == contract.actionId

def isOutcome (forward : UInt16) (region : Region) : Bool :=
  region.readU8 0 == 4 && region.readU16 2 == forward

/-- The input of a compensation is in its record, the rest in the first outcome record of the
same node. -/
def compensationTypes (regions : List Region) (region : Region) : ContractTypes :=
  let input := region.readU16 10
  match regions.find? (isOutcome (region.readU16 2)) with
  | some outcome => { input, success := outcome.readU16 4, error := outcome.readU16 6 }
  | none => { input }

def addNode (edges : List Edge) (contract : ActionContract) (types : ContractTypes)
    (entry : Node × Nat) : Except ImageResult ContractTypes :=
  if deliversContract contract entry.1 then
    types.assign (nodeTypes edges (UInt16.ofNat (entry.2 + 1)))
  else .ok types

def addRegion (regions : List Region) (contract : ActionContract) (types : ContractTypes)
    (region : Region) : Except ImageResult ContractTypes :=
  if compensatesContract contract region then types.assign (compensationTypes regions region)
  else .ok types

/-- The types of an action in the tables of an image. -/
def contractTypes (tables : Tables) (contract : ActionContract) :
    Except ImageResult ContractTypes := do
  let types ← tables.nodes.zipIdx.foldlM (addNode tables.edges contract) {}
  let types ← tables.regions.foldlM (addRegion tables.regions contract) types
  require (types.input ≠ 0 ∧ types.success ≠ 0 ∧ types.error ≠ 0) .invalidTopology
  pure types

/-- `hermas_image_find_action_contract`, for a fingerprint of 32 bytes -/
def findActionContract (bytes fingerprint : Bytes) : Except ImageResult ResolvedContract := do
  let _ ← imageValidate bytes
  let tables := readTables bytes
  match ← tables.contracts.foldlM (matchContract fingerprint) none with
  | none => .error .actionNotFound
  | some contract =>
      let types ← contractTypes tables contract
      pure {
        appId := contract.appId
        actionId := contract.actionId
        inputType := types.input
        successType := types.success
        errorType := types.error
        fingerprint }

/-! ## Finding the record -/

section Match

variable {fingerprint : Bytes}

/-- The records of a fingerprint. -/
def carriers (fingerprint : Bytes) (contracts : List ActionContract) : List ActionContract :=
  contracts.filter (·.fingerprint == fingerprint)

theorem carriers_cons_of_eq {contract : ActionContract} {contracts : List ActionContract}
    (h : contract.fingerprint = fingerprint) :
    carriers fingerprint (contract :: contracts) = contract :: carriers fingerprint contracts :=
  List.filter_cons_of_pos (beq_iff_eq.mpr h)

theorem carriers_cons_of_ne {contract : ActionContract} {contracts : List ActionContract}
    (h : ¬ contract.fingerprint = fingerprint) :
    carriers fingerprint (contract :: contracts) = carriers fingerprint contracts :=
  List.filter_cons_of_neg (by simpa using h)

theorem matchContract_behind (contract : ActionContract) : ∀ contracts : List ActionContract,
    contracts.foldlM (matchContract fingerprint) (some contract) =
      if carriers fingerprint contracts = [] then .ok (some contract) else .error .invalidRecord
  | [] => rfl
  | next :: contracts => by
      rw [List.foldlM_cons, matchContract]
      by_cases h : next.fingerprint = fingerprint
      · rw [carriers_cons_of_eq h, if_neg (not_not.mpr h), if_pos (by rfl),
          if_neg (List.cons_ne_nil _ _)]
        rfl
      · rw [carriers_cons_of_ne h, if_pos h]
        exact matchContract_behind contract contracts

/-- **One record is found, and two are refused.** -/
theorem matchContract_eq : ∀ contracts : List ActionContract,
    contracts.foldlM (matchContract fingerprint) none =
      match carriers fingerprint contracts with
      | [] => .ok none
      | [contract] => .ok (some contract)
      | _ => .error .invalidRecord
  | [] => rfl
  | next :: contracts => by
      rw [List.foldlM_cons, matchContract]
      by_cases h : next.fingerprint = fingerprint
      · rw [carriers_cons_of_eq h, if_neg (not_not.mpr h), if_neg (by simp)]
        refine (matchContract_behind next contracts).trans ?_
        cases carriers fingerprint contracts with
        | nil => rfl
        | cons => rfl
      · rw [carriers_cons_of_ne h, if_pos h]
        exact matchContract_eq contracts

end Match

/-! ## Finding the types -/

section Types

variable {edges : List Edge} {contract : ActionContract} {types : ContractTypes}

/-- None of the types is missing. -/
def ContractTypes.Found (types : ContractTypes) : Prop :=
  types.input ≠ 0 ∧ types.success ≠ 0 ∧ types.error ≠ 0

theorem assignContractType_eq {slot value : UInt16} (hvalue : value ≠ 0)
    (hslot : slot = 0 ∨ slot = value) : assignContractType slot value = .ok value := by
  rw [assignContractType, require, if_pos ⟨hvalue, hslot⟩]
  rfl

/-- Nothing changes when the same types are seen again. -/
theorem ContractTypes.Found.assign (h : types.Found) {found : ContractTypes}
    (hfound : found = {} ∨ found = types) : found.assign types = .ok types := by
  obtain ⟨hinput, hsuccess, herror⟩ := h
  rcases hfound with rfl | rfl
  · rw [ContractTypes.assign, assignContractType_eq hinput (.inl rfl),
      assignContractType_eq hsuccess (.inl rfl), assignContractType_eq herror (.inl rfl)]
    rfl
  · rw [ContractTypes.assign, assignContractType_eq hinput (.inr rfl),
      assignContractType_eq hsuccess (.inr rfl), assignContractType_eq herror (.inr rfl)]
    rfl

/-- A loop that comes to the same types at every place it looks at. -/
theorem ContractTypes.Found.foldlM {α : Type} {step : ContractTypes → α → Except ImageResult ContractTypes}
    {used : α → Bool} {seen : α → ContractTypes} (h : types.Found)
    (hstep : ∀ found x, step found x = if used x then found.assign (seen x) else .ok found) :
    ∀ {xs : List α} {found : ContractTypes}, (∀ x ∈ xs, used x = true → seen x = types) →
      found = {} ∨ found = types →
      xs.foldlM step found = .ok (if xs.any used then types else found) := by
  intro xs
  induction xs with
  | nil => intro found _ _; rfl
  | cons x xs ih =>
      intro found hseen hfound
      rw [List.foldlM_cons, hstep]
      obtain ⟨hx, hxs⟩ := List.forall_mem_cons.mp hseen
      by_cases hused : used x = true
      · rw [if_pos hused, hx hused, h.assign hfound]
        refine (ih hxs (.inr rfl)).trans ?_
        rw [ite_self, List.any_cons, hused, Bool.true_or, if_pos rfl]
      · rw [if_neg hused]
        refine (ih hxs hfound).trans ?_
        rw [List.any_cons, Bool.eq_false_iff.mpr hused, Bool.false_or]

/-- The edges at a node say what its types are. -/
structure EdgesAgree (edges : List Edge) (node : UInt16) (types : ContractTypes) : Prop where
  input : ∀ edge ∈ edges, entersAction node edge = true → edge.targetType = types.input
  success : ∀ edge ∈ edges, leavesAction 1 node edge = true → edge.sourceType = types.success
  error : ∀ edge ∈ edges, leavesAction 2 node edge = true → edge.sourceType = types.error

theorem EdgesAgree.foldl {node : UInt16} : ∀ {edges : List Edge} (found : ContractTypes),
    EdgesAgree edges node types → edges.foldl (seeEdge node) found =
      { input := if edges.any (entersAction node) then types.input else found.input
        success := if edges.any (leavesAction 1 node) then types.success else found.success
        error := if edges.any (leavesAction 2 node) then types.error else found.error }
  | [], _, _ => rfl
  | edge :: edges, found, h => by
      obtain ⟨hinput, hinputs⟩ := List.forall_mem_cons.mp h.input
      obtain ⟨hsuccess, hsuccesses⟩ := List.forall_mem_cons.mp h.success
      obtain ⟨herror, herrors⟩ := List.forall_mem_cons.mp h.error
      rw [List.foldl_cons, EdgesAgree.foldl _ ⟨hinputs, hsuccesses, herrors⟩, seeEdge]
      simp only [List.any_cons, ContractTypes.mk.injEq]
      refine ⟨?_, ?_, ?_⟩
      · by_cases hat : entersAction node edge = true
        · simp [hat, hinput hat]
        · simp [hat]
      · by_cases hat : leavesAction 1 node edge = true
        · simp [hat, hsuccess hat]
        · simp [hat]
      · by_cases hat : leavesAction 2 node edge = true
        · simp [hat, herror hat]
        · simp [hat]

theorem EdgesAgree.nodeTypes {node : UInt16} (h : EdgesAgree edges node types)
    (hinput : ∃ edge ∈ edges, entersAction node edge = true)
    (hsuccess : ∃ edge ∈ edges, leavesAction 1 node edge = true)
    (herror : ∃ edge ∈ edges, leavesAction 2 node edge = true) :
    nodeTypes edges node = types := by
  rw [Image.nodeTypes, h.foldl, if_pos (List.any_eq_true.mpr hinput),
    if_pos (List.any_eq_true.mpr hsuccess), if_pos (List.any_eq_true.mpr herror)]

/-- **Places that agree give the types.** -/
theorem ContractTypes.Found.contractTypes {tables : Tables} (h : types.Found)
    (hnodes : ∀ entry ∈ tables.nodes.zipIdx, deliversContract contract entry.1 = true →
      nodeTypes tables.edges (UInt16.ofNat (entry.2 + 1)) = types)
    (hregions : ∀ region ∈ tables.regions, compensatesContract contract region = true →
      compensationTypes tables.regions region = types)
    (hused : tables.nodes.zipIdx.any (fun entry => deliversContract contract entry.1) = true ∨
      tables.regions.any (compensatesContract contract) = true) :
    contractTypes tables contract = .ok types := by
  have hfirst : tables.nodes.zipIdx.foldlM (addNode tables.edges contract) {} =
      .ok (if tables.nodes.zipIdx.any (fun entry => deliversContract contract entry.1) then types
        else {}) :=
    h.foldlM (fun _ _ => rfl) hnodes (.inl rfl)
  have hsecond : ∀ found, found = {} ∨ found = types →
      tables.regions.foldlM (addRegion tables.regions contract) found =
        .ok (if tables.regions.any (compensatesContract contract) then types else found) :=
    fun _ => h.foldlM (fun _ _ => rfl) hregions
  have hend : (require (types.input ≠ 0 ∧ types.success ≠ 0 ∧ types.error ≠ 0)
      ImageResult.invalidTopology >>= fun _ => pure types) = .ok types := by
    obtain ⟨hinput, hsuccess, herror⟩ := h
    rw [require, if_pos ⟨hinput, hsuccess, herror⟩]
    rfl
  rw [Image.contractTypes, hfirst]
  change (tables.regions.foldlM (addRegion tables.regions contract) _ >>= _) = _
  by_cases hnode : tables.nodes.zipIdx.any (fun entry => deliversContract contract entry.1) = true
  · rw [if_pos hnode, hsecond _ (.inr rfl), ite_self]
    exact hend
  · rw [if_neg hnode, hsecond _ (.inl rfl), if_pos (hused.resolve_left hnode)]
    exact hend

end Types

end Hermas.Image
