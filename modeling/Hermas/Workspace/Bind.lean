import Hermas.Image.Contract
import Hermas.Workspace.Files

/-!
# Binding a workspace

`hermas_workspace_bind_checked` pins a workspace to the bytes of one image: it publishes
them as the managed image and then the manifest. A workspace that has been bound is only
compared with, and an image without a manifest, left by a bind that did not get to its
end, is taken up when it has the same bytes. `hermas_workspace_load` reads a binding
back. The programs are the source's, call by call; what an allocation that fails does is left
out, since a read that fails does the same.
-/

namespace Hermas.Journal

/-- `hermas_journal_image_fingerprint` -/
def imageFingerprint (image : Bytes) : UInt64 :=
  if image = [] then 0
  else
    let value := image.foldl (fun value byte => (value ^^^ byte.toUInt64) * 1099511628211)
      14695981039346656037
    if value = 0 then uint64Max else value

end Hermas.Journal

namespace Hermas.Workspace

open Program (request)

/-- A program on a workspace. -/
abbrev Task (α : Type) := Program Answer α

/-- A program that may stop with an error. -/
abbrev Attempt (α : Type) := ExceptT WorkspaceResult (Program Answer) α

/-- The lengths of the paths of the managed files; a path that was never set is empty. -/
structure Paths where
  length : File → Nat

def pathMax : Nat := 4096

/-- `"%s.tmp.%ld"` -/
def temporaryLength (paths : Paths) (file : File) (pid : Nat) : Nat :=
  paths.length file + 5 + (toString pid).length

/-! ## Reading -/

/-- The loop that reads as many bytes as the file is said to have. -/
def readLoop (descriptor : Descriptor) (expected : Nat) (bytes : Bytes) : Task (Option Bytes) :=
  if bytes.length < expected then
    .call (.read descriptor bytes.length (expected - bytes.length)) fun
      | some ⟨byte :: more, _⟩ => readLoop descriptor expected (bytes ++ byte :: more)
      | _ => .done none
  else .done (some bytes)
termination_by expected - bytes.length
decreasing_by
  rw [List.length_append, List.length_cons]
  omega

/-- The size of a file that may be read. -/
def Status.ownedSize (capacity : Nat) : Option Status → Option Nat
  | none => none
  | some status =>
      if status.regular ∧ status.owned ∧ status.restricted ∧ 0 ≤ status.size ∧
          status.size ≤ capacity then some status.size.toNat
      else none

/-- `read_owned_file` -/
def readOwnedFile (file : File) (capacity : Nat) : Task (Except WorkspaceResult Bytes) := do
  let opened : Opened ← request (Call.openManaged file)
  match opened with
  | .absent => pure (.error .notInitialized)
  | .failed => pure (.error .ioError)
  | .inode inode =>
      match Status.ownedSize capacity (← request (Call.fstat (.inode inode))) with
      | none =>
          let _ ← request (Call.close (.inode inode))
          pure (.error .unsafeDirectory)
      | some expected =>
          match ← readLoop (.inode inode) expected [] with
          | none =>
              let _ ← request (Call.close (.inode inode))
              pure (.error .ioError)
          | some bytes =>
              let trailing : Option (Chunk 1) ← request (Call.read (.inode inode) expected 1)
              let closed : Bool ← request (Call.close (.inode inode))
              if closed = true ∧ trailing.map Subtype.val = some [] then pure (.ok bytes)
              else pure (.error .ioError)

/-- The size of a source image that may be read. -/
def Status.sourceSize (capacity : Nat) : Option Status → Option Nat
  | none => none
  | some status =>
      if status.regular ∧ 0 < status.size ∧ status.size ≤ capacity then some status.size.toNat
      else none

/-- `read_source_image` -/
def readSourceImage (capacity : Nat) : Task (Except WorkspaceResult Bytes) := do
  let opened : Bool ← request Call.openSource
  if opened = false then pure (.error .invalidImage)
  else
    match Status.sourceSize capacity (← request (Call.fstat .source)) with
    | none =>
        let _ ← request (Call.close .source)
        pure (.error .invalidImage)
    | some expected =>
        match ← readLoop .source expected [] with
        | none =>
            let _ ← request (Call.close .source)
            pure (.error .ioError)
        | some bytes =>
            let closed : Bool ← request (Call.close .source)
            if closed = true then pure (.ok bytes) else pure (.error .ioError)

/-! ## Writing -/

/-- The loop that writes what is left at an offset. -/
def writeLoop (inode : Nat) (offset : Nat) (bytes : Bytes) : Task Bool :=
  if bytes = [] then .done true
  else
    .call (.write inode offset bytes) fun
      | some ⟨count + 1, _⟩ => writeLoop inode (offset + (count + 1)) (bytes.drop (count + 1))
      | _ => .done false
termination_by bytes.length
decreasing_by
  rw [List.length_drop]
  omega

/-- Durable and closed; a file that could not be synchronized is not closed. -/
def syncAndClose (inode : Nat) : Task Bool := do
  let synced : Bool ← request (Call.fsync inode)
  if synced = true then request (Call.close (.inode inode)) else pure false

/-- `write_new_file` -/
def writeNewFile (paths : Paths) (pid : Nat) (file : File) (bytes : Bytes) :
    Task (Except WorkspaceResult Unit) :=
  if pathMax ≤ temporaryLength paths file pid then pure (.error .pathTooLong)
  else do
    let created : Option Nat ← request (Call.create file pid)
    match created with
    | none => pure (.error .ioError)
    | some inode =>
        let written ← writeLoop inode 0 bytes
        if written = false then
          let _ ← request (Call.close (.inode inode))
          let _ ← request (Call.unlink file pid)
          pure (.error .ioError)
        else
          let closed ← syncAndClose inode
          if closed = false then
            let _ ← request (Call.unlink file pid)
            pure (.error .ioError)
          else
            let linked : Linked ← request (Call.link file pid)
            match linked with
            | .done =>
                let removed : Bool ← request (Call.unlink file pid)
                if removed = true then pure (.ok ()) else pure (.error .ioError)
            | .exists =>
                let _ ← request (Call.unlink file pid)
                pure (.error .incompatible)
            | .failed =>
                let _ ← request (Call.unlink file pid)
                pure (.error .ioError)

/-- `sync_workspace` -/
def syncWorkspace : Task (Except WorkspaceResult Unit) := do
  let synced : Bool ← request Call.syncDirectory
  if synced = true then pure (.ok ()) else pure (.error .ioError)

/-- `require_empty_state` -/
def requireEmptyState : Task (Except WorkspaceResult Unit) := do
  let scanned : Scanned ← request Call.scanState
  match scanned with
  | .empty => pure (.ok ())
  | .occupied => pure (.error .incompatible)
  | .failed => pure (.error .ioError)

/-! ## Bindings -/

/-- `validate_image_bytes` -/
def validateImageBytes (image : Bytes) : Except WorkspaceResult UInt64 :=
  match Image.imageValidate image with
  | .error _ => .error .invalidImage
  | .ok _ =>
      if Journal.imageFingerprint image = 0 then .error .invalidImage
      else .ok (Journal.imageFingerprint image)

/-- `hermas_workspace_load` -/
def load (paths : Paths) : Attempt Binding := do
  require (paths.length .manifest ≠ 0 ∧ paths.length .image ≠ 0) WorkspaceResult.invalidArgument
  let manifest ← ExceptT.mk (readOwnedFile .manifest manifestSize)
  let binding ← decodeManifest manifest
  let image ← ExceptT.mk (readOwnedFile .image Image.maxSize)
  let fingerprint ← validateImageBytes image
  require (image.length = binding.imageSize.toNat ∧ fingerprint = binding.imageFingerprint)
    WorkspaceResult.incompatible
  pure binding

/-- `load_bound_image`: the image is read once more. -/
def loadBoundImage (paths : Paths) : Attempt Bytes := do
  let binding ← load paths
  let image ← ExceptT.mk (readOwnedFile .image Image.maxSize)
  let fingerprint ← validateImageBytes image
  require (image.length = binding.imageSize.toNat ∧ fingerprint = binding.imageFingerprint)
    WorkspaceResult.incompatible
  pure image

/-- What an image answers about one of its actions. -/
def contractIn {α : Type} (found : Except Image.ImageResult α) : Except WorkspaceResult α :=
  match found with
  | .ok contract => .ok contract
  | .error .actionNotFound => .error .actionNotFound
  | .error _ => .error .invalidImage

/-- `hermas_workspace_find_action_contract` -/
def findActionContract (paths : Paths) (fingerprint : Bytes) : Attempt Image.ResolvedContract := do
  let image ← loadBoundImage paths
  contractIn (Image.findActionContract image fingerprint)

/-- The image is there already with these bytes, or it is written. -/
def publishImage (paths : Paths) (pid : Nat) (source : Bytes) : Attempt Unit := do
  match ← ExceptT.lift (readOwnedFile .image Image.maxSize) with
  | .ok orphan => require (orphan = source) WorkspaceResult.incompatible
  | .error .notInitialized => ExceptT.mk (writeNewFile paths pid .image source)
  | .error reason => throw reason

/-- A workspace that was not bound is. -/
def bindNew (paths : Paths) (pid : Nat) (source : Bytes) (wanted : Binding) : Attempt Binding := do
  let found : Found ← ExceptT.lift (request (Call.lstat .manifest))
  require (found ≠ .present) WorkspaceResult.incompatible
  require (found = .absent) WorkspaceResult.ioError
  ExceptT.mk requireEmptyState
  publishImage paths pid source
  ExceptT.mk (writeNewFile paths pid .manifest (encodeManifest wanted))
  ExceptT.mk syncWorkspace
  pure wanted

/-- A workspace that was bound is compared. -/
def bindAgain (source : Bytes) (wanted existing : Binding) : Attempt Binding := do
  let managed ← ExceptT.lift (readOwnedFile .image Image.maxSize)
  require (managed = .ok source ∧ existing.workflowId = wanted.workflowId)
    WorkspaceResult.incompatible
  pure existing

/-- What is loaded decides how it goes on. -/
def bindLoaded (paths : Paths) (pid : Nat) (source : Bytes) (wanted : Binding) :
    Except WorkspaceResult Binding → Attempt Binding
  | .ok existing => bindAgain source wanted existing
  | .error .notInitialized => bindNew paths pid source wanted
  | .error reason => throw reason

/-- `hermas_workspace_bind_checked`; without an acceptor it is `hermas_workspace_bind`. -/
def bindChecked (paths : Paths) (pid : Nat) (workflowId : UInt32)
    (acceptor : Option (Bytes → Bool)) : Attempt Binding := do
  require (workflowId ≠ 0) WorkspaceResult.invalidArgument
  let source ← ExceptT.mk (readSourceImage Image.maxSize)
  require (∀ accepts ∈ acceptor, accepts source = true) WorkspaceResult.incompatible
  let fingerprint ← validateImageBytes source
  let wanted : Binding := {
    workflowId
    imageFingerprint := fingerprint
    imageSize := UInt64.ofNat source.length }
  let existing ← ExceptT.lift (load paths).run
  bindLoaded paths pid source wanted existing

/-! ## Requests -/

/-- What a process may be asked for. -/
inductive Request where
  | bind (workflowId : UInt32) (acceptor : Option (Bytes → Bool))
  | load
  | contract (fingerprint : Bytes)

/-- What a request comes to. -/
inductive Outcome where
  | binding (binding : Binding)
  | contract (contract : Image.ResolvedContract)
  deriving DecidableEq, Repr

/-- The program of a request. -/
def Request.task (paths : Paths) (pid : Nat) : Request → Task (Except WorkspaceResult Outcome)
  | .bind workflowId acceptor =>
      (Outcome.binding <$> bindChecked paths pid workflowId acceptor).run
  | .load => (Outcome.binding <$> Workspace.load paths).run
  | .contract fingerprint => (Outcome.contract <$> findActionContract paths fingerprint).run

/-- Processes on one workspace, which has no file at the start. What happens to the state directory
is not up to them. -/
def rules (paths : Paths) : Commons.Rules Nat Request Answer (Except WorkspaceResult Outcome) Files where
  Init files := ∀ name, files.entries name = none
  code := Request.task paths
  acts := acts
  outside files files' := ∃ occupied, files' = { files with occupied }

end Hermas.Workspace
