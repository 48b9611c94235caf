import Hermas.Base.Program
import Hermas.Workspace.Manifest

/-!
# The files of a workspace

The two managed files of a workspace are published by linking a finished temporary file to
their name; the temporary has the number of the process in its own. Names lead to inodes,
so that a temporary and the file that it was linked to are one. `acts` is what the kernel
may do at a call: every call may fail, reads and writes may be short, and an answer that is no
failure is the truth about the files. Of the source image, a file somewhere else, nothing is
known. The directories themselves and their permissions are taken as `hermas_workspace_open`
has checked them: nobody else puts files there.
-/

namespace Hermas.Workspace

/-- The managed files. -/
inductive File where
  | image | manifest
  deriving DecidableEq, Repr

inductive Name where
  | managed (file : File)
  | temporary (file : File) (pid : Nat)
  deriving DecidableEq, Repr

/-- The files of a workspace; `occupied` when its state directory has an entry. -/
structure Files where
  entries : Name → Option Nat
  contents : Nat → Bytes
  next : Nat
  occupied : Bool

/-- What is published as a file. -/
def Files.holds (files : Files) (file : File) : Option Bytes :=
  (files.entries (.managed file)).map files.contents

/-- An open file: one of the workspace, or the source image. -/
inductive Descriptor where
  | inode (inode : Nat)
  | source
  deriving DecidableEq, Repr

/-- What `fstat` tells: a regular file, of the effective user, without permissions for anyone
else, of so many bytes. -/
structure Status where
  regular : Bool
  owned : Bool
  restricted : Bool
  size : Int
  deriving DecidableEq, Repr

inductive Opened where
  | inode (inode : Nat) | absent | failed
  deriving DecidableEq, Repr

inductive Found where
  | present | absent | failed
  deriving DecidableEq, Repr

inductive Scanned where
  | empty | occupied | failed
  deriving DecidableEq, Repr

inductive Linked where
  | done | exists | failed
  deriving DecidableEq, Repr

/-- The calls of a program on a workspace. The scan of the state directory is one call, and so is
the synchronization of the workspace directory. -/
inductive Call where
  | openSource
  | openManaged (file : File)
  | fstat (descriptor : Descriptor)
  | read (descriptor : Descriptor) (offset count : Nat)
  | close (descriptor : Descriptor)
  | lstat (file : File)
  | scanState
  | create (file : File) (pid : Nat)
  | write (inode : Nat) (offset : Nat) (bytes : Bytes)
  | fsync (inode : Nat)
  | link (file : File) (pid : Nat)
  | unlink (file : File) (pid : Nat)
  | syncDirectory

/-- What one read gives of the bytes that were asked for. -/
abbrev Chunk (count : Nat) := { bytes : Bytes // bytes.length ≤ count }

/-- What a call gives back; `none` and `false` are a failure. -/
@[reducible] def Answer : Call → Type
  | .openSource => Bool
  | .openManaged _ => Opened
  | .fstat _ => Option Status
  | .read _ _ count => Option (Chunk count)
  | .close _ => Bool
  | .lstat _ => Found
  | .scanState => Scanned
  | .create _ _ => Option Nat
  | .write _ _ bytes => Option { count : Nat // count ≤ bytes.length }
  | .fsync _ => Bool
  | .link _ _ => Linked
  | .unlink _ _ => Bool
  | .syncDirectory => Bool

/-- What a file holds when some bytes were written into it. -/
def overwrite (old : Bytes) (offset : Nat) (bytes : Bytes) : Bytes :=
  old.take offset ++ List.replicate (offset - old.length) 0 ++ bytes ++
    old.drop (offset + bytes.length)

@[simp] theorem overwrite_end (old bytes : Bytes) :
    overwrite old old.length bytes = old ++ bytes := by
  simp [overwrite]

namespace Files

variable (files : Files)

def enter (name : Name) (entry : Option Nat) : Files :=
  { files with entries := Function.update files.entries name entry }

/-- A new and empty file under a name. -/
def create (name : Name) : Files :=
  { files with
    entries := Function.update files.entries name (some files.next)
    contents := Function.update files.contents files.next []
    next := files.next + 1 }

def write (inode : Nat) (offset : Nat) (bytes : Bytes) : Files :=
  { files with
    contents := Function.update files.contents inode
      (overwrite (files.contents inode) offset bytes) }

section Entries

variable {files} {name other : Name}

@[simp] theorem enter_self (entry : Option Nat) : (files.enter name entry).entries name = entry :=
  Function.update_self ..

theorem enter_ne (h : other ≠ name) (entry : Option Nat) :
    (files.enter name entry).entries other = files.entries other := Function.update_of_ne h ..

@[simp] theorem create_self : (files.create name).entries name = some files.next :=
  Function.update_self ..

theorem create_ne (h : other ≠ name) : (files.create name).entries other = files.entries other :=
  Function.update_of_ne h ..

end Entries

@[simp] theorem managed_ne_temporary (file file' : File) (pid : Nat) :
    Name.managed file ≠ .temporary file' pid := nofun

theorem temporary_ne_managed (file file' : File) (pid : Nat) :
    Name.temporary file' pid ≠ .managed file := nofun

end Files

/-- What a call may do. -/
def acts : Program.Acts Answer Files
  | .openSource, files, _, files' => files' = files
  | .openManaged file, files, opened, files' => files' = files ∧
      (opened = .failed ∨
        (opened = .absent ∧ files.entries (.managed file) = none) ∨
        ∃ inode, opened = .inode inode ∧ files.entries (.managed file) = some inode)
  | .fstat .source, files, _, files' => files' = files
  | .fstat (.inode inode), files, status, files' => files' = files ∧
      (status = none ∨ status = some ⟨true, true, true, (files.contents inode).length⟩)
  | .read .source _ _, files, _, files' => files' = files
  | .read (.inode inode) offset count, files, answer, files' => files' = files ∧
      -- nothing is read only where nothing was asked for, or at the end of the file
      ∀ bytes, answer = some bytes → bytes.1 <+: (files.contents inode).drop offset ∧
        (bytes.1 = [] → count = 0 ∨ (files.contents inode).length ≤ offset)
  | .close _, files, _, files' => files' = files
  | .lstat file, files, found, files' => files' = files ∧
      (found = .failed ∨
        (found = .absent ∧ files.entries (.managed file) = none) ∨
        (found = .present ∧ files.entries (.managed file) ≠ none))
  | .scanState, files, scanned, files' => files' = files ∧
      (scanned = .failed ∨ scanned = if files.occupied then .occupied else .empty)
  | .create file pid, files, created, files' =>
      (created = none ∧ files' = files) ∨
        (created = some files.next ∧ files.entries (.temporary file pid) = none ∧
          files' = files.create (.temporary file pid))
  | .write inode offset bytes, files, answer, files' =>
      (answer = none ∧ files' = files) ∨
        ∃ count, answer = some count ∧ files' = files.write inode offset (bytes.take count.1)
  | .fsync _, files, _, files' => files' = files
  | .link file pid, files, linked, files' =>
      (linked = .failed ∧ files' = files) ∨
        (linked = .exists ∧ files.entries (.managed file) ≠ none ∧ files' = files) ∨
        ∃ inode, linked = .done ∧ files.entries (.managed file) = none ∧
          files.entries (.temporary file pid) = some inode ∧
          files' = files.enter (.managed file) (some inode)
  | .unlink file pid, files, removed, files' =>
      (removed = false ∧ files' = files) ∨
        (removed = true ∧ files.entries (.temporary file pid) ≠ none ∧
          files' = files.enter (.temporary file pid) none)
  | .syncDirectory, files, _, files' => files' = files

end Hermas.Workspace
