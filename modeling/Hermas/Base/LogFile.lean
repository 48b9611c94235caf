import Hermas.Base.Framed
import Hermas.Base.Program

/-!
# Logs in files

One process at a time appends to a log, the one that has the lock of the file. It scans what is
there and goes on behind it: a record is numbered, written by as many calls as it takes, made
durable, and only then acted on. Anybody may inspect the file at any moment, without the lock.

Calls may fail, writes may be short and processes may be killed at any call. When the machine
stops, what was made durable is still there afterwards; behind it anything may be. Everything holds
as long as no process has gone on after a failed write: what such a write left behind stands
between the records then.
-/

namespace Hermas.LogFile

open Program (request)

variable {ι ρ σ ε : Type}

/-- A log of records. What is appended is numbered first; a file that is scanned is one that was
written. -/
structure Format (ι ρ σ ε : Type) extends Framed ρ ε where
  number : ρ → UInt64
  stamp : UInt64 → ι → Except ε ρ
  checkSize : Nat → Except ε Unit
  scan : Bytes → Except ε σ
  next : σ → UInt64
  writeError : ε
  badFile : ε
  badNumber : ε
  stamp_ok : ∀ {n entry record}, stamp n entry = .ok record →
    Valid record ∧ number record = n ∧ n ≠ uint64Max
  scan_ok : ∀ {bytes summary}, checkSize bytes.length = .ok () → scan bytes = .ok summary →
    ∃ records, toFramed.Written number bytes (next summary) records

/-- A writer numbers a record and encodes it, and stops before the last number there is. -/
def stampWith (invalid : ε) (encode : ρ → Except ε Bytes) (renumber : UInt64 → ι → ρ)
    (sequence : UInt64) (entry : ι) : Except ε ρ :=
  if sequence = 0 ∨ sequence = uint64Max then .error invalid
  else (encode (renumber sequence entry)).map fun _ => renumber sequence entry

theorem stampWith_ok {invalid : ε} {encode : ρ → Except ε Bytes} {renumber : UInt64 → ι → ρ}
    {sequence : UInt64} {entry : ι} {stamped : ρ} :
    stampWith invalid encode renumber sequence entry = .ok stamped ↔
      ¬ (sequence = 0 ∨ sequence = uint64Max) ∧ stamped = renumber sequence entry ∧
        ∃ encoded, encode (renumber sequence entry) = .ok encoded := by
  unfold stampWith
  by_cases hends : sequence = 0 ∨ sequence = uint64Max
  · rw [if_pos hends]
    exact iff_of_false (fun h => by cases h) fun h => h.1 hends
  · rw [if_neg hends]
    cases encode (renumber sequence entry) with
    | error reason =>
        refine iff_of_false (fun h => by cases h) fun h => ?_
        obtain ⟨-, -, encoded, hencode⟩ := h
        cases hencode
    | ok encoded =>
        constructor
        · intro h
          cases h
          exact ⟨hends, rfl, encoded, rfl⟩
        · rintro ⟨-, rfl, -⟩
          rfl

/-! ## The file -/

/-- The file, how much of it is durable, which process has its lock, and beside it the records that
were acted on and whether a process went on after a failed write. -/
structure Disk (ρ : Type) where
  bytes : Bytes := []
  synced : Nat := 0
  lock : Option Nat := none
  acted : List ρ := []
  spoiled : Bool := false

/-- What `fstat` tells. -/
structure Status where
  regular : Bool
  owned : Bool
  restricted : Bool
  size : Nat
  deriving DecidableEq, Repr

/-- A regular file of the effective user, without permissions for anyone else. -/
def Status.safe : Option Status → Bool
  | none => false
  | some status => status.regular && status.owned && status.restricted

/-- The calls of a program on a log. To unlock is also to close; `act` is no call but what the
process does once a record is durable, and `goOn` stands where it goes on without. -/
inductive Call (ρ : Type) where
  | openFile
  | lock (pid : Nat)
  | fstat
  | map (count : Nat)
  | write (bytes : Bytes)
  | sync
  | close
  | unlock (pid : Nat)
  | act (record : ρ)
  | goOn

/-- What a call gives back; `none` and `false` are a failure. -/
@[reducible] def Answer : Call ρ → Type
  | .openFile => Bool
  | .lock _ => Bool
  | .fstat => Option Status
  | .map _ => Option Bytes
  | .write bytes => Option { count : Nat // count ≤ bytes.length }
  | .sync => Bool
  | .close => Unit
  | .unlock _ => Unit
  | .act _ => Unit
  | .goOn => Unit

namespace Disk

variable (disk : Disk ρ)

/-- The lock goes with the process that has it. -/
def unlock (pid : Nat) : Disk ρ :=
  if disk.lock = some pid then { disk with lock := none } else disk

def extend (more : Bytes) : Disk ρ := { disk with bytes := disk.bytes ++ more }

def settle : Disk ρ := { disk with synced := disk.bytes.length }

def act (record : ρ) : Disk ρ := { disk with acted := disk.acted ++ [record] }

/-- What was durable is left, and behind it anything may be. -/
def Crashes (disk disk' : Disk ρ) : Prop :=
  disk.bytes.take disk.synced <+: disk'.bytes ∧
    disk' = { disk with bytes := disk'.bytes, lock := none }

end Disk

/-- What the kernel may do at a call. The lock is only given when nobody has it, and a mapping shows
the file as it is then; nobody changes what was there before. -/
def acts : (c : Call ρ) → Disk ρ → Answer c → Disk ρ → Prop
  | .openFile, disk, _, disk' => disk' = disk
  | .lock pid, disk, locked, disk' =>
      (locked = false ∧ disk' = disk) ∨
        (locked = true ∧ disk.lock = none ∧ disk' = { disk with lock := some pid })
  | .fstat, disk, status, disk' =>
      disk' = disk ∧ ∀ known ∈ status, known.size = disk.bytes.length
  | .map count, disk, mapping, disk' =>
      disk' = disk ∧ ∀ bytes ∈ mapping, bytes = disk.bytes.take count
  | .write bytes, disk, none, disk' => disk' = disk
  | .write bytes, disk, some count, disk' => disk' = disk.extend (bytes.take count)
  | .sync, disk, synced, disk' =>
      (synced = false ∧ disk' = disk) ∨ (synced = true ∧ disk' = disk.settle)
  | .close, disk, _, disk' => disk' = disk
  | .unlock pid, disk, _, disk' => disk' = disk.unlock pid
  | .act record, disk, _, disk' => disk' = disk.act record
  | .goOn, disk, _, disk' => disk' = { disk with spoiled := true }

/-! ## Programs -/

/-- A program on a log. -/
abbrev Task (ρ α : Type) := Program (@Answer ρ) α

/-- What a process does with a log it has opened: it appends, and may have to go on when that fails,
or it looks at all that is there. -/
inductive Op (ι : Type) where
  | append (entry : ι) (goesOn : Bool)
  | look

inductive Report (ρ ε : Type) where
  | appended (record : ρ)
  | refused (reason : ε)
  | looked (result : Except ε Bytes)

/-- What a process may be asked for. With it stand some records that were acted on before. -/
inductive Request (ι ρ : Type) where
  | session (known : List ρ) (ops : List (Op ι))
  | inspect (known : List ρ)

inductive Outcome (ρ σ ε : Type) where
  | session (summary : σ) (reports : List (Report ρ ε))
  | inspected (summary : σ) (bytes : Bytes)

/-- The loop that writes what is left of a record. -/
def writeLoop (bytes : Bytes) : Task ρ Bool :=
  if bytes = [] then .done true
  else
    .call (.write bytes) fun
      | some ⟨count + 1, _⟩ => writeLoop (bytes.drop (count + 1))
      | _ => .done false
termination_by bytes.length
decreasing_by
  rw [List.length_drop]
  have := List.length_pos_iff.mpr ‹_›
  omega

def writeSynchronized (bytes : Bytes) : Task ρ Bool := do
  let written ← writeLoop bytes
  if written = true then request Call.sync else pure false

namespace Format

variable (format : Format ι ρ σ ε)

/-- All that is in the file, as long as it was when the call was made. -/
def snapshot : Task ρ (Except ε Bytes) := do
  let status : Option Status ← request Call.fstat
  match status with
  | none => pure (.error format.badFile)
  | some status =>
      match format.checkSize status.size with
      | .error reason => pure (.error reason)
      | .ok () =>
          if status.size = 0 then pure (.ok [])
          else
            let mapping : Option Bytes ← request (Call.map status.size)
            match mapping with
            | none => pure (.error format.writeError)
            | some bytes => pure (.ok bytes)

def openLog (pid : Nat) : Task ρ (Except ε σ) := do
  let opened : Bool ← request Call.openFile
  if opened = false then pure (.error format.writeError)
  else
    let locked : Bool ← request (Call.lock pid)
    if locked = false then
      let _ ← request Call.close
      pure (.error format.writeError)
    else
      let status : Option Status ← request Call.fstat
      if Status.safe status = true then
        match (← format.snapshot).bind format.scan with
        | .error reason =>
            let _ ← request (Call.unlock pid)
            pure (.error reason)
        | .ok summary =>
            if format.next summary = 0 then
              let _ ← request (Call.unlock pid)
              pure (.error format.badNumber)
            else pure (.ok summary)
      else
        let _ ← request (Call.unlock pid)
        pure (.error format.badFile)

/-- What a process does with its log, one after the other. A record that was refused has no number,
and a process that does not go on ends there. -/
def operate (next : UInt64) : List (Op ι) → Task ρ (List (Report ρ ε))
  | [] => pure []
  | .append entry goesOn :: ops =>
      match format.stamp next entry with
      | .error reason =>
          if goesOn = true then (Report.refused reason :: ·) <$> operate next ops
          else pure [.refused reason]
      | .ok record => do
          let written ← writeSynchronized (format.encode record)
          if written = true then
            let _ ← request (Call.act record)
            (Report.appended record :: ·) <$> operate (next + 1) ops
          else if goesOn = true then
            let _ ← request Call.goOn
            (Report.refused format.writeError :: ·) <$> operate next ops
          else pure [.refused format.writeError]
  | .look :: ops => do
      let result ← format.snapshot
      (Report.looked result :: ·) <$> operate next ops

def session (pid : Nat) (ops : List (Op ι)) : Task ρ (Except ε (Outcome ρ σ ε)) := do
  match ← format.openLog pid with
  | .error reason => pure (.error reason)
  | .ok summary =>
      let reports ← format.operate (format.next summary) ops
      let _ ← request (Call.unlock pid)
      pure (.ok (.session summary reports))

def inspect : Task ρ (Except ε (Outcome ρ σ ε)) := do
  let opened : Bool ← request Call.openFile
  if opened = false then pure (.error format.writeError)
  else
    let status : Option Status ← request Call.fstat
    if Status.safe status = true then
      let result ← format.snapshot
      let _ ← request Call.close
      pure (result.bind fun bytes => (format.scan bytes).map (Outcome.inspected · bytes))
    else
      let _ ← request Call.close
      pure (.error format.badFile)

/-- The program of a request. -/
def task (pid : Nat) : Request ι ρ → Task ρ (Except ε (Outcome ρ σ ε))
  | .session _ ops => format.session pid ops
  | .inspect _ => format.inspect

/-- Processes on one log. Whatever is in the file at the start, nothing was acted on. -/
def rules : Commons.Rules Nat (Request ι ρ) (@Answer ρ) (Except ε (Outcome ρ σ ε)) (Disk ρ) where
  Init disk := disk.acted = [] ∧ disk.lock = none ∧ disk.spoiled = false ∧
    disk.synced ≤ disk.bytes.length
  code := format.task
  acts := acts
  admits
    | .session known _, disk => ∀ record ∈ known, record ∈ disk.acted
    | .inspect known, disk => ∀ record ∈ known, record ∈ disk.acted
  reap pid disk := disk.unlock pid
  crash := Disk.Crashes

end Format

end Hermas.LogFile
