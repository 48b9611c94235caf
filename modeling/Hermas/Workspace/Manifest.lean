import Hermas.Base.Bytes
import Hermas.Image.Format
import Mathlib.Tactic.SplitIfs

/-!
# The workspace manifest

`manifest.hwm` pins a workspace to a workflow and to the bytes of one graph image, under
the versions of every format that its state is kept in. It is one record of 64 bytes
without a checksum: all that is not a field of the binding is fixed, so that there is one
manifest for a binding and nothing else is accepted.
-/

namespace Hermas.Workspace

/-- `hermas_workspace_result`, without the one that is no error. -/
inductive WorkspaceResult where
  | invalidArgument | pathTooLong | unsafeDirectory | notInitialized | invalidManifest
  | incompatible | invalidImage | ioError | actionNotFound
  deriving DecidableEq, Repr

/-- `hermas_workspace_binding` -/
structure Binding where
  workflowId : UInt32
  imageFingerprint : UInt64
  imageSize : UInt64
  deriving DecidableEq, Repr

/-- What the manifest demands of a binding. -/
def Binding.Valid (binding : Binding) : Prop :=
  binding.workflowId ≠ 0 ∧ binding.imageFingerprint ≠ 0 ∧ binding.imageSize ≠ 0 ∧
    binding.imageSize.toNat ≤ Image.maxSize

instance (binding : Binding) : Decidable binding.Valid := by
  unfold Binding.Valid
  infer_instance

def manifestSize : Nat := 64

/-- `"HWM1"` -/
def magic : Bytes := [0x48, 0x57, 0x4d, 0x31]

def manifestVersion : UInt16 := 1
def graphImageVersion : UInt16 := 1
def protocolVersion : UInt16 := 1
def journalVersion : UInt16 := 2
def resultVersion : UInt16 := 1
def compensationVersion : UInt16 := 1
def sagaLogVersion : UInt16 := 1

/-- `encode_manifest` -/
def encodeManifest (binding : Binding) : Bytes :=
  magic ++ (Bytes.writeU16 manifestVersion ++ (Bytes.writeU16 (UInt16.ofNat manifestSize) ++
    (Bytes.writeU32 binding.workflowId ++ (Bytes.writeU16 graphImageVersion ++
    (Bytes.writeU16 protocolVersion ++ (Bytes.writeU16 journalVersion ++
    (Bytes.writeU16 resultVersion ++ (Bytes.writeU16 compensationVersion ++
    (Bytes.writeU16 sagaLogVersion ++ (Bytes.writeU64 binding.imageFingerprint ++
    (Bytes.writeU64 binding.imageSize ++ List.replicate 24 0)))))))))))

/-- `all_zero` -/
def allZero (bytes : Bytes) (first last : Nat) : Bool :=
  (bytes.slice first (last - first)).all (· == 0)

/-- `decode_manifest`: a record of the right shape under other versions is told from one that is
no manifest. -/
def decodeManifest (source : Bytes) : Except WorkspaceResult Binding := do
  if source.length ≠ manifestSize ∨ source.take 4 ≠ magic ∨
      source.readU16 6 ≠ UInt16.ofNat manifestSize ∨ source.readU32 8 = 0 ∨
      source.readU64 24 = 0 ∨ source.readU64 32 = 0 ∨
      Image.maxSize < (source.readU64 32).toNat ∨ allZero source 40 manifestSize = false then
    throw .invalidManifest
  if source.readU16 4 ≠ manifestVersion ∨ source.readU16 12 ≠ graphImageVersion ∨
      source.readU16 14 ≠ protocolVersion ∨ source.readU16 16 ≠ journalVersion ∨
      source.readU16 18 ≠ resultVersion ∨ source.readU16 20 ≠ compensationVersion ∨
      source.readU16 22 ≠ sagaLogVersion then
    throw .incompatible
  pure {
    workflowId := source.readU32 8
    imageFingerprint := source.readU64 24
    imageSize := source.readU64 32 }

/-! ## One manifest for a binding -/

@[simp] theorem length_encodeManifest (binding : Binding) :
    (encodeManifest binding).length = manifestSize := by
  simp [encodeManifest, magic, manifestSize]

/-- The fields of a manifest stand where `decodeManifest` looks for them. -/
theorem read_encodeManifest (binding : Binding) :
    (encodeManifest binding).take 4 = magic ∧
    (encodeManifest binding).readU16 4 = manifestVersion ∧
    (encodeManifest binding).readU16 6 = UInt16.ofNat manifestSize ∧
    (encodeManifest binding).readU32 8 = binding.workflowId ∧
    (encodeManifest binding).readU16 12 = graphImageVersion ∧
    (encodeManifest binding).readU16 14 = protocolVersion ∧
    (encodeManifest binding).readU16 16 = journalVersion ∧
    (encodeManifest binding).readU16 18 = resultVersion ∧
    (encodeManifest binding).readU16 20 = compensationVersion ∧
    (encodeManifest binding).readU16 22 = sagaLogVersion ∧
    (encodeManifest binding).readU64 24 = binding.imageFingerprint ∧
    (encodeManifest binding).readU64 32 = binding.imageSize := by
  have hm : magic.length = 4 := rfl
  simp only [encodeManifest]
  refine ⟨rfl, ?_⟩
  simp [Bytes.readU16_skip, Bytes.readU32_skip, Bytes.readU64_skip, Bytes.readU16_here,
    Bytes.readU32_here, Bytes.readU64_here, hm]

/-- The tail of a manifest is zero. -/
theorem allZero_encodeManifest (binding : Binding) :
    allZero (encodeManifest binding) 40 manifestSize = true := by
  have htail : (encodeManifest binding).slice 40 24 = List.replicate 24 0 := by
    have hm : magic.length = 4 := rfl
    simp (disch := simp [hm]) only [encodeManifest, Bytes.slice_append_right]
    simp only [hm, Bytes.length_writeU16, Bytes.length_writeU32, Bytes.length_writeU64]
    exact Bytes.slice_self _ 24 (List.length_replicate ..)
  have hspan : manifestSize - 40 = 24 := rfl
  rw [allZero, hspan, htail]
  rfl

/-- What is all zero is as many zeros. -/
theorem slice_of_allZero {bytes : Bytes} {first last : Nat} (hlast : last ≤ bytes.length)
    (hfirst : first ≤ last) (h : allZero bytes first last = true) :
    bytes.slice first (last - first) = List.replicate (last - first) 0 := by
  have hlen := Bytes.length_slice bytes first (last - first) (by omega)
  rw [List.eq_replicate_iff]
  refine ⟨hlen, fun b hb => ?_⟩
  exact eq_of_beq (List.all_eq_true.mp h b hb)

/-- What `decodeManifest` has checked of the bytes, and where it reads the binding. -/
structure Decoded (source : Bytes) (binding : Binding) : Prop where
  length : source.length = manifestSize
  magic : source.take 4 = magic
  version : source.readU16 4 = manifestVersion
  size : source.readU16 6 = UInt16.ofNat manifestSize
  workflowId : source.readU32 8 = binding.workflowId
  graphImage : source.readU16 12 = graphImageVersion
  protocol : source.readU16 14 = protocolVersion
  journal : source.readU16 16 = journalVersion
  result : source.readU16 18 = resultVersion
  compensation : source.readU16 20 = compensationVersion
  sagaLog : source.readU16 22 = sagaLogVersion
  imageFingerprint : source.readU64 24 = binding.imageFingerprint
  imageSize : source.readU64 32 = binding.imageSize
  reserved : allZero source 40 manifestSize = true
  valid : binding.Valid

theorem decodeManifest_ok {source : Bytes} {binding : Binding}
    (h : decodeManifest source = .ok binding) : Decoded source binding := by
  unfold decodeManifest at h
  simp only [bind, Except.bind, pure, Except.pure, throw, throwThe, MonadExceptOf.throw] at h
  split at h
  · cases h
  · rename_i hshape
    split at h
    · cases h
    · rename_i hversions
      cases h
      simp only [not_or, not_not, not_lt] at hshape hversions
      obtain ⟨hlength, hmagic, hsize, hworkflow, hfingerprint, hempty, hlarge, hzero⟩ := hshape
      obtain ⟨h4, h12, h14, h16, h18, h20, h22⟩ := hversions
      exact {
        length := hlength, magic := hmagic, version := h4, size := hsize, workflowId := rfl
        graphImage := h12, protocol := h14, journal := h16, result := h18, compensation := h20
        sagaLog := h22, imageFingerprint := rfl, imageSize := rfl
        reserved := by simpa using hzero
        valid := ⟨hworkflow, hfingerprint, hempty, hlarge⟩ }

/-- The bytes of a manifest are those of its binding. -/
theorem Decoded.eq {source : Bytes} {binding : Binding} (h : Decoded source binding) :
    source = encodeManifest binding := by
  have hlength : source.length = 64 := h.length
  have hzero := slice_of_allZero (by rw [h.length]) (by decide) h.reserved
  have htail : List.replicate 24 (0 : UInt8) = source.slice 40 24 := hzero.symm
  rw [encodeManifest, ← h.magic, ← h.version, ← h.size, ← h.workflowId, ← h.graphImage,
    ← h.protocol, ← h.journal, ← h.result, ← h.compensation, ← h.sagaLog, ← h.imageFingerprint,
    ← h.imageSize, htail, Bytes.take_eq_slice]
  simp (disch := omega) only [Bytes.writeU16_readU16, Bytes.writeU32_readU32,
    Bytes.writeU64_readU64, Bytes.slice_append_slice]
  exact (Bytes.slice_self source 64 hlength).symm

theorem decodeManifest_encode {binding : Binding} (h : binding.Valid) :
    decodeManifest (encodeManifest binding) = .ok binding := by
  obtain ⟨hworkflow, hfingerprint, hempty, hlarge⟩ := h
  obtain ⟨h0, h4, h6, h8, h12, h14, h16, h18, h20, h22, h24, h32⟩ := read_encodeManifest binding
  have hzero := allZero_encodeManifest binding
  have hlarge := not_lt.mpr hlarge
  unfold decodeManifest
  simp only [h0, h4, h6, h8, h12, h14, h16, h18, h20, h22, h24, h32, hzero, hworkflow,
    hfingerprint, hempty, hlarge]
  rfl

/-- **A manifest is accepted exactly when it is the one of a valid binding**, which is then what
was read. -/
theorem decodeManifest_eq_ok_iff {source : Bytes} {binding : Binding} :
    decodeManifest source = .ok binding ↔
      binding.Valid ∧ source = encodeManifest binding := by
  constructor
  · intro h
    exact ⟨(decodeManifest_ok h).valid, (decodeManifest_ok h).eq⟩
  · rintro ⟨hvalid, rfl⟩
    exact decodeManifest_encode hvalid

end Hermas.Workspace
