import Hermas.Base.Bytes

/-!
# Frames and their packets

The one packet format between the daemon, its apps and its clients: a 48-byte
header and a payload of at most 65488 bytes, one frame per `SOCK_SEQPACKET`
message. The outcome of a delivery travels in it and is what every log records.
-/

namespace Hermas

/-- How a delivery or an execution ended. -/
inductive Outcome where
  | none | success | appError | notSent | unknown | protocolError
  deriving DecidableEq, Repr

namespace Outcome

def code : Outcome → UInt16
  | none => 0 | success => 1 | appError => 2 | notSent => 3 | unknown => 4 | protocolError => 5

def ofCode (c : UInt16) : Option Outcome :=
  if c = 0 then some none
  else if c = 1 then some success
  else if c = 2 then some appError
  else if c = 3 then some notSent
  else if c = 4 then some unknown
  else if c = 5 then some protocolError
  else Option.none

@[simp] theorem ofCode_code (o : Outcome) : ofCode o.code = some o := by cases o <;> rfl

theorem code_of_ofCode {c : UInt16} {o : Outcome} (h : ofCode c = some o) : o.code = c := by
  unfold ofCode at h
  split_ifs at h <;> cases h <;> simp_all [code]

/-- The order in which facts of one execution outrank each other. -/
def precedence : Outcome → Nat
  | unknown => 4 | appError => 3 | notSent => 2 | success => 1 | _ => 0

/-- An outcome that cuts an execution off. -/
def IsFailure (o : Outcome) : Prop := o = appError ∨ o = notSent ∨ o = unknown

instance (o : Outcome) : Decidable o.IsFailure := inferInstanceAs (Decidable (_ ∨ _))

end Outcome

inductive FrameKind where
  | registerApp | registerOk | invoke | result | protocolError | execute | executionResult
  deriving DecidableEq, Repr

namespace FrameKind

def code : FrameKind → UInt16
  | registerApp => 1 | registerOk => 2 | invoke => 3 | result => 4 | protocolError => 5
  | execute => 6 | executionResult => 7

/-- `known_kind` and the conversion in one. -/
def ofCode (c : UInt16) : Option FrameKind :=
  if c = 1 then some registerApp
  else if c = 2 then some registerOk
  else if c = 3 then some invoke
  else if c = 4 then some result
  else if c = 5 then some protocolError
  else if c = 6 then some execute
  else if c = 7 then some executionResult
  else none

@[simp] theorem ofCode_code (k : FrameKind) : ofCode k.code = some k := by cases k <;> rfl

theorem code_of_ofCode {c : UInt16} {k : FrameKind} (h : ofCode c = some k) : k.code = c := by
  unfold ofCode at h
  split_ifs at h <;> cases h <;> simp_all [code]

end FrameKind

structure Frame where
  kind : FrameKind
  executionId : UInt64 := 0
  requestId : UInt64 := 0
  appId : UInt16 := 0
  actionId : UInt16 := 0
  sourceType : UInt16 := 0
  destinationType : UInt16 := 0
  outcome : Outcome := .none
  payload : Bytes := []
  deriving DecidableEq, Repr

inductive ProtocolResult where
  | ok | bufferTooSmall | frameTooLarge | truncated | badMagic | unsupportedVersion
  | invalidKind | invalidFlags | nonzeroReserved | lengthMismatch | invalidIdentifier
  | invalidOutcome | invalidPayload
  deriving DecidableEq, Repr

namespace Protocol

def headerSize : Nat := 48
def maxPacketSize : Nat := 65536
def maxPayloadSize : Nat := maxPacketSize - headerSize

/-- `"HRP1"` -/
def magic : Bytes := [0x48, 0x52, 0x50, 0x31]

/-- What each kind of frame must and must not carry. -/
def validateSemantics (frame : Frame) : ProtocolResult :=
  let noExecutionIds := frame.executionId = 0 ∧ frame.requestId = 0 ∧ frame.sourceType = 0 ∧
    frame.destinationType = 0
  let routed := frame.executionId ≠ 0 ∧ frame.requestId ≠ 0
  match frame.kind with
  | .registerApp =>
      if noExecutionIds ∧ frame.appId ≠ 0 ∧ frame.actionId ≠ 0 ∧ frame.outcome = .none ∧
          frame.payload.length = 32 then .ok else .invalidPayload
  | .registerOk =>
      if noExecutionIds ∧ frame.appId ≠ 0 ∧ frame.actionId ≠ 0 ∧ frame.outcome = .none ∧
          frame.payload.length = 0 then .ok else .invalidIdentifier
  | .invoke =>
      if routed ∧ frame.appId ≠ 0 ∧ frame.actionId ≠ 0 ∧ frame.sourceType ≠ 0 ∧
          frame.destinationType ≠ 0 ∧ frame.outcome = .none then .ok else .invalidIdentifier
  | .result =>
      if routed ∧ frame.appId ≠ 0 ∧ frame.actionId ≠ 0 ∧ frame.sourceType ≠ 0 ∧
          frame.destinationType ≠ 0 ∧ (frame.outcome = .success ∨ frame.outcome = .appError)
        then .ok else .invalidOutcome
  | .protocolError =>
      if frame.outcome = .protocolError ∧ frame.payload.length = 0 then .ok else .invalidOutcome
  | .execute =>
      if frame.executionId ≠ 0 ∧ frame.requestId = 0 ∧ frame.appId = 0 ∧ frame.actionId = 0 ∧
          frame.sourceType ≠ 0 ∧ frame.destinationType = 0 ∧ frame.outcome = .none
        then .ok else .invalidIdentifier
  | .executionResult =>
      if frame.executionId ≠ 0 ∧ frame.requestId = 0 ∧ frame.appId = 0 ∧ frame.actionId = 0 ∧
          (((frame.outcome = .success ∨ frame.outcome = .appError) ∧ frame.sourceType ≠ 0 ∧
              frame.destinationType ≠ 0) ∨
            ((frame.outcome = .notSent ∨ frame.outcome = .unknown) ∧ frame.sourceType = 0 ∧
              frame.destinationType = 0 ∧ frame.payload.length = 0))
        then .ok else .invalidOutcome

/-- The packet of a frame, written into a buffer of the given capacity. -/
def encode (frame : Frame) (capacity : Nat) : Except ProtocolResult Bytes :=
  if maxPayloadSize < frame.payload.length then .error .frameTooLarge
  else match validateSemantics frame with
    | .ok =>
        if capacity < headerSize + frame.payload.length then .error .bufferTooSmall
        else .ok (magic ++ Bytes.writeU16 1 ++ Bytes.writeU16 frame.kind.code ++
          Bytes.writeU32 0 ++ Bytes.writeU32 (UInt32.ofNat headerSize) ++
          Bytes.writeU64 frame.executionId ++ Bytes.writeU64 frame.requestId ++
          Bytes.writeU16 frame.appId ++ Bytes.writeU16 frame.actionId ++
          Bytes.writeU16 frame.sourceType ++ Bytes.writeU16 frame.destinationType ++
          Bytes.writeU16 frame.outcome.code ++ Bytes.writeU16 0 ++
          Bytes.writeU32 (UInt32.ofNat frame.payload.length) ++ frame.payload)
    | semantic => .error semantic

/-- The frame of a received packet. -/
def decode (packet : Bytes) : Except ProtocolResult Frame := do
  if packet.length < headerSize then throw .truncated
  if maxPacketSize < packet.length then throw .frameTooLarge
  if packet.take 4 ≠ magic then throw .badMagic
  if packet.readU16 4 ≠ 1 then throw .unsupportedVersion
  let some kind := FrameKind.ofCode (packet.readU16 6) | throw .invalidKind
  if packet.readU32 8 ≠ 0 then throw .invalidFlags
  if packet.readU32 12 ≠ UInt32.ofNat headerSize ∨ packet.readU16 42 ≠ 0 then
    throw .nonzeroReserved
  if (packet.readU32 44).toNat ≠ packet.length - headerSize then throw .lengthMismatch
  let some outcome := Outcome.ofCode (packet.readU16 40) | throw .invalidOutcome
  let decoded : Frame := {
    kind
    executionId := packet.readU64 16
    requestId := packet.readU64 24
    appId := packet.readU16 32
    actionId := packet.readU16 34
    sourceType := packet.readU16 36
    destinationType := packet.readU16 38
    outcome
    payload := packet.drop headerSize }
  match validateSemantics decoded with
  | .ok => pure decoded
  | semantic => throw semantic

/-! ## Nothing is lost -/

/-- The 48 bytes in front of the payload. -/
def header (frame : Frame) : Bytes :=
  magic ++ (Bytes.writeU16 1 ++ (Bytes.writeU16 frame.kind.code ++
    (Bytes.writeU32 0 ++ (Bytes.writeU32 (UInt32.ofNat headerSize) ++
    (Bytes.writeU64 frame.executionId ++ (Bytes.writeU64 frame.requestId ++
    (Bytes.writeU16 frame.appId ++ (Bytes.writeU16 frame.actionId ++
    (Bytes.writeU16 frame.sourceType ++ (Bytes.writeU16 frame.destinationType ++
    (Bytes.writeU16 frame.outcome.code ++ (Bytes.writeU16 0 ++
    Bytes.writeU32 (UInt32.ofNat frame.payload.length)))))))))))))

theorem length_header (frame : Frame) : (header frame).length = headerSize := by
  simp [header, magic, headerSize]

/-- A frame is encoded when it is small enough and sound, and fits the buffer. -/
theorem encode_ok {frame : Frame} {capacity : Nat} {packet : Bytes} :
    encode frame capacity = .ok packet ↔
      frame.payload.length ≤ maxPayloadSize ∧ validateSemantics frame = .ok ∧
        headerSize + frame.payload.length ≤ capacity ∧ packet = header frame ++ frame.payload := by
  unfold encode
  by_cases hlarge : maxPayloadSize < frame.payload.length
  · simp [hlarge]
  rw [if_neg hlarge]
  cases hvalid : validateSemantics frame with
  | ok =>
      by_cases hfits : capacity < headerSize + frame.payload.length
      · simp [hfits]
      · rw [if_neg hfits, Except.ok.injEq, header]
        simp only [List.append_assoc]
        exact ⟨fun h => ⟨not_lt.mp hlarge, trivial, not_lt.mp hfits, h.symm⟩, fun h => h.2.2.2.symm⟩
  | _ => simp

/-- The fields of a packet stand where `decode` looks for them. -/
theorem read_header (frame : Frame) (rest : Bytes) :
    (header frame ++ rest).take 4 = magic ∧
    (header frame ++ rest).readU16 4 = 1 ∧
    (header frame ++ rest).readU16 6 = frame.kind.code ∧
    (header frame ++ rest).readU32 8 = 0 ∧
    (header frame ++ rest).readU32 12 = UInt32.ofNat headerSize ∧
    (header frame ++ rest).readU64 16 = frame.executionId ∧
    (header frame ++ rest).readU64 24 = frame.requestId ∧
    (header frame ++ rest).readU16 32 = frame.appId ∧
    (header frame ++ rest).readU16 34 = frame.actionId ∧
    (header frame ++ rest).readU16 36 = frame.sourceType ∧
    (header frame ++ rest).readU16 38 = frame.destinationType ∧
    (header frame ++ rest).readU16 40 = frame.outcome.code ∧
    (header frame ++ rest).readU16 42 = 0 ∧
    (header frame ++ rest).readU32 44 = UInt32.ofNat frame.payload.length := by
  have hm : magic.length = 4 := rfl
  simp only [header, List.append_assoc]
  refine ⟨rfl, ?_⟩
  simp [Bytes.readU16_skip, Bytes.readU32_skip, Bytes.readU64_skip, Bytes.readU16_here,
    Bytes.readU32_here, Bytes.readU64_here, hm]

/-- What was encoded is decoded. -/
theorem decode_encode {frame : Frame} {capacity : Nat} {packet : Bytes}
    (h : encode frame capacity = .ok packet) : decode packet = .ok frame := by
  obtain ⟨hlarge, hvalid, -, rfl⟩ := encode_ok.mp h
  obtain ⟨h0, h4, h6, h8, h12, h16, h24, h32, h34, h36, h38, h40, h42, h44⟩ :=
    read_header frame frame.payload
  have hlen : (header frame ++ frame.payload).length = headerSize + frame.payload.length := by
    rw [List.length_append, length_header]
  have hsize : (UInt32.ofNat frame.payload.length).toNat = frame.payload.length := by
    rw [UInt32.toNat_ofNat']
    exact Nat.mod_eq_of_lt (lt_of_le_of_lt hlarge (by decide))
  have hpacket : ¬ maxPacketSize < headerSize + frame.payload.length := by
    unfold maxPayloadSize at hlarge
    unfold maxPacketSize headerSize at *
    omega
  have hpayload : (header frame ++ frame.payload).drop headerSize = frame.payload :=
    List.drop_left' (length_header frame)
  simp [decode, hlen, h0, h4, h6, h8, h12, h16, h24, h32, h34, h36, h38, h40, h42, h44, hsize,
    hpacket, hpayload, hvalid, pure, Except.pure]

/-- What `decode` has checked of a packet, and where it reads the frame. -/
structure Decoded (packet : Bytes) (frame : Frame) : Prop where
  long : headerSize ≤ packet.length
  short : packet.length ≤ maxPacketSize
  magic : packet.take 4 = magic
  version : packet.readU16 4 = 1
  kind : packet.readU16 6 = frame.kind.code
  flags : packet.readU32 8 = 0
  size : packet.readU32 12 = UInt32.ofNat headerSize
  executionId : packet.readU64 16 = frame.executionId
  requestId : packet.readU64 24 = frame.requestId
  appId : packet.readU16 32 = frame.appId
  actionId : packet.readU16 34 = frame.actionId
  sourceType : packet.readU16 36 = frame.sourceType
  destinationType : packet.readU16 38 = frame.destinationType
  outcome : packet.readU16 40 = frame.outcome.code
  reserved : packet.readU16 42 = 0
  length : (packet.readU32 44).toNat = packet.length - headerSize
  payload : packet.drop headerSize = frame.payload
  valid : validateSemantics frame = .ok

theorem decode_ok {packet : Bytes} {frame : Frame} (h : decode packet = .ok frame) :
    Decoded packet frame := by
  unfold decode at h
  simp only [bind, Except.bind, pure, Except.pure, throw, throwThe, MonadExceptOf.throw] at h
  repeat' split at h
  all_goals cases h
  rename_i hlong hshort hmagic hversion _ kind hkind hflags hsize hlength _ outcome houtcome _ hvalid
  rw [not_or, not_not, not_not] at hsize
  exact {
    long := not_lt.mp hlong, short := not_lt.mp hshort, magic := not_not.mp hmagic
    version := not_not.mp hversion, kind := (FrameKind.code_of_ofCode hkind).symm
    flags := not_not.mp hflags, size := hsize.1, reserved := hsize.2
    executionId := rfl, requestId := rfl, appId := rfl, actionId := rfl, sourceType := rfl
    destinationType := rfl, outcome := (Outcome.code_of_ofCode houtcome).symm
    length := not_not.mp hlength, payload := rfl, valid := hvalid }

/-- The header that is written for a decoded frame is the one that was read. -/
theorem Decoded.header_eq {packet : Bytes} {frame : Frame} (h : Decoded packet frame) :
    header frame = packet.slice 0 headerSize := by
  have hlong := h.long
  unfold headerSize at hlong
  have hlength : UInt32.ofNat frame.payload.length = packet.readU32 44 := by
    rw [← h.payload, List.length_drop, ← h.length, UInt32.ofNat_toNat]
  rw [header, ← h.magic, ← h.version, ← h.kind, ← h.flags, ← h.size, ← h.executionId,
    ← h.requestId, ← h.appId, ← h.actionId, ← h.sourceType, ← h.destinationType, ← h.outcome,
    ← h.reserved, hlength, Bytes.take_eq_slice]
  simp (disch := omega) only [Bytes.writeU16_readU16, Bytes.writeU32_readU32,
    Bytes.writeU64_readU64, Bytes.slice_append_slice, headerSize]

/-- What was decoded is encoded again, byte for byte. -/
theorem encode_decode {packet : Bytes} {frame : Frame} (h : decode packet = .ok frame)
    {capacity : Nat} (hcapacity : packet.length ≤ capacity) :
    encode frame capacity = .ok packet := by
  have hdecoded := decode_ok h
  have hlen : headerSize + frame.payload.length = packet.length := by
    rw [← hdecoded.payload, List.length_drop]
    exact Nat.add_sub_cancel' hdecoded.long
  have hshort := hdecoded.short
  refine encode_ok.mpr ⟨?_, hdecoded.valid, hlen ▸ hcapacity, ?_⟩
  · unfold maxPayloadSize
    omega
  · rw [hdecoded.header_eq, ← hdecoded.payload, Bytes.slice_append_drop]

/--
**The codec is a bijection** between the frames that `encode` accepts and the packets that
`decode` accepts; a buffer is large enough when it holds the packet.
-/
theorem codec_bijective :
    (∀ frame capacity packet, encode frame capacity = .ok packet → decode packet = .ok frame) ∧
      ∀ packet frame, decode packet = .ok frame →
        ∀ capacity, packet.length ≤ capacity → encode frame capacity = .ok packet :=
  ⟨fun _ _ _ h => decode_encode h, fun _ _ h _ hcapacity => encode_decode h hcapacity⟩

end Protocol

end Hermas
