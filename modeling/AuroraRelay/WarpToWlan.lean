import AuroraRelay.RequestReply

/-!
# Frames from WARP

`WarpToWlanAgent::process`: a frame is classified by `check_warp_layer_type`, decoded by
`process_warp_layer`, and then handed to the 802.11 parser or taken as the response to a
control packet.  Neither function is told how long the frame is, and the second one looks
at the type byte again, in its own way.
-/

namespace AuroraRelay.WarpToWlan
open RequestReply WarpProtocol

/-- `Config::WARP` and `Config::PC_ENGINE`. -/
def warp : Mac := #v[0x40, 0xd8, 0x55, 0x04, 0x22, 0x84]
def pcEngine : Mac := #v[0x00, 0x0a, 0xcd, 0x21, 0x0b, 0x64]

structure EthernetFrame where
  srcAddr : Mac
  dstAddr : Mac
  warpLayer : List UInt8

def fromWarp (buffer : List UInt8) : EthernetFrame := ⟨warp, pcEngine, buffer⟩

/-- What is in the local result structs before anything is put there. -/
structure Leftover where
  payloadSize : UInt16
  operationCode : Kind → UInt8

structure Dot11Header where
  management : Bool
  addr1 : Mac
  deriving DecidableEq

/-- The constructor `Dot11(buffer, size)` of libtins: it throws `malformed_packet` where there
is less than a header, and else looks at the header and nothing more. -/
structure Dot11Constructor where
  headerSize : ℕ
  read : List UInt8 → Dot11Header

def Dot11Constructor.dot11 (libtins : Dot11Constructor) (frame : List UInt8) :
    Option Dot11Header :=
  if frame.length < libtins.headerSize then none
  else some (libtins.read (frame.take libtins.headerSize))

/-- `payload` is a management frame for the monitor interfaces; `response` is stored and the
semaphore of its kind is posted. -/
inductive Effect
  | ignored
  | dropped
  | payload (bytes : List UInt8)
  | response (kind : Kind) (code : UInt8)
  deriving DecidableEq

def bytesAt (buffer : List UInt8) (offset size : ℕ) : Except Fault (List UInt8) :=
  if offset + size ≤ buffer.length then .ok ((buffer.drop offset).take size)
  else .error .outOfBounds

def transmitResult (left : Leftover) : Stored → UInt16
  | .payloadSize n => n
  | _ => left.payloadSize

def controlResult (left : Leftover) : Kind → Stored → UInt8
  | .macAddress, .macOperationCode c => c
  | .transmission, .transmissionOperationCode c => c
  | .bssid, .bssidOperationCode c => c
  | kind, _ => left.operationCode kind

def forwardPayload (libtins : Dot11Constructor) (buffer : List UInt8) (offset dataLength : ℕ) :
    Except Fault Effect :=
  -- what the constructor throws is caught by the sniffer, which goes on to the next frame
  if dataLength < libtins.headerSize then .ok .dropped
  else do
    let header ← bytesAt buffer offset libtins.headerSize
    if (libtins.read header).management then
      return .payload (← bytesAt buffer offset dataLength)
    else return .dropped

def forward (libtins : Dot11Constructor) (left : Leftover) (buffer : List UInt8)
    (packetType : UInt8) (stored : Stored) (dataProcessedLength : ℕ) : Except Fault Effect :=
  if dataProcessedLength ≠ 0 then
    if packetType = typeTransmit then
      forwardPayload libtins buffer dataProcessedLength (transmitResult left stored).toNat
    else if packetType = subtypeTransmissionControl then
      .ok (.response .transmission (controlResult left .transmission stored))
    else if packetType = subtypeMacAddressControl then
      .ok (.response .macAddress (controlResult left .macAddress stored))
    else if packetType = subtypeBssidControl then
      .ok (.response .bssid (controlResult left .bssid stored))
    else .ok .dropped
  else .ok .dropped

/-- Undefined behaviour is a fault: `process_warp_layer` ending without a `return` is one,
whatever a compiler makes of it. -/
def processBuffer (libtins : Dot11Constructor) (left : Leftover) (buffer : List UInt8) :
    Except Fault Effect := do
  let packetType ← checkWarpLayerType buffer
  let (stored, dataProcessedLength) ←
    if packetType = typeTransmit ∨ packetType = subtypeTransmissionControl ∨
        packetType = subtypeMacAddressControl ∨ packetType = subtypeBssidControl then
      processWarpLayer buffer
    else pure (.untouched, 0)
  forward libtins left buffer packetType stored dataProcessedLength

def process (libtins : Dot11Constructor) (left : Leftover) (frame : EthernetFrame) :
    Except Fault Effect :=
  if frame.srcAddr = warp ∧ frame.dstAddr = pcEngine then
    processBuffer libtins left frame.warpLayer
  else .ok .ignored

@[simp] theorem process_fromWarp (libtins : Dot11Constructor) (left : Leftover)
    (buffer : List UInt8) :
    process libtins left (fromWarp buffer) = processBuffer libtins left buffer := if_pos ⟨rfl, rfl⟩

section
variable {libtins : Dot11Constructor} {left : Leftover} {buffer : List UInt8}
  {type subtype : UInt8}

theorem byteAt_ok {i : ℕ} {b : UInt8} (h : buffer[i]? = some b) : byteAt buffer i = .ok b := by
  simp only [byteAt, h]

theorem byteAt_error {i : ℕ} (h : buffer[i]? = none) : byteAt buffer i = .error .outOfBounds := by
  simp only [byteAt, h]

theorem type_cases (type : UInt8) :
    type = 0 ∨ type = typeTransmit ∨ type = typeControl ∨ typeControl < type := by
  simp only [UInt8.lt_iff_toNat_lt, ← UInt8.toNat_inj]
  change type.toNat = 0 ∨ type.toNat = 1 ∨ type.toNat = 2 ∨ 2 < type.toNat
  omega

theorem not_low (h : typeControl < type) : ¬type ≤ typeTransmit := by
  rw [UInt8.le_iff_toNat_le]
  rw [UInt8.lt_iff_toNat_lt] at h
  change 2 < type.toNat at h
  change ¬type.toNat ≤ 1
  omega

theorem check_of_low (h0 : buffer[typeIndex]? = some type) (h : type ≤ typeTransmit) :
    checkWarpLayerType buffer = .ok type := by
  simp [checkWarpLayerType, byteAt_ok h0, bind, Except.bind, h]

theorem check_of_high (h0 : buffer[typeIndex]? = some type) (h : ¬type ≤ typeTransmit) :
    checkWarpLayerType buffer = byteAt buffer subtypeIndex := by
  simp [checkWarpLayerType, byteAt_ok h0, bind, Except.bind, h]

theorem processBuffer_nil (h0 : buffer[typeIndex]? = none) :
    processBuffer libtins left buffer = .error .outOfBounds := by
  simp [processBuffer, checkWarpLayerType, byteAt_error h0, bind, Except.bind]

theorem processBuffer_called {packetType : UInt8}
    (hcheck : checkWarpLayerType buffer = .ok packetType)
    (h : packetType = typeTransmit ∨ packetType = subtypeTransmissionControl ∨
      packetType = subtypeMacAddressControl ∨ packetType = subtypeBssidControl) :
    processBuffer libtins left buffer = (processWarpLayer buffer).bind fun r =>
      forward libtins left buffer packetType r.1 r.2 := by
  rw [processBuffer, hcheck]
  exact if_pos h

theorem processBuffer_uncalled {packetType : UInt8}
    (hcheck : checkWarpLayerType buffer = .ok packetType)
    (h : ¬(packetType = typeTransmit ∨ packetType = subtypeTransmissionControl ∨
      packetType = subtypeMacAddressControl ∨ packetType = subtypeBssidControl)) :
    processBuffer libtins left buffer = .ok .dropped := by
  rw [processBuffer, hcheck]
  exact if_neg h

def announcedSize (buffer : List UInt8) : Option ℕ := do
  let msb ← buffer[dataLengthMsbIndex]?
  let lsb ← buffer[dataLengthLsbIndex]?
  return 256 * msb.toNat + lsb.toNat

theorem toNat_payloadSize (msb lsb : UInt8) :
    ((msb.toUInt16 <<< 8) + lsb.toUInt16).toNat = 256 * msb.toNat + lsb.toNat := by
  have hm := msb.toNat_lt
  have hl := lsb.toNat_lt
  simp [Nat.shiftLeft_eq]
  omega

variable (libtins left) in
theorem processBuffer_transmit (h0 : buffer[typeIndex]? = some typeTransmit) :
    processBuffer libtins left buffer =
      match announcedSize buffer with
      | some size => forwardPayload libtins buffer 4 size
      | none => .error .outOfBounds := by
  rw [processBuffer_called (check_of_low h0 (by decide)) (.inl rfl)]
  cases h2 : buffer[dataLengthMsbIndex]? with
  | none =>
    simp [processWarpLayer, byteAt_ok h0, byteAt_error h2, announcedSize, h2, bind, Except.bind]
  | some msb =>
    cases h3 : buffer[dataLengthLsbIndex]? with
    | none =>
      simp [processWarpLayer, byteAt_ok h0, byteAt_ok h2, byteAt_error h3, announcedSize, h2, h3,
        bind, Except.bind]
    | some lsb =>
      have hprocess : processWarpLayer buffer =
          .ok (.payloadSize ((msb.toUInt16 <<< 8) + lsb.toUInt16), 4) := by
        simp [processWarpLayer, byteAt_ok h0, byteAt_ok h2, byteAt_ok h3, bind, Except.bind, pure,
          Except.pure]
      have hsize : announcedSize buffer = some (256 * msb.toNat + lsb.toNat) := by
        simp [announcedSize, h2, h3]
      rw [hsize, ← toNat_payloadSize, hprocess]
      rfl

def controlIndex (subtype : UInt8) : Option (Kind × ℕ) :=
  if subtype = subtypeMacAddressControl then some (.macAddress, operationCodeIndex)
  else if subtype = subtypeTransmissionControl then
    some (.transmission, transmissionOperationCodeIndex)
  else if subtype = subtypeBssidControl then some (.bssid, bssidOperationCodeIndex)
  else none

theorem controlIndex_cases {kind : Kind} {index : ℕ}
    (h : controlIndex subtype = some (kind, index)) :
    (subtype = subtypeMacAddressControl ∧ kind = .macAddress ∧ index = operationCodeIndex) ∨
    (subtype = subtypeTransmissionControl ∧ kind = .transmission ∧
      index = transmissionOperationCodeIndex) ∨
    (subtype = subtypeBssidControl ∧ kind = .bssid ∧ index = bssidOperationCodeIndex) := by
  unfold controlIndex at h
  split_ifs at h with h4 h8 h12
  · exact .inl ⟨h4, by simpa [eq_comm] using h⟩
  · exact .inr (.inl ⟨h8, by simpa [eq_comm] using h⟩)
  · exact .inr (.inr ⟨h12, by simpa [eq_comm] using h⟩)

/-- A type that the decoder does not know. -/
theorem processWarpLayer_unknown (h0 : buffer[typeIndex]? = some type) (h1 : type ≠ typeTransmit)
    (h2 : type ≠ typeControl) : processWarpLayer buffer = .error .missingReturn := by
  simp [processWarpLayer, byteAt_ok h0, bind, Except.bind, h1, h2, throw, throwThe,
    MonadExceptOf.throw]

def storedCode : Kind → UInt8 → Stored
  | .macAddress => .macOperationCode
  | .transmission => .transmissionOperationCode
  | .bssid => .bssidOperationCode

theorem processWarpLayer_control (h0 : buffer[typeIndex]? = some typeControl)
    (h1 : buffer[subtypeIndex]? = some subtype) :
    processWarpLayer buffer =
      match controlIndex subtype with
      | some (kind, index) =>
        (byteAt buffer index).map fun c => (storedCode kind c, headerOffset + 1)
      | none => .ok (.untouched, 0) := by
  have hne : typeControl ≠ typeTransmit := by decide
  simp only [processWarpLayer, byteAt_ok h0, byteAt_ok h1, bind, Except.bind, controlIndex,
    if_neg hne, if_true]
  split_ifs <;> rfl

variable (libtins left) in
theorem processBuffer_control (h0 : buffer[typeIndex]? = some typeControl)
    (h1 : buffer[subtypeIndex]? = some subtype) :
    processBuffer libtins left buffer =
      match controlIndex subtype with
      | some (kind, index) => (byteAt buffer index).map (.response kind)
      | none => .ok .dropped := by
  have hcheck := decode_control (byteAt_ok h0) (byteAt_ok h1)
  have hprocess := processWarpLayer_control h0 h1
  cases hindex : controlIndex subtype with
  | some found =>
    obtain ⟨kind, index⟩ := found
    simp only [hindex] at hprocess
    have hcalled : subtype = typeTransmit ∨ subtype = subtypeTransmissionControl ∨
        subtype = subtypeMacAddressControl ∨ subtype = subtypeBssidControl := by
      rcases controlIndex_cases hindex with ⟨rfl, -⟩ | ⟨rfl, -⟩ | ⟨rfl, -⟩ <;> decide
    rw [processBuffer_called hcheck hcalled, hprocess]
    dsimp only
    cases h : buffer[index]? with
    | none =>
      rw [byteAt_error h]
      rfl
    | some c =>
      rw [byteAt_ok h]
      rcases controlIndex_cases hindex with ⟨rfl, rfl, -⟩ | ⟨rfl, rfl, -⟩ | ⟨rfl, rfl, -⟩ <;> rfl
  | none =>
    simp only [hindex] at hprocess
    by_cases hcalled : subtype = typeTransmit ∨ subtype = subtypeTransmissionControl ∨
        subtype = subtypeMacAddressControl ∨ subtype = subtypeBssidControl
    · -- a transmit frame by its subtype alone, for which the decoder returns zero
      rw [processBuffer_called hcheck hcalled, hprocess]
      rfl
    · exact processBuffer_uncalled hcheck hcalled

theorem ne_of_control_lt (h : typeControl < type) : type ≠ typeTransmit ∧ type ≠ typeControl := by
  constructor <;> rintro rfl <;> exact absurd h (by decide)

theorem called_iff : (subtype = typeTransmit ∨ subtype = subtypeTransmissionControl ∨
      subtype = subtypeMacAddressControl ∨ subtype = subtypeBssidControl) ↔
    ¬(subtype ≠ typeTransmit ∧ controlIndex subtype = none) := by
  unfold controlIndex
  split_ifs with h4 h8 h12 <;> simp [*]

variable (libtins left) in
/-- The decoder is called for a frame of unknown type with a known subtype. -/
theorem processBuffer_unknown (h0 : buffer[typeIndex]? = some type)
    (htype : typeControl < type) (h1 : buffer[subtypeIndex]? = some subtype) :
    processBuffer libtins left buffer =
      if subtype ≠ typeTransmit ∧ controlIndex subtype = none then .ok .dropped
      else .error .missingReturn := by
  have hcheck : checkWarpLayerType buffer = .ok subtype := by
    rw [check_of_high h0 (not_low htype), byteAt_ok h1]
  obtain ⟨hne1, hne2⟩ := ne_of_control_lt htype
  split_ifs with hcalled
  · exact processBuffer_uncalled hcheck fun h => called_iff.mp h hcalled
  · rw [processBuffer_called hcheck (called_iff.mpr hcalled),
      processWarpLayer_unknown h0 hne1 hne2]
    rfl

/-- Without a second byte only the types 0 and 1 can be told. -/
theorem processBuffer_short (h0 : buffer[typeIndex]? = some type) (h : ¬type ≤ typeTransmit)
    (h1 : buffer[subtypeIndex]? = none) :
    processBuffer libtins left buffer = .error .outOfBounds := by
  rw [processBuffer, check_of_high h0 h, byteAt_error h1]
  rfl

theorem bytesAt_ok_iff {offset size : ℕ} {bytes : List UInt8} :
    bytesAt buffer offset size = .ok bytes ↔
      offset + size ≤ buffer.length ∧ bytes = (buffer.drop offset).take size := by
  unfold bytesAt
  split_ifs with h
  · simp [h, eq_comm]
  · simp [h]

/-- The bytes that the constructor and the injected packet are made from were received. -/
def PayloadReceived (libtins : Dot11Constructor) (buffer : List UInt8) (offset size : ℕ) : Prop :=
  libtins.headerSize ≤ size → offset + libtins.headerSize ≤ buffer.length ∧
    ((libtins.read ((buffer.drop offset).take libtins.headerSize)).management = true →
      offset + size ≤ buffer.length)

theorem forwardPayload_ok_iff {offset size : ℕ} :
    (∃ effect, forwardPayload libtins buffer offset size = .ok effect) ↔
      PayloadReceived libtins buffer offset size := by
  unfold forwardPayload PayloadReceived bytesAt
  by_cases hshort : size < libtins.headerSize
  · simp [hshort]
  by_cases hheader : offset + libtins.headerSize ≤ buffer.length
  · by_cases hmanagement :
      (libtins.read ((buffer.drop offset).take libtins.headerSize)).management = true
    · by_cases hsize : offset + size ≤ buffer.length <;>
        simp [hshort, hheader, hmanagement, hsize, bind, Except.bind, pure, Except.pure]
    · simp [hshort, hheader, hmanagement, bind, Except.bind, pure, Except.pure]
  · simp [hshort, hheader, bind, Except.bind, Nat.le_of_not_lt hshort]

/-- What has been read once a payload is forwarded. -/
theorem forwardPayload_inversion {offset size : ℕ} {effect : Effect}
    (h : forwardPayload libtins buffer offset size = .ok effect) :
    effect = .dropped ∨ ¬size < libtins.headerSize ∧
      (libtins.read ((buffer.drop offset).take libtins.headerSize)).management = true ∧
      offset + size ≤ buffer.length ∧ effect = .payload ((buffer.drop offset).take size) := by
  unfold forwardPayload at h
  by_cases hshort : size < libtins.headerSize
  · rw [if_pos hshort] at h
    exact .inl (Except.ok.inj h).symm
  rw [if_neg hshort] at h
  cases hheader : bytesAt buffer offset libtins.headerSize with
  | error e =>
    rw [hheader] at h
    cases h
  | ok header =>
    obtain ⟨-, rfl⟩ := bytesAt_ok_iff.mp hheader
    simp only [hheader, bind, Except.bind] at h
    split_ifs at h with hmanagement
    · cases hbytes : bytesAt buffer offset size with
      | error e =>
        rw [hbytes] at h
        cases h
      | ok bytes =>
        obtain ⟨hsize, rfl⟩ := bytesAt_ok_iff.mp hbytes
        rw [hbytes] at h
        exact .inr ⟨hshort, hmanagement, hsize, (Except.ok.inj h).symm⟩
    · exact .inl (Except.ok.inj h).symm

/-- A payload is the announced number of received bytes, and read as a management frame. -/
theorem forwardPayload_payload {offset size : ℕ} {payload : List UInt8}
    (h : forwardPayload libtins buffer offset size = .ok (.payload payload)) :
    offset + size ≤ buffer.length ∧ payload = (buffer.drop offset).take size ∧
      ∃ header, libtins.dot11 payload = some header ∧ header.management = true := by
  obtain h | ⟨hshort, hmanagement, hsize, h⟩ := forwardPayload_inversion h
  · cases h
  obtain rfl := Effect.payload.inj h
  refine ⟨hsize, rfl, _, ?_, hmanagement⟩
  have hlength : ((buffer.drop offset).take size).length = size := by
    rw [List.length_take, List.length_drop]
    omega
  rw [Dot11Constructor.dot11, if_neg (by rwa [hlength]), List.take_take,
    min_eq_left (Nat.le_of_not_lt hshort)]

theorem forward_payload {packetType : UInt8} {stored : Stored} {length : ℕ} {payload : List UInt8}
    (h : forward libtins left buffer packetType stored length = .ok (.payload payload)) :
    ∃ size, forwardPayload libtins buffer length size = .ok (.payload payload) := by
  unfold forward at h
  split_ifs at h
  · exact ⟨_, h⟩
  all_goals cases h

theorem process_payload {frame : EthernetFrame} {payload : List UInt8}
    (h : process libtins left frame = .ok (.payload payload)) :
    ∃ header, libtins.dot11 payload = some header ∧ header.management = true := by
  unfold process at h
  split_ifs at h
  · cases hcheck : checkWarpLayerType frame.warpLayer with
    | error e =>
      rw [processBuffer, hcheck] at h
      cases h
    | ok packetType =>
      by_cases hcalled : packetType = typeTransmit ∨ packetType = subtypeTransmissionControl ∨
          packetType = subtypeMacAddressControl ∨ packetType = subtypeBssidControl
      · rw [processBuffer_called hcheck hcalled] at h
        cases hresult : processWarpLayer frame.warpLayer with
        | error e =>
          rw [hresult] at h
          cases h
        | ok result =>
          rw [hresult] at h
          obtain ⟨size, hsize⟩ := forward_payload h
          exact (forwardPayload_payload hsize).2.2
      · rw [processBuffer_uncalled hcheck hcalled] at h
        cases h
  · cases h

def payloadEffect (libtins : Dot11Constructor) (frame : List UInt8) : Effect :=
  match libtins.dot11 frame with
  | some header => if header.management then .payload frame else .dropped
  | none => .dropped

theorem forwardPayload_received {offset size : ℕ} (h : offset + size ≤ buffer.length) :
    forwardPayload libtins buffer offset size =
      .ok (payloadEffect libtins ((buffer.drop offset).take size)) := by
  have hlength : ((buffer.drop offset).take size).length = size := by
    rw [List.length_take, List.length_drop]
    omega
  unfold forwardPayload payloadEffect Dot11Constructor.dot11
  rw [hlength]
  split_ifs with hshort
  · rfl
  · have hheader := bytesAt_ok_iff.mpr
      ⟨show offset + libtins.headerSize ≤ buffer.length by omega, rfl⟩
    rw [hheader, bytesAt_ok_iff.mpr ⟨h, rfl⟩, List.take_take, min_eq_left (by omega)]
    simp only [bind, Except.bind, pure, Except.pure]
    split_ifs <;> rfl

end

/-- Whatever is left over in the result structs, no byte behind the buffer is read, and a
payload is the announced number of received bytes behind the header. -/
def ReadsOnlyReceived (libtins : Dot11Constructor) (buffer : List UInt8) : Prop :=
  ∀ left, ∃ effect, process libtins left (fromWarp buffer) = .ok effect ∧
    ∀ payload, effect = .payload payload → ∃ size, announcedSize buffer = some size ∧
      4 + size ≤ buffer.length ∧ payload = (buffer.drop 4).take size

/-- The frame is as long as its first bytes say, and of a type that has a result. -/
def LongEnough (libtins : Dot11Constructor) (buffer : List UInt8) : Prop :=
  ∃ type, buffer[typeIndex]? = some type ∧
    (type = typeTransmit → ∃ size, announcedSize buffer = some size ∧
      PayloadReceived libtins buffer 4 size) ∧
    (typeTransmit < type → ∃ subtype, buffer[subtypeIndex]? = some subtype ∧
      (type = typeControl → ∀ kind index, controlIndex subtype = some (kind, index) →
        index < buffer.length) ∧
      (type ≠ typeControl → subtype ≠ typeTransmit ∧ controlIndex subtype = none))

section
variable {libtins : Dot11Constructor} {buffer : List UInt8} {type : UInt8}

def noLeftover : Leftover := ⟨0, fun _ => 0⟩

theorem not_readsOnlyReceived {f : Fault}
    (h : processBuffer libtins noLeftover buffer = .error f) :
    ¬ReadsOnlyReceived libtins buffer := by
  intro hr
  obtain ⟨effect, he, -⟩ := hr noLeftover
  rw [process_fromWarp, h] at he
  cases he

theorem readsOnlyReceived_transmit (h0 : buffer[typeIndex]? = some typeTransmit) :
    ReadsOnlyReceived libtins buffer ↔
      ∃ size, announcedSize buffer = some size ∧ PayloadReceived libtins buffer 4 size := by
  have hprocess := fun left => processBuffer_transmit libtins left h0
  cases hsize : announcedSize buffer with
  | none =>
    simp only [hsize] at hprocess
    simpa using not_readsOnlyReceived (hprocess noLeftover)
  | some size =>
    simp only [hsize] at hprocess
    simp only [Option.some.injEq, exists_eq_left', ← forwardPayload_ok_iff]
    constructor
    · intro h
      obtain ⟨effect, he, -⟩ := h noLeftover
      exact ⟨effect, by rw [← he, process_fromWarp, hprocess]⟩
    · rintro ⟨effect, he⟩ left
      refine ⟨effect, by rw [process_fromWarp, hprocess, he], ?_⟩
      rintro payload rfl
      obtain ⟨hlong, hpayload, -⟩ := forwardPayload_payload he
      exact ⟨size, hsize, hlong, hpayload⟩

theorem readsOnlyReceived_control (h0 : buffer[typeIndex]? = some typeControl) :
    ReadsOnlyReceived libtins buffer ↔ ∃ subtype, buffer[subtypeIndex]? = some subtype ∧
      ∀ kind index, controlIndex subtype = some (kind, index) → index < buffer.length := by
  cases h1 : buffer[subtypeIndex]? with
  | none =>
    simpa using not_readsOnlyReceived (processBuffer_short h0 (by decide) h1)
  | some subtype =>
    have hprocess := fun left => processBuffer_control libtins left h0 h1
    cases hindex : controlIndex subtype with
    | none =>
      simp only [hindex] at hprocess
      refine iff_of_true (fun left => ⟨.dropped, ?_, fun _ h => by cases h⟩) ⟨subtype, rfl, ?_⟩
      · rw [process_fromWarp, hprocess]
      · rw [hindex]
        exact fun _ _ h => by cases h
    | some found =>
      obtain ⟨kind, index⟩ := found
      simp only [hindex] at hprocess
      by_cases hlong : index < buffer.length
      · refine iff_of_true (fun left => ⟨.response kind buffer[index], ?_, fun _ h => by cases h⟩)
          ⟨subtype, rfl, ?_⟩
        · rw [process_fromWarp, hprocess, byteAt_ok (List.getElem?_eq_getElem hlong)]
          rfl
        · rw [hindex]
          rintro _ _ ⟨⟩
          exact hlong
      · refine iff_of_false (not_readsOnlyReceived (f := .outOfBounds) ?_) ?_
        · rw [hprocess, byteAt_error (List.getElem?_eq_none (by omega))]
          rfl
        · rintro ⟨_, ⟨⟩, h⟩
          exact hlong (h kind index hindex)

/-- The decoder has no result for such a frame, and must not be called for it. -/
theorem readsOnlyReceived_unknown (h0 : buffer[typeIndex]? = some type)
    (htype : typeControl < type) :
    ReadsOnlyReceived libtins buffer ↔ ∃ subtype, buffer[subtypeIndex]? = some subtype ∧
      subtype ≠ typeTransmit ∧ controlIndex subtype = none := by
  cases h1 : buffer[subtypeIndex]? with
  | none =>
    simpa using not_readsOnlyReceived (processBuffer_short h0 (not_low htype) h1)
  | some subtype =>
    have hprocess := fun left => processBuffer_unknown libtins left h0 htype h1
    simp only [Option.some.injEq, exists_eq_left']
    by_cases hs : subtype ≠ typeTransmit ∧ controlIndex subtype = none
    · refine iff_of_true (fun left => ⟨.dropped, ?_, fun _ h => by cases h⟩) hs
      rw [process_fromWarp, hprocess, if_pos hs]
    · exact iff_of_false
        (not_readsOnlyReceived ((hprocess noLeftover).trans (if_neg hs))) hs

end

/-- The code reads only received bytes exactly from the frames that are long enough; it
never looks at the length of the buffer. -/
theorem reads_only_received_iff (libtins : Dot11Constructor) (buffer : List UInt8) :
    ReadsOnlyReceived libtins buffer ↔ LongEnough libtins buffer := by
  unfold LongEnough
  cases h0 : buffer[typeIndex]? with
  | none => simpa using not_readsOnlyReceived (processBuffer_nil h0)
  | some type =>
    simp only [Option.some.injEq, exists_eq_left']
    rcases type_cases type with rfl | rfl | rfl | htype
    · refine iff_of_true (fun left => ⟨.dropped, ?_, fun _ h => by cases h⟩)
        ⟨fun h => absurd h (by decide), fun h => absurd h (by decide)⟩
      rw [process_fromWarp, processBuffer_uncalled (check_of_low h0 (by decide)) (by decide)]
    · rw [readsOnlyReceived_transmit h0]
      simp
    · have h1 : typeControl ≠ typeTransmit := by decide
      have hlt : typeTransmit < typeControl := by decide
      rw [readsOnlyReceived_control h0]
      simp [h1, hlt]
    · obtain ⟨h1, h2⟩ := ne_of_control_lt htype
      have hlt : typeTransmit < type := UInt8.not_le.mp (not_low htype)
      rw [readsOnlyReceived_unknown h0 htype]
      simp [h1, h2, hlt]

def addressAt (i : ℕ) (bytes : List UInt8) : Mac :=
  Vector.ofFn fun k : Fin 6 => bytes.getD (i + k) 0

/-- The header has the frame control, the duration and the first address. -/
def ieee80211 : Dot11Constructor where
  headerSize := 10
  read header := ⟨header.getD 0 0 &&& 0x0c = 0, addressAt 4 header⟩

/-- A transmit frame of four bytes announces 32 bytes of payload. -/
theorem payload_behind_the_frame : ¬∀ buffer, ReadsOnlyReceived ieee80211 buffer := by
  intro h
  obtain ⟨effect, he, -⟩ := h [typeTransmit, 0, 0, 32] noLeftover
  have hfault : process ieee80211 noLeftover (fromWarp [typeTransmit, 0, 0, 32]) =
      .error .outOfBounds := by
    decide
  rw [hfault] at he
  cases he

def SameBranch (packetType : UInt8) : Stored → Prop
  | .untouched => False
  | .payloadSize _ => packetType = typeTransmit
  | .macOperationCode _ => packetType = subtypeMacAddressControl
  | .transmissionOperationCode _ => packetType = subtypeTransmissionControl
  | .bssidOperationCode _ => packetType = subtypeBssidControl

/-- `process_warp_layer` returns a value and both functions take the frame for the same
thing; a response is recorded from a control frame only, and other frames are dropped
whatever is left over in the result structs. -/
structure Agrees (buffer : List UInt8) : Prop where
  returns : ∃ result, processWarpLayer buffer = .ok result
  branch : ∀ packetType stored length, checkWarpLayerType buffer = .ok packetType →
    processWarpLayer buffer = .ok (stored, length) → length ≠ 0 → SameBranch packetType stored
  response : ∀ libtins left kind code,
    process libtins left (fromWarp buffer) = .ok (.response kind code) ↔
      buffer[typeIndex]? = some typeControl ∧
      ∃ subtype index, buffer[subtypeIndex]? = some subtype ∧
        controlIndex subtype = some (kind, index) ∧ buffer[index]? = some code
  dropped : ∀ libtins left, buffer[typeIndex]? ≠ some typeTransmit →
    ¬(buffer[typeIndex]? = some typeControl ∧
      ∃ subtype found, buffer[subtypeIndex]? = some subtype ∧ controlIndex subtype = some found) →
    process libtins left (fromWarp buffer) = .ok .dropped

section
variable {buffer : List UInt8}

theorem exists_byte (hlength : 10 ≤ buffer.length) {i : ℕ} (hi : i < 10) :
    ∃ b, buffer[i]? = some b :=
  ⟨_, List.getElem?_eq_getElem (lt_of_lt_of_le hi hlength)⟩

theorem agrees_transmit (h0 : buffer[typeIndex]? = some typeTransmit)
    (hlength : 10 ≤ buffer.length) : Agrees buffer := by
  obtain ⟨msb, h2⟩ := exists_byte hlength (show dataLengthMsbIndex < 10 by decide)
  obtain ⟨lsb, h3⟩ := exists_byte hlength (show dataLengthLsbIndex < 10 by decide)
  have hprocess : processWarpLayer buffer =
      .ok (.payloadSize ((msb.toUInt16 <<< 8) + lsb.toUInt16), headerOffset + 2) := by
    simp [processWarpLayer, byteAt_ok h0, byteAt_ok h2, byteAt_ok h3, bind, Except.bind, pure,
      Except.pure]
  have hne : ¬(buffer[typeIndex]? = some typeControl) := by
    rw [h0]
    decide
  refine ⟨⟨_, hprocess⟩, ?_, fun libtins left kind code => ?_, fun _ _ h => absurd h0 h⟩
  · intro packetType stored length hcheck h hne0
    rw [check_of_low h0 (by decide)] at hcheck
    rw [hprocess] at h
    cases hcheck
    cases h
    exact rfl
  · refine iff_of_false (fun h => ?_) fun h => hne h.1
    rw [process_fromWarp, processBuffer_transmit libtins left h0] at h
    cases hsize : announcedSize buffer with
    | none =>
      rw [hsize] at h
      cases h
    | some size =>
      simp only [hsize] at h
      obtain h | ⟨-, -, -, h⟩ := forwardPayload_inversion h <;> cases h

theorem agrees_control (h0 : buffer[typeIndex]? = some typeControl)
    (hlength : 10 ≤ buffer.length) : Agrees buffer := by
  obtain ⟨subtype, h1⟩ := exists_byte hlength (show subtypeIndex < 10 by decide)
  have hcheck := decode_control (byteAt_ok h0) (byteAt_ok h1)
  have hprocess := processWarpLayer_control h0 h1
  have heffect := fun libtins left => processBuffer_control libtins left h0 h1
  have hne : buffer[typeIndex]? ≠ some typeTransmit := by
    rw [h0]
    decide
  cases hindex : controlIndex subtype with
  | none =>
    simp only [hindex] at hprocess heffect
    refine ⟨⟨_, hprocess⟩, fun _ _ _ _ h hz => ?_, fun libtins left kind code => ?_,
      fun libtins left _ _ => ?_⟩
    · rw [hprocess] at h
      cases h
      exact absurd rfl hz
    · rw [process_fromWarp, heffect]
      refine iff_of_false (fun h => by cases h) ?_
      rintro ⟨-, _, index, hs, hi, -⟩
      rw [h1] at hs
      cases hs
      rw [hindex] at hi
      cases hi
    · rw [process_fromWarp, heffect]
  | some found =>
    obtain ⟨kind, index⟩ := found
    have hlt : index < buffer.length := by
      rcases controlIndex_cases hindex with ⟨-, -, rfl⟩ | ⟨-, -, rfl⟩ | ⟨-, -, rfl⟩ <;>
        exact lt_of_lt_of_le (by decide) hlength
    have hcode := List.getElem?_eq_getElem hlt
    simp only [hindex, byteAt_ok hcode] at hprocess heffect
    refine ⟨⟨_, hprocess⟩, fun _ _ _ ht h _ => ?_, fun libtins left kind' code => ?_,
      fun _ _ _ hn => ?_⟩
    · rw [hcheck] at ht
      rw [hprocess] at h
      cases ht
      cases h
      rcases controlIndex_cases hindex with ⟨hs, rfl, -⟩ | ⟨hs, rfl, -⟩ | ⟨hs, rfl, -⟩ <;> exact hs
    · rw [process_fromWarp, heffect]
      constructor
      · rintro ⟨⟩
        exact ⟨h0, _, index, h1, hindex, hcode⟩
      · rintro ⟨-, _, index', hs, hi, hc⟩
        rw [h1] at hs
        cases hs
        rw [hindex] at hi
        cases hi
        rw [hcode] at hc
        cases hc
        rfl
    · exact absurd ⟨h0, _, _, h1, hindex⟩ hn

end

/-- The two functions agree exactly on the transmit and the control frames: on any other
type byte `process_warp_layer` ends without a `return`. -/
theorem classifiers_agree_iff {buffer : List UInt8} (hlength : 10 ≤ buffer.length) :
    Agrees buffer ↔
      buffer[typeIndex]? = some typeTransmit ∨ buffer[typeIndex]? = some typeControl := by
  constructor
  · intro h
    by_contra hne
    rw [not_or] at hne
    obtain ⟨type, h0⟩ := exists_byte hlength (show typeIndex < 10 by decide)
    rw [h0, Option.some.injEq, Option.some.injEq] at hne
    obtain ⟨result, hr⟩ := h.returns
    rw [processWarpLayer_unknown h0 hne.1 hne.2] at hr
    cases hr
  · rintro (h | h)
    · exact agrees_transmit h hlength
    · exact agrees_control h hlength

/-- The response to a station command, padded by nothing. -/
theorem classifiers_agree_bssid_control :
    Agrees [typeControl, subtypeBssidControl, 0, 0, 0, 0, 0, 0, 0, bssidStationAssociateCode] :=
  (classifiers_agree_iff (by decide)).mpr (by decide)

/-- A frame of type 3 with the subtype of a MAC control frame: there is no result, and the
register may still make `process` record a response that nobody sent. -/
theorem unknown_type_without_result :
    ¬∀ buffer : List UInt8, 10 ≤ buffer.length → Agrees buffer := by
  intro h
  obtain ⟨result, hr⟩ := (h [3, subtypeMacAddressControl, macAddCode, 0, 0, 0, 0, 0, 0, 0]
    (by decide)).returns
  have hmissing : processWarpLayer [3, subtypeMacAddressControl, macAddCode, 0, 0, 0, 0, 0, 0, 0] =
      .error .missingReturn := by
    decide
  rw [hmissing] at hr
  cases hr

/-- The responses of the request protocol are what `process` takes from their frames. -/
theorem process_of_controlResponse {buffer : List UInt8} {kind : Kind} {code : UInt8}
    (h : controlResponse buffer = some (kind, code)) (libtins : Dot11Constructor)
    (left : Leftover) :
    process libtins left (fromWarp buffer) = .ok (.response kind code) := by
  unfold controlResponse at h
  split at h
  · rename_i packetType stored length hcheck hprocess
    obtain ⟨hlength, h⟩ := Option.ite_none_left_eq_some.mp h
    have hforward (hcalled : packetType = typeTransmit ∨ packetType = subtypeTransmissionControl ∨
        packetType = subtypeMacAddressControl ∨ packetType = subtypeBssidControl) :
        process libtins left (fromWarp buffer) =
          forward libtins left buffer packetType stored length := by
      rw [process_fromWarp, processBuffer_called hcheck hcalled, hprocess]
      rfl
    cases stored with
    | untouched => cases h
    | payloadSize n => cases h
    | macOperationCode c | transmissionOperationCode c | bssidOperationCode c =>
      obtain ⟨rfl, he⟩ := Option.ite_none_right_eq_some.mp h
      obtain ⟨rfl, rfl⟩ := Prod.mk.inj (Option.some.inj he)
      rw [hforward (by decide), forward, if_pos hlength]
      rfl
  · cases h

end AuroraRelay.WarpToWlan
