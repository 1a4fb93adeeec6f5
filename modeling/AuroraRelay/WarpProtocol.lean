import Mathlib.Data.UInt
import Mathlib.Logic.Function.Iterate
import AuroraRelay.Lib.Memory

/-!
# The WARP layer

The four encoders of `warp_protocol.cpp` and the decoder that reads their frames
back.  An encoder allocates `bufferLength` bytes and writes into them; the bytes
it leaves alone, and the memory past the allocation, are whatever `malloc` found
there.
-/

namespace AuroraRelay

abbrev Mac := Vector UInt8 6

namespace WarpProtocol
open Memory

abbrev warpProtocolHeaderLength : UInt8 := 2
abbrev macControlElementLength : UInt8 := 7
abbrev transmissionControlElementLength : UInt8 := 11
abbrev bssidControlElementLength : UInt8 := 8

abbrev typeIndex : ℕ := 0
abbrev subtypeIndex : ℕ := 1
abbrev typeTransmit : UInt8 := 1
abbrev typeControl : UInt8 := 2
abbrev headerOffset : ℕ := 2
abbrev dataLengthMsbIndex : ℕ := 2
abbrev dataLengthLsbIndex : ℕ := 3

abbrev subtypeMacAddressControl : UInt8 := 4
abbrev subtypeTransmissionControl : UInt8 := 8
abbrev subtypeBssidControl : UInt8 := 12

abbrev transmissionConfigureSuccessCode : UInt8 := 8
abbrev transmissionNumElementIndex : ℕ := 2
abbrev transmissionOperationCodeIndex : ℕ := 3
abbrev transmissionDisabledIndex : ℕ := 10
abbrev transmissionTxPowerIndex : ℕ := 11
abbrev transmissionChannelIndex : ℕ := 12
abbrev transmissionRateIndex : ℕ := 13
abbrev transmissionHwModeIndex : ℕ := 14

abbrev macAddCode : UInt8 := 1
abbrev macRemoveCode : UInt8 := 32
abbrev operationCodeIndex : ℕ := 2

abbrev bssidStationAssociateCode : UInt8 := 1
abbrev bssidStationDisassociateCode : UInt8 := 32
abbrev bssidStationExistedCode : UInt8 := 65
abbrev bssidStationNotExistedCode : UInt8 := 66
abbrev bssidStationClearCode : UInt8 := 33
abbrev bssidNumElementIndex : ℕ := 2
abbrev bssidBssidIndex : ℕ := 3
abbrev bssidOperationCodeIndex : ℕ := 9
abbrev bssidStationMacAddrIndex : ℕ := 10

structure Transmit where
  flag : UInt8
  retry : UInt8
  payloadSize : UInt16
  bssid : Mac
  deriving DecidableEq

structure MacControl where
  operationCode : UInt8
  macAddress : Mac
  deriving DecidableEq

structure TransmissionControl where
  totalNumElement : UInt8
  bssid : Mac
  disabled : UInt8
  txPower : UInt8
  channel : UInt8
  rate : UInt8
  hwMode : UInt8
  operationCode : UInt8
  deriving DecidableEq

/-- `macAddr` is the array behind the pointer of the source. -/
structure BssidControl where
  totalNumElement : UInt8
  bssid : Mac
  operationCode : UInt8
  macAddr : List Mac
  macAddr_length : macAddr.length = totalNumElement.toNat
  deriving DecidableEq

structure FragmentInfo where
  id : UInt8
  fragmentNumber : UInt8
  totalNumberFragment : UInt8
  byteOffset : UInt16
  length : UInt32
  deriving DecidableEq

abbrev reservedFragmentId : UInt16 := 255

/-- The new struct and the counter `Fragment_Id` after the call. -/
def generateFragmentStruct (fragmentId : UInt16) : FragmentInfo × UInt16 :=
  let output := ⟨fragmentId.toUInt8, 1, 1, 0, 0⟩
  let fragmentId := fragmentId + 1
  (output, if fragmentId = reservedFragmentId then 0 else fragmentId)

def assignedId (k : ℕ) : UInt8 :=
  (generateFragmentStruct ((fun c => (generateFragmentStruct c).2)^[k] 0)).1.id

/-- The allocated length and the writes of an encoder, in program order. -/
structure Encoding where
  bufferLength : UInt8
  writes : List (ℕ × List UInt8)

namespace Encoding

def memory (e : Encoding) (malloc : ℕ → UInt8) : ℕ → UInt8 := storeAll malloc e.writes

/-- The bytes that the `WARP_protocol` object copies and serialises. -/
def buffer (e : Encoding) (malloc : ℕ → UInt8) : List UInt8 :=
  load (e.memory malloc) 0 e.bufferLength.toNat

end Encoding

def createTransmit (info : Transmit) (subtype : UInt8) : Encoding where
  bufferLength := 2 + 2
  writes :=
    [(typeIndex, [typeTransmit]),
     (subtypeIndex, [subtype]),
     (dataLengthMsbIndex, [((info.payloadSize >>> 8) &&& 0xff).toUInt8]),
     (dataLengthLsbIndex, [(info.payloadSize &&& 0xff).toUInt8])]

def createMacControl (info : MacControl) : Encoding where
  bufferLength := warpProtocolHeaderLength + macControlElementLength
  writes :=
    [(typeIndex, [typeControl]),
     (subtypeIndex, [subtypeMacAddressControl]),
     (operationCodeIndex, [info.operationCode]),
     (operationCodeIndex + 1, info.macAddress.toList)]

def createTransmissionControl (info : TransmissionControl) : Encoding where
  bufferLength := warpProtocolHeaderLength + transmissionControlElementLength
  writes :=
    [(typeIndex, [typeControl]),
     (subtypeIndex, [subtypeTransmissionControl]),
     (transmissionNumElementIndex, [info.totalNumElement]),
     (transmissionOperationCodeIndex, [info.operationCode]),
     (warpProtocolHeaderLength.toNat + 2, info.bssid.toList),
     (transmissionDisabledIndex, [info.disabled]),
     (transmissionTxPowerIndex, [info.txPower]),
     (transmissionChannelIndex, [info.channel]),
     (transmissionRateIndex, [info.rate]),
     (transmissionHwModeIndex, [info.hwMode])]

def stationWrites (info : BssidControl) : List (ℕ × List UInt8) :=
  (List.range info.totalNumElement.toNat).map fun i =>
    (bssidStationMacAddrIndex + 6 * i, ((info.macAddr[i]?).map Vector.toList).getD [])

def createBssidControl (info : BssidControl) : Encoding where
  -- the sum is taken in the eight bits of `buffer_length`
  bufferLength := warpProtocolHeaderLength + bssidControlElementLength + 6 * info.totalNumElement
  writes :=
    [(typeIndex, [typeControl]),
     (subtypeIndex, [subtypeBssidControl]),
     (bssidNumElementIndex, [info.totalNumElement]),
     (bssidOperationCodeIndex, [info.operationCode]),
     (bssidBssidIndex, info.bssid.toList)] ++ stationWrites info

/-- What stops the decoder: an index past the end of the buffer, or control
reaching the end of `process_warp_layer` without a `return`. -/
inductive Fault
  | outOfBounds
  | missingReturn
  deriving DecidableEq

def byteAt (buffer : List UInt8) (i : ℕ) : Except Fault UInt8 :=
  match buffer[i]? with
  | some b => .ok b
  | none => .error .outOfBounds

/-- What `process_warp_layer` stored behind its untyped result pointer. -/
inductive Stored
  | untouched
  | payloadSize (n : UInt16)
  | macOperationCode (c : UInt8)
  | transmissionOperationCode (c : UInt8)
  | bssidOperationCode (c : UInt8)
  deriving DecidableEq

def checkWarpLayerType (buffer : List UInt8) : Except Fault UInt8 := do
  if (← byteAt buffer typeIndex) ≤ typeTransmit then
    byteAt buffer typeIndex
  else
    byteAt buffer subtypeIndex

def processWarpLayer (buffer : List UInt8) : Except Fault (Stored × ℕ) := do
  if (← byteAt buffer typeIndex) = typeTransmit then
    let msb ← byteAt buffer dataLengthMsbIndex
    let lsb ← byteAt buffer dataLengthLsbIndex
    return (.payloadSize ((msb.toUInt16 <<< 8) + lsb.toUInt16), headerOffset + 2)
  else if (← byteAt buffer typeIndex) = typeControl then
    let subtype ← byteAt buffer subtypeIndex
    if subtype = subtypeMacAddressControl then
      return (.macOperationCode (← byteAt buffer operationCodeIndex), headerOffset + 1)
    else if subtype = subtypeTransmissionControl then
      return (.transmissionOperationCode (← byteAt buffer transmissionOperationCodeIndex),
        headerOffset + 1)
    else if subtype = subtypeBssidControl then
      return (.bssidOperationCode (← byteAt buffer bssidOperationCodeIndex), headerOffset + 1)
    else
      return (.untouched, 0)
  else
    throw .missingReturn

theorem byteAt_buffer {e : Encoding} {malloc : ℕ → UInt8} {rest : List UInt8} {i : ℕ}
    (h : i < e.bufferLength.toNat) :
    byteAt (e.buffer malloc ++ rest) i = .ok (e.memory malloc i) := by
  have hl : i < (e.buffer malloc).length := by simpa [Encoding.buffer] using h
  have hb : (e.buffer malloc ++ rest)[i]? = some (e.memory malloc i) := by
    rw [List.getElem?_append_left hl, Encoding.buffer, load_getElem? h, Nat.zero_add]
  simp only [byteAt, hb]

/-- A control frame is classified by its subtype, and the decoder stores the byte
at the index it keeps for that subtype. -/
theorem decode_control {buffer : List UInt8} {subtype : UInt8}
    (ht : byteAt buffer typeIndex = .ok typeControl)
    (hs : byteAt buffer subtypeIndex = .ok subtype) :
    checkWarpLayerType buffer = .ok subtype := by
  simp only [checkWarpLayerType, ht, hs, bind, Except.bind]
  rfl

theorem process_mac_control {buffer : List UInt8} {c : UInt8}
    (ht : byteAt buffer typeIndex = .ok typeControl)
    (hs : byteAt buffer subtypeIndex = .ok subtypeMacAddressControl)
    (hc : byteAt buffer operationCodeIndex = .ok c) :
    processWarpLayer buffer = .ok (.macOperationCode c, headerOffset + 1) := by
  simp only [processWarpLayer, ht, hs, hc, bind, Except.bind]
  rfl

theorem process_transmission_control {buffer : List UInt8} {c : UInt8}
    (ht : byteAt buffer typeIndex = .ok typeControl)
    (hs : byteAt buffer subtypeIndex = .ok subtypeTransmissionControl)
    (hc : byteAt buffer transmissionOperationCodeIndex = .ok c) :
    processWarpLayer buffer = .ok (.transmissionOperationCode c, headerOffset + 1) := by
  simp only [processWarpLayer, ht, hs, hc, bind, Except.bind]
  rfl

theorem process_bssid_control {buffer : List UInt8} {c : UInt8}
    (ht : byteAt buffer typeIndex = .ok typeControl)
    (hs : byteAt buffer subtypeIndex = .ok subtypeBssidControl)
    (hc : byteAt buffer bssidOperationCodeIndex = .ok c) :
    processWarpLayer buffer = .ok (.bssidOperationCode c, headerOffset + 1) := by
  simp only [processWarpLayer, ht, hs, hc, bind, Except.bind]
  rfl

theorem createTransmit_buffer (info : Transmit) (subtype : UInt8) (malloc : ℕ → UInt8) :
    (createTransmit info subtype).buffer malloc =
      [typeTransmit, subtype, ((info.payloadSize >>> 8) &&& 0xff).toUInt8,
        (info.payloadSize &&& 0xff).toUInt8] := rfl

/-- The two bytes of a sixteen-bit field give it back. -/
theorem uint16_of_bytes (n : UInt16) :
    (((n >>> 8) &&& 0xff).toUInt8.toUInt16 <<< 8) + (n &&& 0xff).toUInt8.toUInt16 = n := by
  apply UInt16.toNat_inj.mp
  have hn := n.toNat_lt
  have hand (x : ℕ) : x &&& 255 = x % 256 := Nat.and_two_pow_sub_one_eq_mod x 8
  simp [hand, Nat.shiftRight_eq_div_pow, Nat.shiftLeft_eq]
  omega

theorem transmit_decode (info : Transmit) (subtype : UInt8) (malloc : ℕ → UInt8)
    (rest : List UInt8) :
    checkWarpLayerType ((createTransmit info subtype).buffer malloc ++ rest) = .ok typeTransmit ∧
    processWarpLayer ((createTransmit info subtype).buffer malloc ++ rest) =
      .ok (.payloadSize info.payloadSize, headerOffset + 2) := by
  refine ⟨rfl, ?_⟩
  rw [createTransmit_buffer]
  change Except.ok (Stored.payloadSize _, headerOffset + 2) = _
  rw [uint16_of_bytes]

theorem macControl_decode (info : MacControl) (malloc : ℕ → UInt8) (pad : List UInt8) :
    checkWarpLayerType ((createMacControl info).buffer malloc ++ pad) =
      .ok subtypeMacAddressControl ∧
    processWarpLayer ((createMacControl info).buffer malloc ++ pad) =
      .ok (.macOperationCode info.operationCode, headerOffset + 1) := by
  have hb (i : ℕ) (h : i < 9) : byteAt ((createMacControl info).buffer malloc ++ pad) i =
      .ok ((createMacControl info).memory malloc i) := byteAt_buffer h
  have ht := hb typeIndex (by decide)
  have hs := hb subtypeIndex (by decide)
  exact ⟨decode_control ht hs, process_mac_control ht hs (hb operationCodeIndex (by decide))⟩

theorem transmissionControl_decode (info : TransmissionControl) (malloc : ℕ → UInt8)
    (pad : List UInt8) :
    checkWarpLayerType ((createTransmissionControl info).buffer malloc ++ pad) =
      .ok subtypeTransmissionControl ∧
    processWarpLayer ((createTransmissionControl info).buffer malloc ++ pad) =
      .ok (.transmissionOperationCode info.operationCode, headerOffset + 1) := by
  have hb (i : ℕ) (h : i < 13) :
      byteAt ((createTransmissionControl info).buffer malloc ++ pad) i =
      .ok ((createTransmissionControl info).memory malloc i) := byteAt_buffer h
  have ht := hb typeIndex (by decide)
  have hs := hb subtypeIndex (by decide)
  exact ⟨decode_control ht hs,
    process_transmission_control ht hs (hb transmissionOperationCodeIndex (by decide))⟩

/-- The station loop starts after the header, so the header keeps what was written. -/
theorem bssidControl_memory (info : BssidControl) (malloc : ℕ → UInt8) {i : ℕ} (h : i < 10) :
    (createBssidControl info).memory malloc i =
      storeAll malloc [(typeIndex, [typeControl]), (subtypeIndex, [subtypeBssidControl]),
        (bssidNumElementIndex, [info.totalNumElement]),
        (bssidOperationCodeIndex, [info.operationCode]),
        (bssidBssidIndex, info.bssid.toList)] i := by
  rw [Encoding.memory, createBssidControl, storeAll_append]
  apply storeAll_below
  intro w hw
  obtain ⟨j, -, rfl⟩ := List.mem_map.mp hw
  change i < 10 + 6 * j
  omega

theorem bssidControl_operationCode (info : BssidControl) (malloc : ℕ → UInt8) :
    (createBssidControl info).memory malloc bssidOperationCodeIndex = info.operationCode := by
  rw [bssidControl_memory info malloc (by decide)]
  -- the address written at 3..8 ends just before the operation code
  change (info.bssid.toList[6]?).getD info.operationCode = info.operationCode
  rw [List.getElem?_eq_none (by simp), Option.getD_none]

theorem bssidControl_decode (info : BssidControl) (malloc : ℕ → UInt8) (pad : List UInt8)
    (hl : 10 ≤ (createBssidControl info).bufferLength.toNat) :
    checkWarpLayerType ((createBssidControl info).buffer malloc ++ pad) =
      .ok subtypeBssidControl ∧
    processWarpLayer ((createBssidControl info).buffer malloc ++ pad) =
      .ok (.bssidOperationCode info.operationCode, headerOffset + 1) := by
  have hb (i : ℕ) (h : i < 10) : byteAt ((createBssidControl info).buffer malloc ++ pad) i =
      .ok ((createBssidControl info).memory malloc i) := byteAt_buffer (by omega)
  have ht : byteAt ((createBssidControl info).buffer malloc ++ pad) typeIndex =
      .ok typeControl := by
    rw [hb typeIndex (by decide), bssidControl_memory info malloc (by decide)]
    rfl
  have hs : byteAt ((createBssidControl info).buffer malloc ++ pad) subtypeIndex =
      .ok subtypeBssidControl := by
    rw [hb subtypeIndex (by decide), bssidControl_memory info malloc (by decide)]
    rfl
  have hc := hb bssidOperationCodeIndex (by decide)
  rw [bssidControl_operationCode] at hc
  exact ⟨decode_control ht hs, process_bssid_control ht hs hc⟩

theorem bssidControl_bufferLength (info : BssidControl) (h : info.totalNumElement.toNat ≤ 1) :
    10 ≤ (createBssidControl info).bufferLength.toNat := by
  have hn : info.totalNumElement = 0 ∨ info.totalNumElement = 1 := by
    rw [← UInt8.toNat_inj, ← UInt8.toNat_inj]
    change info.totalNumElement.toNat = 0 ∨ info.totalNumElement.toNat = 1
    omega
  change 10 ≤ (warpProtocolHeaderLength + bssidControlElementLength +
    6 * info.totalNumElement).toNat
  rcases hn with hn | hn <;> rw [hn] <;> decide

/-- The decoder gives back what each encoder was given, whatever follows the
frame: the payload of a transmit frame, and the operation code of the control
packets the relay sends. -/
theorem warp_layer_round_trip (malloc : ℕ → UInt8) (pad : List UInt8) :
    (∀ (info : Transmit) (subtype : UInt8) (frame : List UInt8), frame.length ≤ 65535 →
      info.payloadSize = UInt16.ofNat frame.length →
      checkWarpLayerType ((createTransmit info subtype).buffer malloc ++ frame ++ pad) =
        .ok typeTransmit ∧
      ∃ size offset,
        processWarpLayer ((createTransmit info subtype).buffer malloc ++ frame ++ pad) =
          .ok (.payloadSize size, offset) ∧
        size.toNat = frame.length ∧
        (((createTransmit info subtype).buffer malloc ++ frame ++ pad).drop offset).take
          size.toNat = frame) ∧
    (∀ info : MacControl,
      checkWarpLayerType ((createMacControl info).buffer malloc ++ pad) =
        .ok subtypeMacAddressControl ∧
      ∃ offset, offset ≠ 0 ∧
        processWarpLayer ((createMacControl info).buffer malloc ++ pad) =
          .ok (.macOperationCode info.operationCode, offset)) ∧
    (∀ info : TransmissionControl,
      checkWarpLayerType ((createTransmissionControl info).buffer malloc ++ pad) =
        .ok subtypeTransmissionControl ∧
      ∃ offset, offset ≠ 0 ∧
        processWarpLayer ((createTransmissionControl info).buffer malloc ++ pad) =
          .ok (.transmissionOperationCode info.operationCode, offset)) ∧
    (∀ info : BssidControl, info.totalNumElement.toNat ≤ 1 →
      checkWarpLayerType ((createBssidControl info).buffer malloc ++ pad) =
        .ok subtypeBssidControl ∧
      ∃ offset, offset ≠ 0 ∧
        processWarpLayer ((createBssidControl info).buffer malloc ++ pad) =
          .ok (.bssidOperationCode info.operationCode, offset)) := by
  refine ⟨?_, ?_, ?_, ?_⟩
  · intro info subtype frame hf hi
    have hd := transmit_decode info subtype malloc (frame ++ pad)
    rw [← List.append_assoc] at hd
    have hsize : info.payloadSize.toNat = frame.length := by
      rw [hi, UInt16.toNat_ofNat']
      exact Nat.mod_eq_of_lt (by omega)
    refine ⟨hd.1, info.payloadSize, headerOffset + 2, hd.2, hsize, ?_⟩
    rw [hsize, createTransmit_buffer, List.append_assoc]
    exact List.take_left
  · intro info
    have hd := macControl_decode info malloc pad
    exact ⟨hd.1, headerOffset + 1, by decide, hd.2⟩
  · intro info
    have hd := transmissionControl_decode info malloc pad
    exact ⟨hd.1, headerOffset + 1, by decide, hd.2⟩
  · intro info hn
    have hd := bssidControl_decode info malloc pad (bssidControl_bufferLength info hn)
    exact ⟨hd.1, headerOffset + 1, by decide, hd.2⟩

/-- A three-byte frame with two bytes of padding, and a station association. -/
theorem warp_layer_round_trip_frame :
    (∃ size offset,
      processWarpLayer ((createTransmit ⟨0, 7, 3, #v[0, 0, 0, 0, 0, 0]⟩ 0).buffer
          (fun _ => 0) ++ [0x80, 0, 5] ++ [0, 0]) = .ok (.payloadSize size, offset) ∧
      size.toNat = 3) ∧
    checkWarpLayerType ((createBssidControl ⟨1, #v[0, 1, 2, 3, 4, 5],
      bssidStationAssociateCode, [#v[9, 8, 7, 6, 5, 4]], rfl⟩).buffer (fun _ => 0) ++ [0, 0]) =
      .ok subtypeBssidControl := by
  have h := warp_layer_round_trip (fun _ => 0) [0, 0]
  obtain ⟨size, offset, hp, hs, -⟩ :=
    (h.1 ⟨0, 7, 3, #v[0, 0, 0, 0, 0, 0]⟩ 0 [0x80, 0, 5] (by decide) (by decide)).2
  exact ⟨⟨size, offset, hp, hs⟩, (h.2.2.2 _ (by decide)).1⟩

end WarpProtocol

end AuroraRelay
