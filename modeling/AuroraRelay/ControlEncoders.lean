import Mathlib.Tactic.IntervalCases
import AuroraRelay.WarpProtocol

namespace AuroraRelay.WarpProtocol
open Memory

/-- The block `[w.1, w.1 + w.2.length)` lies in the allocated bytes. -/
def Encoding.Holds (e : Encoding) (w : ℕ × List UInt8) : Prop :=
  w.1 + w.2.length ≤ e.bufferLength.toNat

instance (e : Encoding) (w : ℕ × List UInt8) : Decidable (e.Holds w) :=
  inferInstanceAs (Decidable (_ ≤ _))

def field (packet : List UInt8) (index length : ℕ) : List UInt8 := (packet.drop index).take length

theorem mac_eq (m : Mac) : m = #v[m.get 0, m.get 1, m.get 2, m.get 3, m.get 4, m.get 5] := by
  apply Vector.ext
  intro i hi
  interval_cases i <;> rfl

/-- Each field of the struct is in the packet at its index. -/
structure KeepsFields (info : TransmissionControl) (packet : List UInt8) : Prop where
  totalNumElement : packet[transmissionNumElementIndex]? = some info.totalNumElement
  operationCode : packet[transmissionOperationCodeIndex]? = some info.operationCode
  bssid : field packet (warpProtocolHeaderLength.toNat + 2) 6 = info.bssid.toList
  disabled : packet[transmissionDisabledIndex]? = some info.disabled
  txPower : packet[transmissionTxPowerIndex]? = some info.txPower
  channel : packet[transmissionChannelIndex]? = some info.channel
  rate : packet[transmissionRateIndex]? = some info.rate
  hwMode : packet[transmissionHwModeIndex]? = some info.hwMode

/-- The packet ends with the channel. -/
theorem createTransmissionControl_buffer (info : TransmissionControl) (malloc : ℕ → UInt8) :
    (createTransmissionControl info).buffer malloc =
      [typeControl, subtypeTransmissionControl, info.totalNumElement, info.operationCode] ++
        info.bssid.toList ++ [info.disabled, info.txPower, info.channel] := by
  obtain ⟨total, bssid, disabled, txPower, channel, rate, hwMode, operationCode⟩ := info
  rw [mac_eq bssid]
  rfl

/-- The rate and the mode are written behind the buffer and get lost: the packet has no
byte at their indices, and it is the packet of a struct with any other rate and mode. -/
theorem transmission_control_loses_fields (info : TransmissionControl) (malloc : ℕ → UInt8) :
    ¬KeepsFields info ((createTransmissionControl info).buffer malloc) ∧
    (¬∀ w ∈ (createTransmissionControl info).writes, (createTransmissionControl info).Holds w) ∧
    ∃ other, other ≠ info ∧ (createTransmissionControl other).buffer malloc =
      (createTransmissionControl info).buffer malloc := by
  have hlength : ((createTransmissionControl info).buffer malloc).length = 13 := by
    simp [createTransmissionControl_buffer]
  refine ⟨fun h => ?_, fun h => ?_, { info with rate := info.rate + 1 }, fun h => ?_, ?_⟩
  · have hrate := h.rate
    rw [List.getElem?_eq_none (by rw [hlength])] at hrate
    cases hrate
  · have hrate : 13 + 1 ≤ 13 :=
      h (transmissionRateIndex, [info.rate]) (by simp [createTransmissionControl])
    omega
  · have hrate : info.rate + 1 = info.rate := congrArg TransmissionControl.rate h
    exact absurd hrate (by simp)
  · rw [createTransmissionControl_buffer, createTransmissionControl_buffer]

/-- A radio on channel 6 in mode `bgn`: neither the rate nor the mode is in the packet. -/
theorem transmission_control_without_rate :
    ¬∀ (info : TransmissionControl) (malloc : ℕ → UInt8),
      KeepsFields info ((createTransmissionControl info).buffer malloc) ∧
      (∀ w ∈ (createTransmissionControl info).writes, (createTransmissionControl info).Holds w) ∧
      ∀ other, (createTransmissionControl other).buffer malloc =
        (createTransmissionControl info).buffer malloc → other = info := by
  intro h
  have hrate := (h ⟨1, #v[2, 0, 0, 0, 0, 1], 0, 15, 6, 1, 7, 0⟩ fun _ => 0).1.rate
  exact absurd hrate (by decide)

/-- The packet has the announced number of stations, each at its place, and the copy loop
stays in the buffer. -/
structure KeepsStations (info : BssidControl) (packet : List UInt8) : Prop where
  length : packet.length = 10 + 6 * info.totalNumElement.toNat
  totalNumElement : packet[bssidNumElementIndex]? = some info.totalNumElement
  bssid : field packet bssidBssidIndex 6 = info.bssid.toList
  operationCode : packet[bssidOperationCodeIndex]? = some info.operationCode
  stations : ∀ i station, info.macAddr[i]? = some station →
    field packet (bssidStationMacAddrIndex + 6 * i) 6 = station.toList
  inside : ∀ w ∈ stationWrites info, (createBssidControl info).Holds w

theorem createBssidControl_bufferLength (info : BssidControl) :
    (createBssidControl info).bufferLength.toNat =
      (10 + 6 * info.totalNumElement.toNat) % 256 := by
  have hn := info.totalNumElement.toNat_lt
  change (2 + 8 + 6 * info.totalNumElement).toNat = _
  rw [UInt8.toNat_add, UInt8.toNat_mul]
  change (10 + 6 * info.totalNumElement.toNat % 256) % 256 = _
  omega

section Stations

variable {info : BssidControl} {malloc : ℕ → UInt8}

theorem station_index {i : ℕ} {station : Mac} (hi : info.macAddr[i]? = some station) :
    i < info.totalNumElement.toNat := by
  have h := (List.getElem?_eq_some_iff.mp hi).1
  rwa [info.macAddr_length] at h

/-- The copy loop writes six bytes for each station. -/
theorem stationWrites_length {i : ℕ} (hi : i < info.totalNumElement.toNat) :
    (((info.macAddr[i]?).map Vector.toList).getD []).length = 6 := by
  have hlt : i < info.macAddr.length := by rwa [info.macAddr_length]
  simp [List.getElem?_eq_getElem hlt]

theorem bssidControl_station_memory {i j : ℕ} {station : Mac}
    (hi : info.macAddr[i]? = some station) (hj : j < station.toList.length) :
    (createBssidControl info).memory malloc (bssidStationMacAddrIndex + 6 * i + j) =
      station.toList[j] := by
  rw [Encoding.memory, createBssidControl, storeAll_append, stationWrites]
  have hget : ((info.macAddr[i]?).map Vector.toList).getD [] = station.toList := by
    rw [hi]
    rfl
  rw [storeAll_blocks (fun i hi => stationWrites_length hi) (station_index hi) (by rwa [hget])]
  simp only [hget]

theorem bssidControl_bssid_memory {j : ℕ} (hj : j < info.bssid.toList.length) :
    (createBssidControl info).memory malloc (bssidBssidIndex + j) = info.bssid.toList[j] := by
  have hlt : 3 + j < 10 := by
    rw [Vector.length_toList] at hj
    omega
  rw [bssidControl_memory info malloc hlt]
  exact storeList_inside hj

/-- An address in the packet is what the memory holds there. -/
theorem field_buffer {e : Encoding} {index : ℕ} {address : Mac}
    (hfits : index + 6 ≤ e.bufferLength.toNat)
    (h : ∀ j (hj : j < address.toList.length),
      e.memory malloc (index + j) = address.toList[j]) :
    field (e.buffer malloc) index 6 = address.toList := by
  have hload := load_eq_iff.mpr h
  rw [Vector.length_toList] at hload
  rw [field, Encoding.buffer, take_drop_load hfits, Nat.zero_add, hload]

theorem buffer_getElem? {e : Encoding} {i : ℕ} (h : i < e.bufferLength.toNat) :
    (e.buffer malloc)[i]? = some (e.memory malloc i) := by
  rw [Encoding.buffer, load_getElem? h, Nat.zero_add]

theorem keepsStations_of_le (hn : info.totalNumElement.toNat ≤ 40) :
    KeepsStations info ((createBssidControl info).buffer malloc) := by
  have hlength := createBssidControl_bufferLength info
  rw [Nat.mod_eq_of_lt (by omega)] at hlength
  have hheader {i : ℕ} (hi : i < 10) : i < (createBssidControl info).bufferLength.toNat := by
    omega
  have hstation {i : ℕ} (hi : i < info.totalNumElement.toNat) :
      10 + 6 * i + 6 ≤ (createBssidControl info).bufferLength.toNat := by
    omega
  refine ⟨?_, ?_, ?_, ?_, fun i station hi => ?_, fun w hw => ?_⟩
  · rw [Encoding.buffer, load_length, hlength]
  · rw [buffer_getElem? (hheader (by decide)), bssidControl_memory info malloc (by decide)]
    rfl
  · exact field_buffer (hheader (show 8 < 10 by decide)) fun j hj => bssidControl_bssid_memory hj
  · rw [buffer_getElem? (hheader (by decide)), bssidControl_operationCode]
  · exact field_buffer (hstation (station_index hi)) fun j hj => bssidControl_station_memory hi hj
  · obtain ⟨i, hi, rfl⟩ := List.mem_map.mp hw
    rw [Encoding.Holds, stationWrites_length (List.mem_range.mp hi)]
    exact hstation (List.mem_range.mp hi)

end Stations

/-- The packet keeps its stations exactly if its length fits in eight bits. -/
theorem bssid_control_keeps_stations_iff (info : BssidControl) (malloc : ℕ → UInt8) :
    KeepsStations info ((createBssidControl info).buffer malloc) ↔ info.totalNumElement ≤ 40 := by
  have hlength := createBssidControl_bufferLength info
  rw [UInt8.le_iff_toNat_le]
  change _ ↔ info.totalNumElement.toNat ≤ 40
  constructor
  · intro h
    have hpacket := h.length
    rw [Encoding.buffer, load_length, hlength] at hpacket
    omega
  · exact keepsStations_of_le

/-- With 41 stations the length wraps to zero. -/
theorem bssid_control_of_41_stations :
    ¬∀ (info : BssidControl) (malloc : ℕ → UInt8),
      KeepsStations info ((createBssidControl info).buffer malloc) := by
  intro h
  have hlength := (h ⟨41, #v[2, 0, 0, 0, 0, 1], bssidStationAssociateCode,
    List.replicate 41 #v[0, 0x0e, 0x8e, 0, 0, 9], rfl⟩ fun _ => 0).length
  exact absurd hlength (by decide)

end AuroraRelay.WarpProtocol
