import AuroraRelay.ControlEncoders
import AuroraRelay.RadioSet

namespace AuroraRelay.CommsAgent
open Interaction WarpProtocol

def FitsByte (value : ℤ) : Prop := 0 ≤ value ∧ value < 256

instance (value : ℤ) : Decidable (FitsByte value) := inferInstanceAs (Decidable (_ ∧ _))

theorem byteOfInteger_eq_iff (value : ℤ) :
    ((byteOfInteger value).toNat : ℤ) = value ↔ FitsByte value := by
  have hnat : ((byteOfInteger value).toNat : ℤ) = value % 256 := by
    rw [byteOfInteger, UInt8.toNat_ofNat']
    omega
  rw [hnat, FitsByte]
  omega

def Carries (packet : List UInt8) (channel txPower disabled : ℤ) : Prop :=
  (packet[transmissionChannelIndex]?.map fun b => (b.toNat : ℤ)) = some channel ∧
  (packet[transmissionTxPowerIndex]?.map fun b => (b.toNat : ℤ)) = some txPower ∧
  (packet[transmissionDisabledIndex]?.map fun b => (b.toNat : ℤ)) = some disabled

theorem carries_iff (macAddress : Mac) (channel : ℤ) (hwmode : String) (txPower disabled : ℤ)
    (malloc : ℕ → UInt8) :
    Carries ((createTransmissionControl
        (transmissionOf macAddress channel hwmode txPower disabled)).buffer malloc)
      channel txPower disabled ↔ FitsByte channel ∧ FitsByte txPower ∧ FitsByte disabled := by
  rw [createTransmissionControl_buffer, Carries, ← byteOfInteger_eq_iff channel,
    ← byteOfInteger_eq_iff txPower, ← byteOfInteger_eq_iff disabled]
  simp [transmissionOf, defaultTransmissionControl]

section

variable {root : Json} {command : String} {answers : ℕ → TimedReply} {n : ℕ}

def Succeeds (code : UInt8) : Prop := code &&& returnCodeError = 0

theorem not_succeeds_errorResponse (message : String) :
    ¬Succeeds (transcriptFrom answers n (errorResponse command message)).2 :=
  show ¬(returnCodeError ||| returnCodeSendResponse) &&& returnCodeError = 0 by decide

theorem sent_of_succeeds (h : Succeeds (transcript answers (radioSet root command)).2)
    {channel txPower disabled : ℤ}
    (hchannel : objectGet (objectGet root jsonChanges) jsonChannel = some (.integer channel))
    (htxPower : objectGet (objectGet root jsonChanges) jsonTxPower = some (.integer txPower))
    (hdisabled : objectGet (objectGet root jsonChanges) jsonDisabled = some (.integer disabled)) :
    ∃ macAddress hwmode, sent (transcript answers (radioSet root command)).1 =
      [.mac ⟨macAddCode, macAddress⟩,
        .transmission (transmissionOf macAddress channel hwmode txPower disabled)] := by
  change Succeeds (transcriptFrom answers 0 (radioSet root command)).2 at h
  change ∃ macAddress hwmode, sent (transcriptFrom answers 0 (radioSet root command)).1 = _
  by_cases haddressed : ∃ radio bssid macAddress, Addressed root radio bssid macAddress
  · obtain ⟨radio, bssid, macAddress, ha⟩ := haddressed
    rw [radioSet_addressed command ha, transcriptFrom_exchange] at h ⊢
    dsimp only at h ⊢
    split_ifs at h ⊢ with hadd
    · exact absurd h (not_succeeds_errorResponse _)
    · by_cases hconfigured : Configured root
      · obtain ⟨hwmode, hhwmode⟩ := hconfigured.hwmode
        rw [configureTransmission_of_fields command radio bssid macAddress hchannel hhwmode
          htxPower hdisabled, transcriptFrom_exchange] at h ⊢
        dsimp only at h ⊢
        split_ifs at h ⊢ with hset
        · exact absurd h (not_succeeds_errorResponse _)
        · exact ⟨macAddress, hwmode, rfl⟩
      · obtain ⟨message, -, he⟩ := configureTransmission_not_configured command radio bssid
          macAddress hconfigured
        rw [he] at h
        exact absurd h (not_succeeds_errorResponse _)
  · simp only [not_exists] at haddressed
    obtain ⟨message, -, he⟩ := radioSet_not_addressed command haddressed
    rw [he] at h
    exact absurd h (not_succeeds_errorResponse _)

end

/-- The board got the address and then the three parameters as they stand in the command. -/
def ParametersSent (t : Trace) (malloc : ℕ → UInt8) (channel txPower disabled : ℤ) : Prop :=
  ∃ address info, sent t = [.mac address, .transmission info] ∧
    Carries ((ControlPacket.transmission info).encode.buffer malloc) channel txPower disabled

theorem parametersSent_iff {root : Json} {command : String} {answers : ℕ → TimedReply}
    (h : Succeeds (transcript answers (radioSet root command)).2) {channel txPower disabled : ℤ}
    (hchannel : objectGet (objectGet root jsonChanges) jsonChannel = some (.integer channel))
    (htxPower : objectGet (objectGet root jsonChanges) jsonTxPower = some (.integer txPower))
    (hdisabled : objectGet (objectGet root jsonChanges) jsonDisabled = some (.integer disabled))
    (malloc : ℕ → UInt8) :
    ParametersSent (transcript answers (radioSet root command)).1 malloc channel txPower disabled ↔
      FitsByte channel ∧ FitsByte txPower ∧ FitsByte disabled := by
  obtain ⟨macAddress, hwmode, hsent⟩ := sent_of_succeeds h hchannel htxPower hdisabled
  rw [← carries_iff macAddress channel hwmode txPower disabled malloc, ParametersSent, hsent]
  constructor
  · rintro ⟨address, info, heq, hcarries⟩
    simp only [List.cons.injEq, ControlPacket.transmission.injEq, and_true] at heq
    rwa [heq.2]
  · intro hcarries
    exact ⟨_, _, rfl, hcarries⟩

/-- A radio-set that succeeds has sent its parameters unchanged exactly if all three are
bytes. -/
theorem radio_parameters_sent_iff {jsonLoads : String → Option Json} {text command : String}
    {root : Json} (hload : jsonLoads text = some root) (h : IsRadioSet root command)
    {answers : ℕ → TimedReply}
    (hok : (transcript answers (parseJson jsonLoads text)).2 &&& returnCodeError = 0)
    {channel txPower disabled : ℤ}
    (hchannel : objectGet (objectGet root jsonChanges) jsonChannel = some (.integer channel))
    (htxPower : objectGet (objectGet root jsonChanges) jsonTxPower = some (.integer txPower))
    (hdisabled : objectGet (objectGet root jsonChanges) jsonDisabled = some (.integer disabled))
    (malloc : ℕ → UInt8) :
    ParametersSent (transcript answers (parseJson jsonLoads text)).1 malloc
        channel txPower disabled ↔
      FitsByte channel ∧ FitsByte txPower ∧ FitsByte disabled := by
  rw [parseJson_radioSet hload h] at hok ⊢
  exact parametersSent_iff hok hchannel htxPower hdisabled malloc

theorem radio_parameters_sent_channel_six :
    let root := radioSetOf [(jsonChannel, .integer 6), (jsonHwMode, .string "bgn"),
      (jsonTxPower, .integer 15), (jsonDisabled, .integer 0)]
    ParametersSent (transcript radioSetConfirmed (parseJson (fun _ => some root)
      (radioSetText ",\"channel\":6,\"hwmode\":\"bgn\",\"txpower\":15,\"disabled\":0"))).1
      (fun _ => 0) 6 15 0 := by
  intro root
  exact (radio_parameters_sent_iff rfl (isRadioSet_radioSetOf _) (by decide +kernel) rfl rfl rfl
    _).mpr (by decide)

/-- Channel 262 is confirmed and set up as channel 6. -/
theorem radio_set_on_channel_262 :
    let root := radioSetOf [(jsonChannel, .integer 262), (jsonHwMode, .string "bgn"),
      (jsonTxPower, .integer 15), (jsonDisabled, .integer 0)]
    let run := transcript radioSetConfirmed (parseJson (fun _ => some root)
      (radioSetText ",\"channel\":262,\"hwmode\":\"bgn\",\"txpower\":15,\"disabled\":0"))
    run.2 &&& returnCodeError = 0 ∧ ¬ParametersSent run.1 (fun _ => 0) 262 15 0 := by
  intro root run
  have hrun : run = transcript radioSetConfirmed (radioSet root radioSetCmd) :=
    congrArg (transcript radioSetConfirmed) (parseJson_radioSet rfl (isRadioSet_radioSetOf _))
  have hok : run.2 &&& returnCodeError = 0 := by decide +kernel
  refine ⟨hok, fun hsent => ?_⟩
  rw [hrun] at hok hsent
  exact absurd ((parametersSent_iff hok rfl rfl rfl _).mp hsent).1 (by decide)

end AuroraRelay.CommsAgent
