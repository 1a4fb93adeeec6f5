import AuroraRelay.CommandScript

namespace AuroraRelay.CommsAgent
open Interaction WarpProtocol

/-- The messages of the eight checks, in the order of the checks. -/
def fieldErrors : List String :=
  ["\"changes\" is not a valid json object", "radio is not a valid string",
    "macaddr is not a valid string", "Invalid mac address in json object.",
    "Invalid channel format.", "Invalid hw_mode format", "Invalid tx_power format.",
    "Invalid disabled format."]

def FieldError (command : String) (run : Trace × UInt8) : Prop :=
  run.2 &&& returnCodeError ≠ 0 ∧
    ∃ message ∈ fieldErrors, ⟨.setMessage (errorMsg command message), ()⟩ ∈ run.1

structure IsRadioSet (root : Json) (command : String) : Prop where
  isObject : ∃ members, root = .object members
  hasCommand : objectGet root jsonCommand = some (.string command)
  name : command = radioSetCmd ∨ command = radioBulkSetCmd

/-- If the command is refused because of a field, nothing has been sent to WARP. -/
def RefusedUntouched (jsonLoads : String → Option Json) (text command : String) : Prop :=
  ∀ answers, FieldError command (transcript answers (parseJson jsonLoads text)) →
    sent (transcript answers (parseJson jsonLoads text)).1 = []

structure Addressed (root : Json) (radio bssid : String) (macAddress : Mac) : Prop where
  hasChanges : ∃ members, objectGet root jsonChanges = some (.object members)
  hasRadio : objectGet root jsonRadio = some (.string radio)
  hasBssid : objectGet (objectGet root jsonChanges) jsonMacAddress = some (.string bssid)
  isAddress : parseMac bssid = some macAddress

structure Configured (root : Json) : Prop where
  channel : ∃ n, objectGet (objectGet root jsonChanges) jsonChannel = some (.integer n)
  hwmode : ∃ s, objectGet (objectGet root jsonChanges) jsonHwMode = some (.string s)
  txPower : ∃ n, objectGet (objectGet root jsonChanges) jsonTxPower = some (.integer n)
  disabled : ∃ n, objectGet (objectGet root jsonChanges) jsonDisabled = some (.integer n)

section

variable {root : Json} (command : String) {radio bssid : String} {macAddress : Mac}

theorem radioSet_addressed (h : Addressed root radio bssid macAddress) :
    radioSet root command =
      sync .sendMacAddrCntrl (.mac ⟨macAddCode, macAddress⟩) >>= fun _ =>
        timedSync .macAdd timeout >>= fun reply =>
          if reply.returnCode = -1 ∨ reply.response ≠ macAddCode then
            errorResponse command "WARP failed to add mac address, or the request timed out."
          else
            configureTransmission (objectGet root jsonChanges) command radio bssid macAddress := by
  obtain ⟨members, hchanges⟩ := h.hasChanges
  have hbssid := h.hasBssid
  rw [hchanges] at hbssid
  simp only [radioSet, hchanges, h.hasRadio, hbssid, h.isAddress]

theorem radioSet_not_addressed (h : ∀ radio bssid macAddress,
    ¬Addressed root radio bssid macAddress) :
    ∃ message ∈ fieldErrors, radioSet root command = errorResponse command message := by
  unfold radioSet
  dsimp only
  split
  · rename_i members hchanges
    split
    · rename_i radio hradio
      split
      · rename_i bssid hbssid
        split
        · rename_i macAddress hmac
          exact absurd ⟨⟨members, hchanges⟩, hradio, hbssid, hmac⟩ (h radio bssid macAddress)
        · exact ⟨_, by simp [fieldErrors], rfl⟩
      · exact ⟨_, by simp [fieldErrors], rfl⟩
    · exact ⟨_, by simp [fieldErrors], rfl⟩
  · exact ⟨_, by simp [fieldErrors], rfl⟩

def transmissionOf (macAddress : Mac) (channel : ℤ) (hwmode : String) (txPower disabled : ℤ) :
    TransmissionControl :=
  { defaultTransmissionControl macAddress with
    channel := byteOfInteger channel
    hwMode := parseHwmode hwmode
    txPower := byteOfInteger txPower
    disabled := byteOfInteger disabled }

theorem configureTransmission_of_fields (radio bssid : String) (macAddress : Mac)
    {channel txPower disabled : ℤ} {hwmode : String}
    (hchannel : objectGet (objectGet root jsonChanges) jsonChannel = some (.integer channel))
    (hhwmode : objectGet (objectGet root jsonChanges) jsonHwMode = some (.string hwmode))
    (htxPower : objectGet (objectGet root jsonChanges) jsonTxPower = some (.integer txPower))
    (hdisabled : objectGet (objectGet root jsonChanges) jsonDisabled = some (.integer disabled)) :
    configureTransmission (objectGet root jsonChanges) command radio bssid macAddress =
      sync .sendTransmissionCntrl
          (.transmission (transmissionOf macAddress channel hwmode txPower disabled)) >>= fun _ =>
        timedSync .transmissionCntrl timeout >>= fun reply =>
          if reply.returnCode = -1 ∨ reply.response ≠ transmissionConfigureSuccessCode then
            errorResponse command
              "WARP failed to set up the configuration requested, or the request timed out."
          else
            updateBssids .bssidAdd bssid >>= fun _ =>
              everythingOk returnCodeSendResponse command radio := by
  simp only [configureTransmission, transmissionOf, hchannel, hhwmode, htxPower, hdisabled]

theorem configureTransmission_not_configured (radio bssid : String) (macAddress : Mac)
    (h : ¬Configured root) :
    ∃ message ∈ fieldErrors,
      configureTransmission (objectGet root jsonChanges) command radio bssid macAddress =
        errorResponse command message := by
  unfold configureTransmission
  dsimp only
  split
  · rename_i channel hchannel
    split
    · rename_i hwmode hhwmode
      split
      · rename_i txPower htxPower
        split
        · rename_i disabled hdisabled
          exact absurd ⟨⟨_, hchannel⟩, ⟨_, hhwmode⟩, ⟨_, htxPower⟩, ⟨_, hdisabled⟩⟩ h
        · exact ⟨_, by simp [fieldErrors], rfl⟩
      · exact ⟨_, by simp [fieldErrors], rfl⟩
    · exact ⟨_, by simp [fieldErrors], rfl⟩
  · exact ⟨_, by simp [fieldErrors], rfl⟩

end

theorem errorMsg_inj {command message message' : String}
    (h : errorMsg command message = errorMsg command message') : message = message' := by
  unfold errorMsg at h
  exact (String.append_right_inj _).mp ((String.append_left_inj _).mp h)

section

variable {command radio bssid message : String} {answers : ℕ → TimedReply} {n : ℕ}

/-- What a program does and returns when it is the turn of the `n`-th answer. -/
def transcriptFrom (answers : ℕ → TimedReply) (n : ℕ) (p : Relay UInt8) : Trace × UInt8 :=
  ((p.run (answer answers) n).1, (p.run (answer answers) n).2.1)

theorem transcriptFrom_exchange {op wait : NodeOp} {packet : ControlPacket} {limit : ℕ}
    {next : TimedReply → Relay UInt8} :
    transcriptFrom answers n (sync op packet >>= fun _ => timedSync wait limit >>= next) =
      (⟨.sync op packet, ()⟩ :: ⟨.timedSync wait limit, answers n⟩ ::
        (transcriptFrom answers (n + 1) (next (answers n))).1,
      (transcriptFrom answers (n + 1) (next (answers n))).2) := rfl

theorem fieldError_exchange {op wait : NodeOp} {packet : ControlPacket} {limit : ℕ}
    {next : TimedReply → Relay UInt8} :
    FieldError command (transcriptFrom answers n
        (sync op packet >>= fun _ => timedSync wait limit >>= next)) ↔
      FieldError command (transcriptFrom answers (n + 1) (next (answers n))) := by
  simp [transcriptFrom_exchange, FieldError]

theorem fieldError_errorResponse :
    FieldError command (transcriptFrom answers n (errorResponse command message)) ↔
      message ∈ fieldErrors := by
  have hrun : transcriptFrom answers n (errorResponse command message) =
      ([⟨.setMessage (errorMsg command message), ()⟩],
        returnCodeError ||| returnCodeSendResponse) := rfl
  rw [hrun]
  constructor
  · rintro ⟨-, m, hm, he⟩
    have hmessage : errorMsg command m = errorMsg command message := by simpa using he
    rwa [errorMsg_inj hmessage] at hm
  · intro hm
    exact ⟨show (returnCodeError ||| returnCodeSendResponse) &&& returnCodeError ≠ 0 by decide,
      message, hm, by simp⟩

theorem not_fieldError_updated : ¬FieldError command (transcriptFrom answers n
    (updateBssids .bssidAdd bssid >>= fun _ =>
      everythingOk returnCodeSendResponse command radio)) := by
  rintro ⟨hcode, -⟩
  exact hcode (show (returnCodeOk ||| returnCodeSendResponse) &&& returnCodeError = 0 by decide)

end

theorem parseJson_radioSet {jsonLoads : String → Option Json} {text command : String} {root : Json}
    (hload : jsonLoads text = some root) (h : IsRadioSet root command) :
    parseJson jsonLoads text = radioSet root command := by
  obtain ⟨⟨members, rfl⟩, hcommand, hname⟩ := h
  simp only [parseJson, hload, runCommand, hcommand, if_pos hname]

section

variable {root : Json} {command radio bssid : String} {macAddress : Mac}

/-- With all fields in order, only WARP can refuse the command. -/
theorem not_fieldError_configured (answers : ℕ → TimedReply)
    (h : Addressed root radio bssid macAddress) (hconfigured : Configured root) :
    ¬FieldError command (transcript answers (radioSet root command)) := by
  change ¬FieldError command (transcriptFrom answers 0 (radioSet root command))
  rw [radioSet_addressed command h, fieldError_exchange]
  split_ifs with hadd
  · rw [fieldError_errorResponse]
    decide
  · obtain ⟨⟨_, hchannel⟩, ⟨_, hhwmode⟩, ⟨_, htxPower⟩, ⟨_, hdisabled⟩⟩ := hconfigured
    rw [configureTransmission_of_fields command radio bssid macAddress hchannel hhwmode htxPower
      hdisabled, fieldError_exchange]
    split_ifs with hset
    · rw [fieldError_errorResponse]
      decide
    · exact not_fieldError_updated

/-- Once the address has been added, a field that is out of order leaves it there. -/
theorem touched_not_configured (command : String)
    (h : Addressed root radio bssid macAddress) (hnot : ¬Configured root) :
    let run := transcript (fun _ => ⟨0, macAddCode⟩) (radioSet root command)
    FieldError command run ∧ sent run.1 ≠ [] := by
  intro run
  constructor
  · change FieldError command (transcriptFrom (fun _ => ⟨0, macAddCode⟩) 0 (radioSet root command))
    obtain ⟨message, hmessage, he⟩ := configureTransmission_not_configured command radio bssid
      macAddress hnot
    rw [radioSet_addressed command h, fieldError_exchange, if_neg (by decide), he,
      fieldError_errorResponse]
    exact hmessage
  · have hrun : run = transcript (fun _ => ⟨0, macAddCode⟩) _ := rfl
    rw [radioSet_addressed command h] at hrun
    rw [hrun]
    exact List.cons_ne_nil _ _

end

/-- A radio-set that is refused because of a field leaves WARP alone exactly if the fields
checked after the first request are in order or that request is not reached. -/
theorem radio_set_untouched_iff {jsonLoads : String → Option Json} {text command : String}
    {root : Json} (hload : jsonLoads text = some root) (h : IsRadioSet root command) :
    RefusedUntouched jsonLoads text command ↔
      ((∃ radio bssid macAddress, Addressed root radio bssid macAddress) → Configured root) := by
  rw [RefusedUntouched, parseJson_radioSet hload h]
  constructor
  · rintro huntouched ⟨radio, bssid, macAddress, haddressed⟩
    by_contra hnot
    obtain ⟨herror, hsent⟩ := touched_not_configured command haddressed hnot
    exact hsent (huntouched _ herror)
  · intro hfields answers herror
    by_cases haddressed : ∃ radio bssid macAddress, Addressed root radio bssid macAddress
    · obtain ⟨radio, bssid, macAddress, ha⟩ := haddressed
      have hconfigured := hfields ⟨radio, bssid, macAddress, ha⟩
      exact absurd herror (not_fieldError_configured answers ha hconfigured)
    · simp only [not_exists] at haddressed
      obtain ⟨message, -, he⟩ := radioSet_not_addressed command haddressed
      rw [he]
      rfl

def radioSetOf (changes : List (String × Json)) : Json :=
  .object [(jsonCommand, .string radioSetCmd), (jsonRadio, .string "radio0"),
    (jsonChanges, .object ((jsonMacAddress, .string "02:00:00:00:00:01") :: changes))]

def radioSetText (changes : String) : String :=
  "\x7b\"command\":\"_radio_set_command\",\"radio\":\"radio0\",\"changes\":\x7b" ++
    "\"macaddr\":\"02:00:00:00:00:01\"" ++ changes ++ "\x7d\x7d"

theorem isRadioSet_radioSetOf (changes : List (String × Json)) :
    IsRadioSet (radioSetOf changes) radioSetCmd := ⟨⟨_, rfl⟩, rfl, .inl rfl⟩

def radioSetConfirmed : ℕ → TimedReply
  | 0 => ⟨0, macAddCode⟩
  | _ => ⟨0, transmissionConfigureSuccessCode⟩

/-- A complete radio-set. -/
theorem radio_set_untouched_complete :
    let root := radioSetOf [(jsonChannel, .integer 6), (jsonHwMode, .string "bgn"),
      (jsonTxPower, .integer 15), (jsonDisabled, .integer 0)]
    RefusedUntouched (fun _ => some root)
      (radioSetText ",\"channel\":6,\"hwmode\":\"bgn\",\"txpower\":15,\"disabled\":0")
      radioSetCmd :=
  (radio_set_untouched_iff rfl (isRadioSet_radioSetOf _)).mpr fun _ =>
    ⟨⟨6, rfl⟩, ⟨"bgn", rfl⟩, ⟨15, rfl⟩, ⟨0, rfl⟩⟩

/-- Without a channel, the command is refused after the address has been added. -/
theorem radio_set_without_channel :
    ¬∀ (jsonLoads : String → Option Json) (text command : String) (root : Json),
      jsonLoads text = some root → IsRadioSet root command →
        RefusedUntouched jsonLoads text command := by
  intro h
  have huntouched := h (fun _ => some (radioSetOf [])) (radioSetText "") radioSetCmd
    (radioSetOf []) rfl (isRadioSet_radioSetOf [])
  have haddressed : Addressed (radioSetOf []) "radio0" "02:00:00:00:00:01" #v[2, 0, 0, 0, 0, 1] :=
    ⟨⟨_, rfl⟩, rfl, rfl, by decide⟩
  have hnot : ¬Configured (radioSetOf []) := by
    rintro ⟨⟨n, hn⟩, -, -, -⟩
    cases hn
  obtain ⟨herror, hsent⟩ := touched_not_configured radioSetCmd haddressed hnot
  rw [RefusedUntouched, parseJson_radioSet rfl (isRadioSet_radioSetOf [])] at huntouched
  exact hsent (huntouched _ herror)

end AuroraRelay.CommsAgent
