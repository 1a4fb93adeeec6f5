import AuroraRelay.RadioSet

namespace AuroraRelay.CommsAgent
open Interaction WarpProtocol

def errorTexts : List String :=
  fieldErrors ++
    ["macaddr is not a string.",
      "WARP failed to add mac address, or the request timed out.",
      "WARP failed to set up the configuration requested, or the request timed out.",
      "WARP failed to clear station associations, or the request timed out.",
      "WARP failed to remove mac address, or the request timed out."]

structure MindsMessages {σ : Type} (M : Monitor Call Reply σ) : Prop where
  sync : ∀ s op packet, M s (.sync op packet) = some fun _ => s
  timedSync : ∀ s op limit, M s (.timedSync op limit) = some fun _ => s
  updateBssids : ∀ s op text, M s (.updateBssids op text) = some fun _ => s

section Exits

variable {σ : Type} {M : Monitor Call Reply σ} {Q : σ → UInt8 → Prop} {s : σ}
variable {command : String}

theorem MindsMessages.exchange (hM : MindsMessages M) {op op' : NodeOp} {packet : ControlPacket}
    {limit : ℕ} {failed : TimedReply → Prop} [DecidablePred failed] {giveUp next : Relay UInt8}
    (hgiveUp : Obeys M Q s giveUp) (hnext : Obeys M Q s next) :
    Obeys M Q s
      (CommsAgent.sync op packet >>= fun _ => CommsAgent.timedSync op' limit >>= fun reply =>
        if failed reply then giveUp else next) := by
  refine ⟨_, hM.sync s op packet, fun _ => ⟨_, hM.timedSync s op' limit, fun reply => ?_⟩⟩
  change Obeys M Q s (if failed reply then giveUp else next)
  split_ifs
  · exact hgiveUp
  · exact hnext

theorem MindsMessages.update (hM : MindsMessages M) {op : NodeOp} {text : String}
    {next : Relay UInt8} (h : Obeys M Q s next) :
    Obeys M Q s (CommsAgent.updateBssids op text >>= fun _ => next) :=
  ⟨_, hM.updateBssids s op text, fun _ => h⟩

theorem configureTransmission_responds (hM : MindsMessages M)
    (herror : ∀ info ∈ errorTexts, Obeys M Q s (errorResponse command info))
    {changes : Option Json} {radio bssid : String} {b : Mac}
    (hok : Obeys M Q s (everythingOk returnCodeSendResponse command radio)) :
    Obeys M Q s (configureTransmission changes command radio bssid b) := by
  unfold configureTransmission
  dsimp only
  split
  · split
    · split
      · split
        · exact hM.exchange (herror _ (by simp [errorTexts, fieldErrors])) (hM.update hok)
        · exact herror _ (by simp [errorTexts, fieldErrors])
      · exact herror _ (by simp [errorTexts, fieldErrors])
    · exact herror _ (by simp [errorTexts, fieldErrors])
  · exact herror _ (by simp [errorTexts, fieldErrors])

theorem radioSet_responds (hM : MindsMessages M)
    (herror : ∀ info ∈ errorTexts, Obeys M Q s (errorResponse command info)) {root : Json}
    (hok : ∀ radio, objectGet root jsonRadio = some (.string radio) →
      Obeys M Q s (everythingOk returnCodeSendResponse command radio)) :
    Obeys M Q s (radioSet root command) := by
  unfold radioSet
  dsimp only
  split
  · split
    · rename_i hradio
      split
      · split
        · exact hM.exchange (herror _ (by simp [errorTexts, fieldErrors]))
            (configureTransmission_responds hM herror (hok _ hradio))
        · exact herror _ (by simp [errorTexts, fieldErrors])
      · exact herror _ (by simp [errorTexts, fieldErrors])
    · exact herror _ (by simp [errorTexts, fieldErrors])
  · exact herror _ (by simp [errorTexts, fieldErrors])

theorem removeMac_responds (hM : MindsMessages M)
    (herror : ∀ info ∈ errorTexts, Obeys M Q s (errorResponse command info))
    {radio bssid : String}
    (hok : Obeys M Q s (everythingOk returnCodeSendResponse command radio)) :
    Obeys M Q s (removeMac command radio bssid) := by
  unfold removeMac
  split
  · exact hM.exchange (herror _ (by simp [errorTexts, fieldErrors])) (hM.update hok)
  · exact herror _ (by simp [errorTexts, fieldErrors])

theorem deleteBssid_responds (hM : MindsMessages M)
    (herror : ∀ info ∈ errorTexts, Obeys M Q s (errorResponse command info)) {root : Json}
    (hok : ∀ radio, objectGet root jsonRadio = some (.string radio) →
      Obeys M Q s (everythingOk returnCodeSendResponse command radio)) :
    Obeys M Q s (deleteBssid root command) := by
  unfold deleteBssid
  dsimp only
  split
  · rename_i hradio
    split
    · split
      · exact hM.exchange (herror _ (by simp [errorTexts, fieldErrors]))
          (removeMac_responds hM herror (hok _ hradio))
      · exact herror _ (by simp [errorTexts, fieldErrors])
    · exact herror _ (by simp [errorTexts, fieldErrors])
  · exact herror _ (by simp [errorTexts, fieldErrors])

/-- The station commands are silent. -/
theorem stationCommand_silent (hM : MindsMessages M)
    (herror : Q s (returnCodeError ||| returnCodeNoResponse))
    (hok : Q s (returnCodeOk ||| returnCodeNoResponse)) (code already : UInt8) (op : NodeOp)
    (root : Json) : Obeys M Q s (stationCommand code already op root command) := by
  unfold stationCommand
  dsimp only
  split
  · split
    · split
      · split
        · split
          · exact hM.exchange herror (hM.update hok)
          · exact herror
        · exact herror
      · exact herror
    · exact herror
  · exact herror

end Exits

def answeredCommands : List String :=
  [radioSetCmd, radioBulkSetCmd, uciDeleteSection, uciDeleteBss]

def commandOf : Json → Option String
  | .object members =>
    match members.lookup jsonCommand with
    | some (.string command) => some command
    | _ => none
  | _ => none

theorem runCommand_of_no_command {root : Json} (h : commandOf root = none) :
    runCommand root = .ret (returnCodeError ||| returnCodeNoResponse) := by
  unfold runCommand
  split
  · split
    · rename_i command hcommand
      simp only [objectGet] at hcommand
      simp [commandOf, hcommand] at h
    · rfl
  · rfl

theorem objectGet_command {root : Json} {command : String} (h : commandOf root = some command) :
    objectGet root jsonCommand = some (.string command) := by
  unfold commandOf at h
  split at h
  · split at h
    · rename_i text htext
      obtain rfl := Option.some.inj h
      simp only [objectGet, htext]
    · cases h
  · cases h

/-- The exits of a command that is answered, and of one that is not. -/
theorem runCommand_responds {σ : Type} {M : Monitor Call Reply σ} {Q : σ → UInt8 → Prop} {s : σ}
    (hM : MindsMessages M) {root : Json}
    (herror : ∀ command ∈ answeredCommands, commandOf root = some command →
      ∀ info ∈ errorTexts, Obeys M Q s (errorResponse command info))
    (hok : ∀ command ∈ answeredCommands, commandOf root = some command →
      ∀ radio, objectGet root jsonRadio = some (.string radio) →
        Obeys M Q s (everythingOk returnCodeSendResponse command radio))
    (hsilent : (∀ command ∈ answeredCommands, commandOf root ≠ some command) →
      Q s (returnCodeError ||| returnCodeNoResponse) ∧
        Q s (returnCodeOk ||| returnCodeNoResponse)) :
    Obeys M Q s (runCommand root) := by
  cases hc : commandOf root with
  | none =>
    rw [runCommand_of_no_command hc]
    exact (hsilent (by simp [hc])).1
  | some command =>
    rw [runCommand_of_command (objectGet_command hc)]
    by_cases hmem : command ∈ answeredCommands
    · have he := herror command hmem hc
      have ho := hok command hmem hc
      split_ifs with h1 h2 h3 h4
      · exact radioSet_responds hM he ho
      · exact deleteBssid_responds hM he ho
      · exact absurd hmem (h3 ▸ by decide)
      · exact absurd hmem (h4 ▸ by decide)
      · exact absurd hmem (by simp [answeredCommands]; tauto)
    · obtain ⟨he, ho⟩ := hsilent fun c hmem' hc' =>
        hmem (Option.some.inj (hc.symm.trans hc') ▸ hmem')
      split_ifs with h1 h2
      · exact absurd (by simp [answeredCommands]; tauto) hmem
      · exact absurd (by simp [answeredCommands]; tauto) hmem
      · exact stationCommand_silent hM he ho _ _ _ _
      · exact stationCommand_silent hM he ho _ _ _ _
      · exact ho

def messages (t : Trace) : List String :=
  t.flatMap fun
    | ⟨.setMessage message, _⟩ => [message]
    | _ => []

def recorder : Monitor Call Reply (List String)
  | s, .setMessage message => some fun _ => s ++ [message]
  | s, .sync _ _ => some fun _ => s
  | s, .timedSync _ _ => some fun _ => s
  | s, .updateBssids _ _ => some fun _ => s

theorem mindsMessages_recorder : MindsMessages recorder :=
  ⟨fun _ _ _ => rfl, fun _ _ _ => rfl, fun _ _ _ => rfl⟩

theorem observe_recorder (t : Trace) (s : List String) :
    observe recorder s t = some (s ++ messages t) := by
  induction t generalizing s with
  | nil => simp [observe, messages]
  | cons e t ih =>
    obtain ⟨c, r⟩ := e
    cases c with
    | setMessage message =>
      refine (ih (s ++ [message])).trans ?_
      simp [messages]
    | sync op packet => exact ih s
    | timedSync op limit => exact ih s
    | updateBssids op text => exact ih s

/-- The response of `set_success_msg`, whatever its radio and error texts are. -/
def ReportsSuccess (command message : String) : Prop :=
  ∃ radio info, message = successMsg command radio info

def ReportsFailure (command message : String) : Prop :=
  ∃ info, message = errorMsg command info

theorem successMsg_ne_errorMsg (command radio info info' : String) :
    successMsg command radio info ≠ errorMsg command info' := by
  intro h
  unfold successMsg errorMsg at h
  have hlist := congrArg String.toList h
  simp only [String.toList_append, List.append_assoc] at hlist
  -- the member after the command is the radio in one and the changes in the other
  have hnext := congrArg (List.take 5)
    (List.append_cancel_left (List.append_cancel_left (List.append_cancel_left hlist)))
  rw [List.take_append_of_le_length (by decide), List.take_append_of_le_length (by decide)] at hnext
  exact absurd hnext (by decide)

/-- What a command leaves behind: no message, or one, and which one it is. -/
structure Responded (root : Option Json) (messages : List String) (code : UInt8) : Prop where
  sendIff : code &&& returnCodeSendResponse ≠ 0 ↔ messages.length = 1
  silentIff : code &&& returnCodeNoResponse ≠ 0 ↔ messages = []
  answered : ∀ command ∈ answeredCommands, root.bind commandOf = some command →
    ∃ message, messages = [message] ∧
      (ReportsSuccess command message ↔ code &&& returnCodeError = 0) ∧
      (ReportsFailure command message ↔ code &&& returnCodeError ≠ 0)

theorem responded_of_one {root : Option Json} {message : String} {code : UInt8}
    (hsend : code &&& returnCodeSendResponse ≠ 0) (hsilent : code &&& returnCodeNoResponse = 0)
    (h : ∀ command, root.bind commandOf = some command →
      (ReportsSuccess command message ↔ code &&& returnCodeError = 0) ∧
      (ReportsFailure command message ↔ code &&& returnCodeError ≠ 0)) :
    Responded root [message] code :=
  ⟨by simp [hsend], by simp [hsilent], fun command _ hc => ⟨message, rfl, h command hc⟩⟩

theorem errorResponse_responded {root : Json} {command : String} (h : commandOf root = some command)
    (info : String) : Obeys recorder (Responded root) [] (errorResponse command info) := by
  refine ⟨_, rfl, fun _ => responded_of_one (by decide) (by decide) fun command' hc => ?_⟩
  obtain rfl := Option.some.inj (h.symm.trans hc)
  constructor
  · refine iff_of_false ?_ (by decide)
    rintro ⟨radio, info', he⟩
    exact successMsg_ne_errorMsg _ _ _ _ he.symm
  · exact iff_of_true ⟨info, rfl⟩ (by decide)

theorem everythingOk_responded {root : Json} {command : String} (h : commandOf root = some command)
    (radio : String) :
    Obeys recorder (Responded root) []
      (everythingOk returnCodeSendResponse command radio) := by
  refine ⟨_, rfl, fun _ => responded_of_one (by decide) (by decide) fun command' hc => ?_⟩
  obtain rfl := Option.some.inj (h.symm.trans hc)
  constructor
  · exact iff_of_true ⟨radio, "", rfl⟩ (by decide)
  · refine iff_of_false ?_ (by decide)
    rintro ⟨info, he⟩
    exact successMsg_ne_errorMsg _ _ _ _ he

theorem silent_responded {root : Option Json} {code : UInt8}
    (h : ∀ command ∈ answeredCommands, root.bind commandOf ≠ some command)
    (hsend : code &&& returnCodeSendResponse = 0) (hsilent : code &&& returnCodeNoResponse ≠ 0) :
    Responded root [] code :=
  ⟨by simp [hsend], by simp [hsilent], fun command hmem hc => absurd hc (h command hmem)⟩

theorem parseJson_responded (jsonLoads : String → Option Json) (text : String) :
    Obeys recorder (Responded (jsonLoads text)) [] (parseJson jsonLoads text) := by
  unfold parseJson
  cases hl : jsonLoads text with
  | none =>
    dsimp only
    split_ifs
    · exact ⟨_, rfl, fun _ => responded_of_one (by decide) (by decide) fun _ hc => (by cases hc)⟩
    · exact silent_responded (fun _ _ hc => (by cases hc)) (by decide) (by decide)
  | some root =>
    refine runCommand_responds mindsMessages_recorder ?_ ?_ fun h => ⟨?_, ?_⟩
    · exact fun command _ hc info _ => errorResponse_responded hc info
    · exact fun command _ hc radio _ => everythingOk_responded hc radio
    · exact silent_responded h (by decide) (by decide)
    · exact silent_responded h (by decide) (by decide)

/-- Every command, for all answers of WARP: the return code says whether
`send_message` was replaced, and the commands of the controller that are answered get one
response, a success exactly when the code is no error. -/
theorem return_code_agrees_with_response (jsonLoads : String → Option Json) (text : String)
    (answers : ℕ → TimedReply) :
    let t := (transcript answers (parseJson jsonLoads text)).1
    let code := (transcript answers (parseJson jsonLoads text)).2
    (code &&& returnCodeSendResponse ≠ 0 ↔ (messages t).length = 1) ∧
    (code &&& returnCodeNoResponse ≠ 0 ↔ messages t = []) ∧
    ∀ command ∈ [radioSetCmd, radioBulkSetCmd, uciDeleteSection, uciDeleteBss],
      (jsonLoads text).bind commandOf = some command →
      ∃ message, messages t = [message] ∧
        (ReportsSuccess command message ↔ code &&& returnCodeError = 0) ∧
        (ReportsFailure command message ↔ code &&& returnCodeError ≠ 0) := by
  intro t code
  obtain ⟨s, hs, hr⟩ := (parseJson_responded jsonLoads text).observe_run (answer answers) 0
  rw [observe_recorder, List.nil_append] at hs
  obtain rfl := Option.some.inj hs
  exact ⟨hr.sendIff, hr.silentIff, hr.answered⟩

theorem return_code_agrees_with_response_radio_set :
    let root := radioSetOf [(jsonChannel, .integer 6), (jsonHwMode, .string "bgn"),
      (jsonTxPower, .integer 15), (jsonDisabled, .integer 0)]
    let run := transcript radioSetConfirmed (parseJson (fun _ => some root)
      (radioSetText ",\"channel\":6,\"hwmode\":\"bgn\",\"txpower\":15,\"disabled\":0"))
    ∃ message, messages run.1 = [message] ∧ ReportsSuccess radioSetCmd message := by
  intro root run
  obtain ⟨message, hm, hsuccess, -⟩ :=
    (return_code_agrees_with_response (fun _ => some root) _ radioSetConfirmed).2.2
      radioSetCmd (by decide) rfl
  exact ⟨message, hm, hsuccess.mpr (by decide +kernel)⟩

end AuroraRelay.CommsAgent
