import AuroraRelay.Lib.JsonText
import AuroraRelay.Execution
import AuroraRelay.ResponseDelivery

namespace AuroraRelay.ResponseDelivery
open CommsAgent Interaction JsonText

theorem formatted_append_of_plain {p : List Char} (hp : '%' ∉ p) (cs : List Char) :
    formatted (p ++ cs) = (formatted cs).map (p ++ ·) := by
  induction p with
  | nil => simp
  | cons c p ih =>
    obtain ⟨hc, hp⟩ := not_or.mp fun h => hp (List.mem_cons.mpr h)
    rw [List.cons_append, formatted, ih hp, Option.map_map]
    · rfl
    · exact fun _ hc' => absurd hc'.symm hc
    · exact fun hc' => hc hc'.symm

/-- A conversion does not reach over a character that is none. -/
theorem formatted_append {r q out : List Char} (hq : '%' ∉ q)
    (h : formatted (r ++ '"' :: q) = some out) :
    ∃ r', formatted r = some r' ∧ out = r' ++ '"' :: q := by
  induction r using formatted.induct generalizing out with
  | case1 =>
    refine ⟨[], rfl, ?_⟩
    rw [List.nil_append, formatted_plain (by simp [hq])] at h
    exact (Option.some.inj h).symm
  | case2 cs ih =>
    obtain ⟨out', hout, rfl⟩ := Option.map_eq_some_iff.mp h
    obtain ⟨r', hr, rfl⟩ := ih hout
    exact ⟨'%' :: r', by simp [formatted, hr], rfl⟩
  | case3 cs hcs =>
    rw [List.cons_append, formatted] at h
    · cases h
    · intro cs' heq
      cases cs with
      | nil => simp at heq
      | cons d cs => exact hcs cs (by rw [(List.cons.inj heq).1])
  | case4 c cs h₁ h₂ ih =>
    rw [List.cons_append, formatted] at h
    · obtain ⟨out', hout, rfl⟩ := Option.map_eq_some_iff.mp h
      obtain ⟨r', hr, rfl⟩ := ih hout
      refine ⟨c :: r', ?_, rfl⟩
      rw [formatted, hr]
      · rfl
      · exact h₁
      · exact h₂
    · exact fun _ hc => absurd hc h₂
    · exact h₂

/-- What is formatted loses a character at each conversion. -/
theorem formatted_length {r r' : List Char} (h : formatted r = some r') :
    r'.length ≤ r.length ∧ (r'.length = r.length → '%' ∉ r) := by
  induction r using formatted.induct generalizing r' with
  | case1 =>
    obtain rfl := Option.some.inj h
    simp
  | case2 cs ih =>
    obtain ⟨out, hout, rfl⟩ := Option.map_eq_some_iff.mp h
    have hle := (ih hout).1
    simp only [List.length_cons]
    exact ⟨by omega, by omega⟩
  | case3 cs hcs =>
    rw [formatted] at h
    · cases h
    · exact hcs
  | case4 c cs h₁ h₂ ih =>
    rw [formatted] at h
    · obtain ⟨out, hout, rfl⟩ := Option.map_eq_some_iff.mp h
      obtain ⟨hle, hmem⟩ := ih hout
      simp only [List.length_cons, List.mem_cons, not_or]
      exact ⟨by omega, fun heq => ⟨fun hc => h₂ hc.symm, hmem (by omega)⟩⟩
    · exact h₁
    · exact h₂

def named (name : String) (cs : List Char) : List Char :=
  '"' :: (name.toList ++ '"' :: ':' :: ' ' :: cs)

def responseHead (command : List Char) : List Char :=
  '\x7b' :: named jsonCommand ('"' :: (command ++ '"' :: ',' :: ' ' :: named jsonRadio []))

def responseTail : List Char :=
  [',', ' '] ++ named jsonChanges ('\x7b' :: named "success"
    ('t' :: 'r' :: 'u' :: 'e' :: ',' :: ' ' :: named "error" ['"', '"', '\x7d', '\x7d']))

theorem toList_successMsg (command radio : String) :
    (successMsg command radio "").toList = responseHeader.toList ++
      (responseHead command.toList ++ '"' :: (radio.toList ++ '"' :: responseTail)) := by
  simp [successMsg, responseHead, responseTail, named, jsonCommand, jsonRadio, jsonChanges]

theorem responseHead_append (command cs : List Char) :
    responseHead command ++ cs =
      '\x7b' :: named jsonCommand
        ('"' :: (command ++ '"' :: ',' :: ' ' :: named jsonRadio cs)) := by
  simp [responseHead, named]

/-- The characters of a text that neither JSON nor `snprintf` takes for something else. -/
def Literal (c : Char) : Prop := Unescaped c ∧ c ≠ '%'

instance (c : Char) : Decidable (Literal c) := inferInstanceAs (Decidable (_ ∧ _))

theorem literal_ofList {cs : List Char} (h : cs.all (fun c => decide (Literal c)) = true) :
    ∀ c ∈ (String.ofList cs).toList, Literal c := by
  rw [String.toList_ofList]
  exact fun c hc => of_decide_eq_true (List.all_eq_true.mp h c hc)

theorem literal_answeredCommands :
    ∀ command ∈ answeredCommands, ∀ c ∈ command.toList, Literal c := by
  simp only [answeredCommands, List.forall_mem_cons, List.not_mem_nil, false_implies,
    implies_true, and_true]
  refine ⟨?_, ?_, ?_, ?_⟩ <;> exact literal_ofList (by decide)

theorem literal_names :
    ∀ name ∈ [jsonCommand, jsonRadio, jsonChanges, "success", "error"],
      ∀ c ∈ name.toList, Literal c := by
  simp only [List.forall_mem_cons, List.not_mem_nil, false_implies, implies_true, and_true]
  refine ⟨?_, ?_, ?_, ?_, ?_⟩ <;> exact literal_ofList (by decide)

/-- Outside the radio, nothing is escaped and nothing is converted. -/
def Harmless (cs : List Char) : Prop := '\\' ∉ cs ∧ '%' ∉ cs

theorem harmless_of_literal {cs : List Char} (h : ∀ c ∈ cs, Literal c) : Harmless cs :=
  ⟨fun hmem => (h _ hmem).1.2.1 rfl, fun hmem => (h _ hmem).2 rfl⟩

@[simp] theorem harmless_nil : Harmless [] := ⟨by simp, by simp⟩

@[simp] theorem harmless_cons {c : Char} {cs : List Char} :
    Harmless (c :: cs) ↔ (c ≠ '\\' ∧ c ≠ '%') ∧ Harmless cs := by
  simp only [Harmless, List.mem_cons, not_or]
  grind

@[simp] theorem harmless_append {a b : List Char} :
    Harmless (a ++ b) ↔ Harmless a ∧ Harmless b := by
  simp only [Harmless, List.mem_append, not_or]
  tauto

@[simp] theorem harmless_named {name : String} {cs : List Char} :
    Harmless (named name cs) ↔ Harmless name.toList ∧ Harmless cs := by
  simp [named]

theorem harmless_name {name : String}
    (h : name ∈ [jsonCommand, jsonRadio, jsonChanges, "success", "error"]) :
    Harmless name.toList :=
  harmless_of_literal (literal_names name h)

theorem harmless_responseHead {command : List Char} (h : ∀ c ∈ command, Literal c) :
    Harmless (responseHead command) := by
  have hcommand : Harmless jsonCommand.toList := harmless_name (by simp)
  have hradio : Harmless jsonRadio.toList := harmless_name (by simp)
  simp [responseHead, hcommand, hradio, harmless_of_literal h]

theorem harmless_responseTail : Harmless responseTail := by
  have hchanges : Harmless jsonChanges.toList := harmless_name (by simp)
  have hsuccess : Harmless "success".toList := harmless_name (by simp)
  have herror : Harmless "error".toList := harmless_name (by simp)
  simp only [responseTail, harmless_append, harmless_cons, harmless_named, hchanges, hsuccess,
    herror, harmless_nil, and_true]
  decide

/-- A string that runs over the quote after the radio ends before a letter. -/
theorem not_follows_of_responseTail {s rest : List Char} (h : Chars responseTail s rest) :
    ¬Follows rest := by
  have hplain : Unescaped ',' ∧ Unescaped ' ' := by decide
  have hrest := h.rest_eq
    (List.forall_mem_cons.mpr ⟨hplain.1, List.forall_mem_singleton.mpr hplain.2⟩)
  intro hfollows
  have hc := hfollows 'c' (by rw [hrest]; rfl)
  revert hc
  decide

/-- The published text is a JSON object with the command and the radio, and reports a
success. -/
def Reads (bytes command radio : String) : Prop :=
  ∃ body v, bytes = responseHeader ++ body ∧ Text body.toList v ∧
    v.get jsonCommand.toList = some (.string command.toList) ∧
    v.get jsonRadio.toList = some (.string radio.toList) ∧
    ∃ changes, v.get jsonChanges.toList = some changes ∧
      changes.get "success".toList = some (.boolean true)

section

variable {command radio : String}

/-- What is published of a success, if anything is. -/
theorem snprintf_successMsg (hc : ∀ c ∈ command.toList, Literal c) {bytes : String}
    (h : snprintf (successMsg command radio "") = some bytes) :
    ∃ radio', formatted radio.toList = some radio' ∧
      bytes.toList = responseHeader.toList ++
        (responseHead command.toList ++ '"' :: (radio' ++ '"' :: responseTail)) := by
  obtain ⟨out, hout, rfl⟩ := Option.map_eq_some_iff.mp h
  rw [toList_successMsg, formatted_append_of_plain (by decide),
    formatted_append_of_plain (harmless_responseHead hc).2,
    show '"' :: (radio.toList ++ '"' :: responseTail) =
      ['"'] ++ (radio.toList ++ '"' :: responseTail)
      from rfl, formatted_append_of_plain (by decide)] at hout
  simp only [Option.map_eq_some_iff] at hout
  obtain ⟨-, ⟨-, ⟨spliced, hspliced, rfl⟩, rfl⟩, rfl⟩ := hout
  obtain ⟨radio', hradio, rfl⟩ := formatted_append harmless_responseTail.2 hspliced
  exact ⟨radio', hradio, String.toList_ofList⟩

/-- Whatever stands in the text for the radio is the radio only if it is literal. -/
theorem literal_of_reads (hc : ∀ c ∈ command.toList, Literal c) {bytes : String}
    (hbytes : snprintf (successMsg command radio "") = some bytes)
    (h : Reads bytes command radio) : ∀ c ∈ radio.toList, Literal c := by
  obtain ⟨hhead, hhead'⟩ := harmless_responseHead hc
  obtain ⟨htail, htail'⟩ := harmless_responseTail
  obtain ⟨radio', hradio', heq⟩ := snprintf_successMsg hc hbytes
  obtain ⟨body, v, rfl, htext, -, hradio, -⟩ := h
  rw [String.toList_append, List.append_cancel_left_eq] at heq
  rw [heq] at htext
  obtain ⟨hle, hplain⟩ := formatted_length hradio'
  rcases (htext.occurs_of_get hradio).splice hhead htail
    (fun _ _ => not_follows_of_responseTail) with hout | hlt | ⟨rfl, hunescaped⟩
  · intro c hmem
    obtain ⟨hunescaped, hplace⟩ := hout c hmem
    refine ⟨hunescaped, ?_⟩
    rintro rfl
    exact hplace.elim hhead' htail'
  · omega
  · intro c hmem
    refine ⟨hunescaped c hmem, ?_⟩
    rintro rfl
    exact hplain rfl hmem

theorem named_reads {name : String} (cs : List Char)
    (h : name ∈ [jsonCommand, jsonRadio, jsonChanges, "success", "error"]) :
    Named (named name cs) name.toList cs :=
  ⟨.nil, chars_of_unescaped (fun c hc => (literal_names name h c hc).1) _, .nil, .cons rfl .nil⟩

theorem string_reads {s : List Char} (h : ∀ c ∈ s, Literal c) (rest : List Char) :
    Value ('"' :: (s ++ '"' :: rest)) (.string s) rest :=
  .string (chars_of_unescaped (fun c hc => (h c hc).1) rest)

def responseTree (command radio : List Char) : Tree :=
  .object [(jsonCommand.toList, .string command), (jsonRadio.toList, .string radio),
    (jsonChanges.toList, .object [("success".toList, .boolean true), ("error".toList, .string [])])]

theorem text_of_literal {command radio : List Char} (hc : ∀ c ∈ command, Literal c)
    (hr : ∀ c ∈ radio, Literal c) :
    Text (responseHead command ++ '"' :: (radio ++ '"' :: responseTail))
      (responseTree command radio) := by
  have hchanges : Value ('\x7b' :: named "success" ('t' :: 'r' :: 'u' :: 'e' :: ',' :: ' ' ::
      named "error" ['"', '"', '\x7d', '\x7d']))
      (.object [("success".toList, .boolean true), ("error".toList, .string [])]) ['\x7d'] := by
    apply Value.object
    apply Members.cons (named_reads _ (by simp)) .true .nil
    apply Members.last ((named_reads _ (by simp)).ws rfl) _ .nil
    exact string_reads (s := []) (by simp) _
  rw [responseHead_append]
  refine ⟨_, [], .nil, ?_, .nil⟩
  apply Value.object
  apply Members.cons (named_reads _ (by simp)) (string_reads hc _) .nil
  apply Members.cons ((named_reads _ (by simp)).ws rfl) (string_reads hr _) .nil
  exact Members.last ((named_reads _ (by simp)).ws rfl) hchanges .nil

theorem reads_of_literal (hc : ∀ c ∈ command.toList, Literal c)
    (hr : ∀ c ∈ radio.toList, Literal c) :
    ∃ bytes, snprintf (successMsg command radio "") = some bytes ∧ Reads bytes command radio := by
  have hplain : Plain (successMsg command radio "") := by
    have hheader : Harmless responseHeader.toList := ⟨by decide, by decide⟩
    rw [Plain, toList_successMsg]
    refine And.right (a := '\\' ∉ _) (harmless_append.mpr ⟨hheader, ?_⟩)
    simp [harmless_responseHead hc, harmless_of_literal hr, harmless_responseTail]
  refine ⟨_, snprintf_plain hplain, ?_⟩
  refine ⟨String.ofList (responseHead command.toList ++
    '"' :: (radio.toList ++ '"' :: responseTail)), responseTree command.toList radio.toList,
    ?_, ?_, rfl, rfl, _, rfl, rfl⟩
  · apply String.toList_inj.mp
    rw [toList_successMsg, String.toList_append]
    exact congrArg _ String.toList_ofList.symm
  · rw [String.toList_ofList]
    exact text_of_literal hc hr

theorem published_reads_iff (hc : ∀ c ∈ command.toList, Literal c) :
    (∃ bytes, snprintf (successMsg command radio "") = some bytes ∧ Reads bytes command radio) ↔
      ∀ c ∈ radio.toList, Literal c := by
  constructor
  · rintro ⟨bytes, hbytes, hreads⟩
    exact literal_of_reads hc hbytes hreads
  · exact reads_of_literal hc

end

section

variable {jsonLoads : String → Option Json} {text command radio : String} {root : Json}

/-- A command that succeeds has set the success with its own radio. -/
theorem messages_of_success {answers : ℕ → TimedReply} (hl : jsonLoads text = some root)
    (hmem : command ∈ answeredCommands) (hc : commandOf root = some command)
    (hr : objectGet root jsonRadio = some (.string radio))
    (hok : (transcript answers (parseJson jsonLoads text)).2 &&& returnCodeError = 0) :
    messages (transcript answers (parseJson jsonLoads text)).1 =
      [successMsg command radio ""] := by
  have hobeys : Obeys recorder
      (fun ms code => code &&& returnCodeError = 0 → ms = [successMsg command radio ""]) []
      (parseJson jsonLoads text) := by
    simp only [parseJson, hl]
    apply runCommand_responds mindsMessages_recorder
    · intro command' _ _ info _
      exact ⟨_, rfl, fun _ hcode => absurd hcode (by decide)⟩
    · intro command' _ hc' radio' hr'
      obtain rfl := Option.some.inj (hc.symm.trans hc')
      obtain rfl := Json.string.inj (Option.some.inj (hr.symm.trans hr'))
      exact ⟨_, rfl, fun _ _ => rfl⟩
    · exact fun h => absurd hc (h command hmem)
  obtain ⟨s, hs, hq⟩ := hobeys.observe_run (answer answers) 0
  rw [observe_recorder, List.nil_append] at hs
  obtain rfl := Option.some.inj hs
  exact hq hok

/-- What is published for a command that succeeded is a JSON text with its command, its
radio and a success, exactly if the radio has no quote, backslash, control character or
percent sign in it. -/
theorem success_response_faithful_iff {answers : ℕ → TimedReply} (hl : jsonLoads text = some root)
    (hmem : command ∈ [radioSetCmd, radioBulkSetCmd, uciDeleteSection, uciDeleteBss])
    (hc : commandOf root = some command) (hr : objectGet root jsonRadio = some (.string radio))
    (hok : (transcript answers (parseJson jsonLoads text)).2 &&& returnCodeError = 0) :
    (∃ message bytes,
      messages (transcript answers (parseJson jsonLoads text)).1 = [message] ∧
      snprintf message = some bytes ∧ Reads bytes command radio) ↔
    JsonPlain radio ∧ Plain radio := by
  have hmessages := messages_of_success hl hmem hc hr hok
  have hliteral : (∀ c ∈ radio.toList, Literal c) ↔ JsonPlain radio ∧ Plain radio := by
    constructor
    · exact fun h => ⟨fun c hmem => (h c hmem).1, (harmless_of_literal h).2⟩
    · exact fun h c hmem => ⟨h.1 c hmem, fun hp => h.2 (hp ▸ hmem)⟩
  rw [← hliteral, ← published_reads_iff (literal_answeredCommands command hmem), hmessages]
  constructor
  · rintro ⟨message, bytes, hm, h⟩
    obtain rfl := List.singleton_inj.mp hm
    exact ⟨bytes, h⟩
  · rintro ⟨bytes, h⟩
    exact ⟨_, bytes, rfl, h⟩

end

def deleteOf (radio : String) : Json :=
  .object [(jsonCommand, .string uciDeleteBss), (jsonRadio, .string radio),
    (jsonChanges, .object [(jsonMacAddress, .string "02:00:00:00:00:01")])]

def deleteText (radio : String) : String :=
  "\x7b\"command\":\"_delete_bss_index\",\"radio\":\"" ++ radio ++
    "\",\"changes\":\x7b\"macaddr\":\"02:00:00:00:00:01\"\x7d\x7d"

def deleteConfirmed : ℕ → TimedReply
  | 0 => ⟨0, WarpProtocol.bssidStationClearCode⟩
  | _ => ⟨0, WarpProtocol.macRemoveCode⟩

theorem success_response_faithful_radio0 :
    let run := transcript deleteConfirmed
      (parseJson (fun _ => some (deleteOf "radio0")) (deleteText "radio0"))
    ∃ message bytes, messages run.1 = [message] ∧ snprintf message = some bytes ∧
      Reads bytes uciDeleteBss "radio0" :=
  (success_response_faithful_iff rfl (by decide) rfl rfl (by decide +kernel)).mpr
    ⟨by decide, by decide⟩

/-- A quote in the name of the radio ends the string. -/
theorem quote_in_radio_not_faithful :
    let run := transcript deleteConfirmed
      (parseJson (fun _ => some (deleteOf "a\"b")) (deleteText "a\\\"b"))
    run.2 &&& returnCodeError = 0 ∧
    ¬∃ message bytes, messages run.1 = [message] ∧ snprintf message = some bytes ∧
      Reads bytes uciDeleteBss "a\"b" := by
  intro run
  have hok : run.2 &&& returnCodeError = 0 := by decide +kernel
  refine ⟨hok, ?_⟩
  rintro ⟨message, bytes, hm, h⟩
  rw [messages_of_success rfl (by decide) rfl rfl hok] at hm
  obtain rfl := List.singleton_inj.mp hm
  have hliteral := (published_reads_iff (literal_answeredCommands _ (by decide))).mp ⟨bytes, h⟩
  exact (hliteral '"' (by decide)).1.1 rfl

end AuroraRelay.ResponseDelivery
