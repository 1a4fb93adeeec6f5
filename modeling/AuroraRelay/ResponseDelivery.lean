import AuroraRelay.Lib.Semaphore
import AuroraRelay.Lib.Transition
import AuroraRelay.Responses

/-!
# Responses to the controller

`parse_loop` leaves a response in the one slot `send_message` and posts `signal`;
`send_loop` waits for it, takes the lock, reads the slot and publishes what it read.
Nothing makes the parser wait for the sender.
-/

namespace AuroraRelay.CommsAgent
open Interaction Transition WarpProtocol

/-- No character that `snprintf` takes for a conversion. -/
def Plain (text : String) : Prop := '%' ∉ text.toList

instance (text : String) : Decidable (Plain text) := inferInstanceAs (Decidable (¬_))

def responder : Monitor Call Reply (Option String)
  | s, .setMessage message => if s = none ∧ Plain message then some fun _ => some message else none
  | s, .sync _ _ => some fun _ => s
  | s, .timedSync _ _ => some fun _ => s
  | s, .updateBssids _ _ => some fun _ => s

def Answered (s : Option String) (code : UInt8) : Prop :=
  s.isSome ↔ code &&& returnCodeSendResponse ≠ 0

/-- A literal is the list of its characters, which is read faster than its bytes. -/
theorem plain_ofList {cs : List Char} (h : '%' ∉ cs) : Plain (String.ofList cs) := by
  rwa [Plain, String.toList_ofList]

theorem plain_append {a b : String} (ha : Plain a) (hb : Plain b) : Plain (a ++ b) := by
  unfold Plain at *
  rw [String.toList_append, List.mem_append]
  tauto

theorem silent_answers {code : UInt8} (h : code &&& returnCodeSendResponse = 0) :
    Obeys responder Answered none (.ret code) := by
  change Answered none code
  simp [Answered, h]

theorem setMsg_answers {message : String} {code : UInt8} (hm : Plain message)
    (h : code &&& returnCodeSendResponse ≠ 0) :
    Obeys responder Answered none (setMsg message >>= fun _ => .ret code) := by
  refine ⟨fun _ => some message, if_pos ⟨rfl, hm⟩, fun _ => ?_⟩
  change Answered (some message) code
  simp [Answered, h]

theorem errorResponse_answers {command message : String} (hc : Plain command)
    (hm : Plain message) :
    Obeys responder Answered none (errorResponse command message) := by
  refine setMsg_answers ?_ (by decide)
  refine plain_append (plain_append (plain_append (plain_append ?_ hc) ?_) hm) ?_
  · exact plain_append (plain_ofList (by decide)) (plain_ofList (by decide))
  · exact plain_ofList (by decide)
  · exact plain_ofList (by decide)

theorem everythingOk_answers {command radio : String} (hc : Plain command) (hr : Plain radio) :
    Obeys responder Answered none (everythingOk returnCodeSendResponse command radio) := by
  refine setMsg_answers ?_ (by decide)
  refine plain_append (plain_append (plain_append (plain_append (plain_append (plain_append
    ?_ hc) ?_) hr) ?_) ?_) ?_
  · exact plain_append (plain_ofList (by decide)) (plain_ofList (by decide))
  · exact plain_ofList (by decide)
  · exact plain_ofList (by decide)
  · exact plain_ofList (by decide)
  · exact plain_ofList (by decide)

theorem mindsMessages_responder : MindsMessages responder :=
  ⟨fun _ _ _ => rfl, fun _ _ _ => rfl, fun _ _ _ => rfl⟩

theorem plain_answeredCommands : ∀ command ∈ answeredCommands, Plain command := by
  simp only [answeredCommands, List.forall_mem_cons, List.not_mem_nil, false_implies,
    implies_true, and_true]
  refine ⟨?_, ?_, ?_, ?_⟩ <;> exact plain_ofList (by decide)

theorem plain_errorTexts : ∀ info ∈ errorTexts, Plain info := by
  simp only [errorTexts, fieldErrors, List.cons_append, List.nil_append, List.forall_mem_cons,
    List.not_mem_nil, false_implies, implies_true, and_true]
  refine ⟨?_, ?_, ?_, ?_, ?_, ?_, ?_, ?_, ?_, ?_, ?_, ?_, ?_⟩ <;> exact plain_ofList (by decide)

def PlainRadio (jsonLoads : String → Option Json) (text : String) : Prop :=
  ∀ root radio, jsonLoads text = some root → objectGet root jsonRadio = some (.string radio) →
    Plain radio

theorem parseJson_answers {jsonLoads : String → Option Json} {text : String}
    (h : PlainRadio jsonLoads text) :
    Obeys responder Answered none (parseJson jsonLoads text) := by
  unfold parseJson
  cases hl : jsonLoads text with
  | none =>
    dsimp only
    split_ifs
    · exact setMsg_answers (plain_ofList (by decide)) (by decide)
    · exact silent_answers (by decide)
  | some root =>
    apply runCommand_responds mindsMessages_responder
    · intro command hc _ info hinfo
      exact errorResponse_answers (plain_answeredCommands command hc) (plain_errorTexts info hinfo)
    · intro command hc _ radio hradio
      exact everythingOk_answers (plain_answeredCommands command hc) (h root radio hl hradio)
    · exact fun _ => ⟨silent_answers (by decide), silent_answers (by decide)⟩

end AuroraRelay.CommsAgent

namespace AuroraRelay.ResponseDelivery
open CommsAgent Interaction Transition

/-- A format string with no arguments; a conversion other than `%%` is undefined. -/
def formatted : List Char → Option (List Char)
  | [] => some []
  | '%' :: '%' :: cs => (formatted cs).map ('%' :: ·)
  | '%' :: _ => none
  | c :: cs => (formatted cs).map (c :: ·)

/-- The sender gives the response to `snprintf` as its format. -/
def snprintf (format : String) : Option String := (formatted format.toList).map String.ofList

inductive ParserPc
  | idle
  | running (p : Relay UInt8)
  | posting

/-- From `locked` to `unlocking` the sender holds `message_lock`. -/
inductive SenderPc
  | waiting
  | woken
  | locked
  | read (toSend : String)
  | unlocking
  deriving DecidableEq

/-- `current` are the messages set by the command that is running, `responses` those
of the finished commands that ask for a response. -/
structure Threads where
  parser : ParserPc
  sender : SenderPc
  signal : ℕ
  sendMessage : Option String
  current : List String
  responses : List String
  published : List (Option String)

inductive Label
  | command (text : String)
  | parseLoop (reply : TimedReply)
  | sendLoop

def lockFree : SenderPc → Bool
  | .waiting => true
  | .woken => true
  | _ => false

def performCall (s : Threads) (reply : TimedReply) :
    (c : Call) → (Reply c → Relay UInt8) → Option Threads
  | .setMessage message, k =>
    if lockFree s.sender then
      some { s with
        parser := .running (k ())
        sendMessage := some message
        current := s.current ++ [message] }
    else none
  | .timedSync _ _, k => some { s with parser := .running (k reply) }
  | .sync _ _, k => some { s with parser := .running (k ()) }
  | .updateBssids _ _, k => some { s with parser := .running (k ()) }

def parseLoop (s : Threads) (reply : TimedReply) : Option Threads :=
  match s.parser with
  | .idle => none
  | .running (.call c k) => performCall s reply c k
  | .running (.ret code) =>
    if code &&& returnCodeSendResponse ≠ 0 then
      some { s with parser := .posting, responses := s.responses ++ s.current }
    else some { s with parser := .idle }
  | .posting => some { s with parser := .idle, signal := Semaphore.post s.signal }

/-- Left out is the read of `send_message` for the log print, which takes no lock. -/
def sendLoop (s : Threads) : Option Threads :=
  match s.sender with
  | .waiting => (Semaphore.wait s.signal).map fun n => { s with signal := n, sender := .woken }
  | .woken => some { s with sender := .locked }
  | .locked => s.sendMessage.map fun toSend => { s with sender := .read toSend }
  | .read toSend =>
    some { s with sender := .unlocking, published := s.published ++ [snprintf toSend] }
  | .unlocking => some { s with sender := .waiting }

def beginCommand (jsonLoads : String → Option Json) (s : Threads) (text : String) :
    Option Threads :=
  match s.parser with
  | .idle => some { s with parser := .running (parseJson jsonLoads text), current := [] }
  | _ => none

def delivery (jsonLoads : String → Option Json) : Machine Threads Label where
  init := ⟨.idle, .waiting, 0, none, [], [], []⟩
  step s
    | .command text => beginCommand jsonLoads s text
    | .parseLoop reply => parseLoop s reply
    | .sendLoop => sendLoop s

/-- Every response is published once and in order, and the one that is not yet
published is still in the slot. -/
structure Threads.Delivered (s : Threads) : Prop where
  inOrder : s.published <+: s.responses.map some
  atMostOne : s.responses.length ≤ s.published.length + 1
  kept : ∀ message ∈ s.responses.drop s.published.length, s.sendMessage = some message

/-- A message is set only after the sender has read the one before it, and no radio
has a name with a conversion in it. -/
def Unhurried (jsonLoads : String → Option Json) (s : Threads) : Label → Prop
  | .command text => PlainRadio jsonLoads text
  | .parseLoop _ =>
    match s.parser with
    | .running (.call (.setMessage _) _) => s.signal = 0 ∧ s.sender ≠ .woken
    | _ => True
  | .sendLoop => True

theorem formatted_plain {cs : List Char} (h : '%' ∉ cs) : formatted cs = some cs := by
  induction cs with
  | nil => rfl
  | cons c cs ih =>
    obtain ⟨hc, hcs⟩ := not_or.mp fun h' => h (List.mem_cons.mpr h')
    rw [formatted, ih hcs]
    · rfl
    · exact fun _ hc' => absurd hc'.symm hc
    · exact fun hc' => hc hc'.symm

theorem snprintf_plain {text : String} (h : Plain text) : snprintf text = some text := by
  simp [snprintf, formatted_plain h]

def SenderPc.owes : SenderPc → ℕ
  | .woken => 1
  | .locked => 1
  | .read _ => 1
  | _ => 0

def Threads.pending (s : Threads) : ℕ := s.signal + s.sender.owes

/-- What the parser is doing: as long as it has set no message, the responses
`waiting` to be published are those signalled. -/
def ParserOk (pending : ℕ) (current : List String) (slot : Option String)
    (waiting : List String) : ParserPc → Prop
  | .idle => waiting.length = pending ∧ pending ≤ 1
  | .running p => ∃ message : Option String, current = message.toList ∧
      Obeys responder Answered message p ∧
      (message = none → waiting.length = pending ∧ pending ≤ 1) ∧
      ∀ m, message = some m → waiting = [] ∧ pending = 0 ∧ slot = some m ∧ Plain m
  | .posting => waiting.length = 1 ∧ pending = 0

structure Inv (s : Threads) (waiting : List String) : Prop where
  responses : s.responses.map some = s.published ++ waiting.map some
  slot : ∀ m ∈ waiting, s.sendMessage = some m ∧ Plain m
  read : ∀ toSend, s.sender = .read toSend → waiting = [toSend]
  parser : ParserOk s.pending s.current s.sendMessage waiting s.parser

theorem ParserOk.bounds {pending : ℕ} {current : List String} {slot : Option String}
    {waiting : List String} {pc : ParserPc} (h : ParserOk pending current slot waiting pc) :
    waiting.length ≤ 1 ∧ (0 < pending → waiting.length = pending) := by
  cases pc with
  | idle => exact ⟨h.1.le.trans h.2, fun _ => h.1⟩
  | running p =>
    obtain ⟨message, -, -, hnone, hsome⟩ := h
    cases message with
    | none =>
      obtain ⟨h1, h2⟩ := hnone rfl
      exact ⟨h1.le.trans h2, fun _ => h1⟩
    | some m =>
      obtain ⟨hw, h0, -⟩ := hsome m rfl
      exact ⟨by simp [hw], by omega⟩
  | posting => exact ⟨h.1.le, fun hpos => absurd h.2 hpos.ne'⟩

/-- Publishing the response that is waiting. -/
theorem ParserOk.published {current : List String} {slot : Option String}
    {m : String} {pc : ParserPc} (h : ParserOk 1 current slot [m] pc) :
    ParserOk 0 current slot [] pc := by
  cases pc with
  | idle => exact ⟨rfl, Nat.zero_le 1⟩
  | running p =>
    obtain ⟨message, hcur, hobey, -, hsome⟩ := h
    exact ⟨message, hcur, hobey, fun _ => ⟨rfl, Nat.zero_le 1⟩,
      fun m' hm => absurd (hsome m' hm).2.1 one_ne_zero⟩
  | posting => exact absurd h.2 one_ne_zero

theorem Inv.delivered {s : Threads} {waiting : List String} (h : Inv s waiting) :
    s.Delivered := by
  have hlen : s.responses.length = s.published.length + waiting.length := by
    simpa using congrArg List.length h.responses
  have hle := h.parser.bounds.1
  refine ⟨⟨_, h.responses.symm⟩, by omega, fun m hm => ?_⟩
  have hdrop : (s.responses.drop s.published.length).map some = waiting.map some := by
    rw [List.map_drop, h.responses, List.drop_left]
  have hmem : some m ∈ waiting.map some := hdrop ▸ List.mem_map_of_mem hm
  obtain ⟨m', hm', he⟩ := List.mem_map.mp hmem
  exact (h.slot m (Option.some.inj he ▸ hm')).1

section Step

variable {jsonLoads : String → Option Json} {s s' : Threads} {waiting : List String}

theorem Inv.beginCommand (h : Inv s waiting) {text : String} (hr : PlainRadio jsonLoads text)
    (hs : beginCommand jsonLoads s text = some s') : Inv s' waiting := by
  unfold ResponseDelivery.beginCommand at hs
  split at hs
  · rename_i hpc
    obtain rfl := Option.some.inj hs
    have hp := h.parser
    rw [hpc] at hp
    refine ⟨h.responses, h.slot, h.read, none, rfl, parseJson_answers hr, fun _ => hp, ?_⟩
    exact fun m hm => by cases hm
  · cases hs

/-- A sender that has been woken up has one response to publish. -/
theorem Inv.owed (h : Inv s waiting) (ho : s.sender.owes = 1) :
    ∃ m, waiting = [m] ∧ s.pending = 1 := by
  have hpend : s.pending = s.signal + 1 := by rw [Threads.pending, ho]
  obtain ⟨hle, hlen⟩ := h.parser.bounds
  have hlen := hlen (by omega)
  obtain ⟨m, hm⟩ := List.length_eq_one_iff.mp (show waiting.length = 1 by omega)
  exact ⟨m, hm, by omega⟩

/-- A move of the sender that publishes nothing. -/
theorem Inv.sender (h : Inv s waiting) {signal : ℕ} {sender : SenderPc}
    (hp : signal + sender.owes = s.pending)
    (hread : ∀ toSend, sender = .read toSend → waiting = [toSend]) :
    Inv { s with signal := signal, sender := sender } waiting := by
  refine ⟨h.responses, h.slot, hread, ?_⟩
  change ParserOk (signal + sender.owes) _ _ _ _
  rw [hp]
  exact h.parser

theorem Inv.sendLoop (h : Inv s waiting) (hs : sendLoop s = some s') :
    ∃ waiting', Inv s' waiting' := by
  have hpend : s.pending = s.signal + s.sender.owes := rfl
  unfold ResponseDelivery.sendLoop at hs
  cases hpc : s.sender with
  | waiting =>
    rw [hpc] at hs hpend
    obtain ⟨n, hn, rfl⟩ := Option.map_eq_some_iff.mp hs
    rw [Semaphore.wait_eq_some.mp hn] at hpend
    exact ⟨waiting, h.sender hpend.symm fun _ he => by cases he⟩
  | woken =>
    rw [hpc] at hs hpend
    obtain rfl := Option.some.inj hs
    exact ⟨waiting, h.sender hpend.symm fun _ he => by cases he⟩
  | locked =>
    rw [hpc] at hs hpend
    obtain ⟨toSend, hslot, rfl⟩ := Option.map_eq_some_iff.mp hs
    obtain ⟨m, hm, -⟩ := h.owed (by rw [hpc]; rfl)
    have hms := (h.slot m (by simp [hm])).1
    refine ⟨waiting, h.sender hpend.symm fun t he => ?_⟩
    obtain rfl : toSend = t := SenderPc.read.inj he
    rw [hslot] at hms
    rw [hm, Option.some.inj hms]
  | read toSend =>
    rw [hpc] at hs hpend
    obtain rfl := Option.some.inj hs
    -- the sender owes exactly the message it has read, so none is left after it
    obtain ⟨m, hm, hone⟩ := h.owed (by rw [hpc]; rfl)
    obtain rfl : m = toSend := by simpa [hm] using h.read toSend hpc
    have hplain := (h.slot m (by simp [hm])).2
    refine ⟨[], ?_, fun _ he => (by cases he), fun _ he => (by cases he), ?_⟩
    · change s.responses.map some = (s.published ++ [snprintf m]) ++ []
      rw [h.responses, hm, snprintf_plain hplain]
      simp
    · have hsig : s.signal = 0 := by
        have ho : (SenderPc.read m).owes = 1 := rfl
        omega
      have hp := h.parser
      rw [hone, hm] at hp
      change ParserOk (s.signal + 0) _ _ _ _
      rw [hsig]
      exact hp.published
  | unlocking =>
    rw [hpc] at hs hpend
    obtain rfl := Option.some.inj hs
    exact ⟨waiting, h.sender hpend.symm fun _ he => by cases he⟩

/-- A call that sets no message. -/
theorem Inv.goOn (h : Inv s waiting) {p q : Relay UInt8} (hpc : s.parser = .running p)
    (hq : ∀ message, Obeys responder Answered message p → Obeys responder Answered message q) :
    Inv { s with parser := .running q } waiting := by
  have hp := h.parser
  rw [hpc] at hp
  obtain ⟨message, hcur, hobey, hrest⟩ := hp
  exact ⟨h.responses, h.slot, h.read, message, hcur, hq message hobey, hrest⟩

theorem Inv.setMessage (h : Inv s waiting) {m : String} {k : Unit → Relay UInt8}
    (hpc : s.parser = .running (.call (.setMessage m) k)) (hfree : lockFree s.sender = true)
    (hsig : s.signal = 0) (hwoken : s.sender ≠ .woken) :
    Inv { s with
      parser := .running (k ())
      sendMessage := some m
      current := s.current ++ [m] } [] := by
  have howes : s.sender.owes = 0 := by
    cases hsend : s.sender with
    | waiting => rfl
    | woken => exact absurd hsend hwoken
    | locked => simp [hsend, lockFree] at hfree
    | read t => simp [hsend, lockFree] at hfree
    | unlocking => rfl
  have hpend : s.pending = 0 := by rw [Threads.pending, hsig, howes]
  have hp := h.parser
  rw [hpc] at hp
  obtain ⟨message, hcur, ⟨next, hM, hk⟩, hnone, -⟩ := hp
  obtain ⟨⟨rfl, hplain⟩, he⟩ := Option.ite_none_right_eq_some.mp hM
  obtain rfl := Option.some.inj he
  have hw : waiting = [] := by
    have := (hnone rfl).1
    rw [hpend] at this
    exact List.length_eq_zero_iff.mp this
  subst hw
  refine ⟨h.responses, fun _ hm => (by cases hm), h.read, some m, by simp [hcur], hk (), ?_, ?_⟩
  · exact fun hn => by cases hn
  · rintro _ ⟨⟩
    exact ⟨rfl, hpend, rfl, hplain⟩

theorem Inv.parseLoop (h : Inv s waiting) {reply : TimedReply}
    (hu : Unhurried jsonLoads s (.parseLoop reply)) (hs : parseLoop s reply = some s') :
    ∃ waiting', Inv s' waiting' := by
  unfold ResponseDelivery.parseLoop at hs
  unfold Unhurried at hu
  cases hpc : s.parser with
  | idle =>
    rw [hpc] at hs
    cases hs
  | running p =>
    rw [hpc] at hs hu
    cases p with
    | ret code =>
      have hp := h.parser
      rw [hpc] at hp
      obtain ⟨message, hcur, hobey, hnone, hsome⟩ := hp
      dsimp only at hs
      split_ifs at hs with hcode
      · -- the codes that wake the sender are those returned with a message set
        obtain rfl := Option.some.inj hs
        obtain ⟨m, rfl⟩ := Option.isSome_iff_exists.mp (hobey.mpr hcode)
        obtain ⟨rfl, hpend, hslot, hplain⟩ := hsome m rfl
        refine ⟨[m], ?_, ?_, fun t ht => absurd (h.read t ht) (by simp), rfl, hpend⟩
        · have hresp := h.responses
          simp only [List.map_nil, List.append_nil] at hresp
          simp [hcur, hresp]
        · rintro _ hm
          rw [List.mem_singleton.mp hm]
          exact ⟨hslot, hplain⟩
      · obtain rfl := Option.some.inj hs
        have hn : message = none := by
          cases message with
          | none => rfl
          | some m => exact absurd (hobey.mp rfl) hcode
        exact ⟨waiting, h.responses, h.slot, h.read, hnone hn⟩
    | call c k =>
      cases c with
      | setMessage m =>
        obtain ⟨hfree, he⟩ := Option.ite_none_right_eq_some.mp hs
        obtain rfl := Option.some.inj he
        exact ⟨[], h.setMessage hpc hfree hu.1 hu.2⟩
      | timedSync op limit =>
        obtain rfl := Option.some.inj hs
        exact ⟨waiting, h.goOn hpc fun _ ho => (obeys_call rfl).mp ho reply⟩
      | sync op packet =>
        obtain rfl := Option.some.inj hs
        exact ⟨waiting, h.goOn hpc fun _ ho => (obeys_call rfl).mp ho ()⟩
      | updateBssids op text =>
        obtain rfl := Option.some.inj hs
        exact ⟨waiting, h.goOn hpc fun _ ho => (obeys_call rfl).mp ho ()⟩
  | posting =>
    rw [hpc] at hs
    obtain rfl := Option.some.inj hs
    have hp := h.parser
    rw [hpc] at hp
    obtain ⟨hlen, hpend⟩ := hp
    have hsig : s.signal = 0 := Nat.eq_zero_of_add_eq_zero_right hpend
    refine ⟨waiting, h.responses, h.slot, h.read, ?_⟩
    have hpost : Semaphore.post s.signal + s.sender.owes = 1 := by
      rw [Threads.pending, hsig, Nat.zero_add] at hpend
      rw [hsig, hpend]
      rfl
    change waiting.length = _ + _ ∧ _ + _ ≤ 1
    rw [hpost]
    exact ⟨hlen, le_rfl⟩

end Step

/-- As long as the parser does not hurry ahead of the sender, every response is
published, once and in order. -/
theorem responses_delivered {jsonLoads : String → Option Json} {s : Threads}
    (h : (delivery jsonLoads).ReachableIf (Unhurried jsonLoads) s) : s.Delivered := by
  have hinv : ∃ waiting, Inv s waiting := by
    apply h.invariant (I := fun s => ∃ waiting, Inv s waiting)
    · exact ⟨[], rfl, fun _ hm => (by cases hm), fun _ he => (by cases he), rfl, Nat.zero_le 1⟩
    · rintro s l s' ⟨waiting, hi⟩ hu hs
      cases l with
      | command text => exact ⟨waiting, hi.beginCommand hu hs⟩
      | parseLoop reply => exact hi.parseLoop hu hs
      | sendLoop => exact hi.sendLoop hs
  obtain ⟨waiting, hi⟩ := hinv
  exact hi.delivered

def bareRadioSet : String := "\x7b\"command\": \"_radio_set_command\"\x7d"

def loadBare (text : String) : Option Json :=
  if text = bareRadioSet then some (.object [(jsonCommand, .string radioSetCmd)]) else none

def oneCommand (text : String) : List Label :=
  [.command text, .parseLoop ⟨0, 0⟩, .parseLoop ⟨0, 0⟩, .parseLoop ⟨0, 0⟩]

theorem responses_delivered_test : ∃ s, (delivery loadBare).ReachableIf (Unhurried loadBare) s ∧
    s.published = [some testMsg] ∧ s.Delivered := by
  have h := (Machine.ReachableIf.init (M := delivery loadBare) (C := Unhurried loadBare)).exec
    (oneCommand "test" ++ [.sendLoop, .sendLoop, .sendLoop, .sendLoop]) ?_ rfl
  · exact ⟨_, h, by decide, responses_delivered h⟩
  · have hradio : PlainRadio loadBare "test" :=
      fun root _ hl => absurd (show none = some root from hl) (by simp)
    exact And.intro hradio <| And.intro ⟨rfl, by decide⟩ <| And.intro trivial <|
      And.intro trivial <| And.intro trivial <| And.intro trivial <| And.intro trivial <|
      And.intro trivial trivial

/-- Two commands before the sender wakes up: the first response is never published. -/
theorem response_overwritten : ∃ s, (delivery loadBare).Reachable s ∧
    ¬s.published <+: s.responses.map some := by
  refine ⟨_, Machine.reachable_of_exec (oneCommand bareRadioSet ++ oneCommand "test" ++
    [.sendLoop, .sendLoop, .sendLoop, .sendLoop]) rfl, ?_⟩
  decide

end AuroraRelay.ResponseDelivery
