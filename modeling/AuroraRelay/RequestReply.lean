import Mathlib.Logic.Function.Basic
import AuroraRelay.Lib.Semaphore
import AuroraRelay.Lib.Transition
import AuroraRelay.CommandScript

/-!
# Requests to WARP and the replies to them

Three parties: the parser, which runs one command after the other; the WARP board,
which answers a control packet at most once and after any delay; and the thread of
`WarpToWlanAgent::process`, which stores the operation code of a reply in one shared
byte and posts the semaphore of its subtype.  Replies carry no request number, so
the numbers here are only seen by the statements.
-/

namespace AuroraRelay.RequestReply
open CommsAgent Interaction Transition WarpProtocol

/-- The control subtypes, each with a semaphore of its own. -/
inductive Kind
  | macAddress
  | transmission
  | bssid
  deriving DecidableEq

def packetKind : ControlPacket → Kind
  | .mac _ => .macAddress
  | .transmission _ => .transmission
  | .bssid _ => .bssid

def semaphoreOf : NodeOp → Option Kind
  | .macAdd => some .macAddress
  | .macRemove => some .macAddress
  | .transmissionCntrl => some .transmission
  | .bssidCntrl => some .bssid
  | _ => none

/-- What `process` takes from a control frame: the semaphore it is going to post and
the byte it stores. -/
def controlResponse (buffer : List UInt8) : Option (Kind × UInt8) :=
  match checkWarpLayerType buffer, processWarpLayer buffer with
  | .ok packetType, .ok (stored, dataProcessedLength) =>
    if dataProcessedLength = 0 then none
    else
      match stored with
      | .transmissionOperationCode c =>
        if packetType = subtypeTransmissionControl then some (.transmission, c) else none
      | .macOperationCode c =>
        if packetType = subtypeMacAddressControl then some (.macAddress, c) else none
      | .bssidOperationCode c =>
        if packetType = subtypeBssidControl then some (.bssid, c) else none
      | _ => none
  | _, _ => none

structure Sent where
  number : ℕ
  packet : ControlPacket
  deriving DecidableEq

/-- A reply on its way, with the number of the request it answers. -/
structure Frame where
  number : ℕ
  buffer : List UInt8
  deriving DecidableEq

/-- `reading` is the point inside `timed_sync` between the semaphore and the byte. -/
inductive ParserPc
  | idle
  | running (p : Relay UInt8)
  | reading (consumed : ℕ) (k : TimedReply → Relay UInt8)

inductive ProcessPc
  | idle
  | posting (number : ℕ) (kind : Kind)
  deriving DecidableEq

/-- A wait that the semaphore ended: the packet that was sent before it, the reply
that was consumed and the byte that was read. -/
structure Wait where
  request : Sent
  consumed : ℕ
  response : UInt8
  deriving DecidableEq

def Wait.Confirmed (w : Wait) : Prop :=
  ∃ q, w.request.packet.request = some q ∧ q.Confirmed ⟨0, w.response⟩

/-- `tokens` are the semaphores, each with the replies posted to it, oldest first;
`replied` is the byte in the reply to a request, once the board has sent it. -/
structure System where
  parser : ParserPc
  process : ProcessPc
  responsePacketType : UInt8
  tokens : Kind → List ℕ
  next : ℕ
  lastSent : Option Sent
  unanswered : List Sent
  inFlight : List Frame
  replied : ℕ → Option UInt8
  log : List Wait

inductive Label
  | command (text : String)
  | parse
  | acquire
  | timeOut
  | read
  | reply (number : ℕ) (buffer : List UInt8)
  | write (number : ℕ)
  | post
  deriving DecidableEq

def beginCommand (jsonLoads : String → Option Json) (s : System) (text : String) :
    Option System :=
  match s.parser with
  | .idle => some { s with parser := .running (parseJson jsonLoads text) }
  | _ => none

def send (s : System) (packet : ControlPacket) : System :=
  { s with
    next := s.next + 1
    lastSent := some ⟨s.next, packet⟩
    unanswered := s.unanswered ++ [⟨s.next, packet⟩] }

def parse (s : System) : Option System :=
  match s.parser with
  | .running (.call (.sync op packet) k) =>
    some { (warpSync op packet).foldl send s with parser := .running (k ()) }
  | .running (.call (.setMessage _) k) => some { s with parser := .running (k ()) }
  | .running (.call (.updateBssids _ _) k) => some { s with parser := .running (k ()) }
  | .running (.ret _) => some { s with parser := .idle }
  | _ => none

def acquire (s : System) : Option System :=
  match s.parser with
  | .running (.call (.timedSync op _) k) =>
    (semaphoreOf op).bind fun kind =>
      match s.tokens kind with
      | n :: rest => some { s with
          parser := .reading n k
          tokens := Function.update s.tokens kind rest }
      | [] => none
  | _ => none

/-- `sem_timedwait` gives up, which it never does while it could take the semaphore. -/
def timeOut (s : System) : Option System :=
  match s.parser with
  | .running (.call (.timedSync op _) k) =>
    (semaphoreOf op).bind fun kind =>
      match s.tokens kind with
      | [] => some { s with parser := .running (k ⟨-1, s.responsePacketType⟩) }
      | _ :: _ => none
  | _ => none

def read (s : System) : Option System :=
  match s.parser, s.lastSent with
  | .reading n k, some sent => some { s with
      parser := .running (k ⟨0, s.responsePacketType⟩)
      log := s.log ++ [⟨sent, n, s.responsePacketType⟩] }
  | _, _ => none

/-- The board answers a request that it has not answered yet, with a frame of the
same subtype. -/
def reply (s : System) (number : ℕ) (buffer : List UInt8) : Option System :=
  (s.unanswered.find? fun u => u.number = number).bind fun sent =>
    (controlResponse buffer).bind fun r =>
      if r.1 = packetKind sent.packet then
        some { s with
          unanswered := s.unanswered.filter fun u => u.number ≠ number
          inFlight := s.inFlight ++ [⟨number, buffer⟩]
          replied := Function.update s.replied number (some r.2) }
      else none

/-- `process` stores the byte of a reply, not necessarily of the oldest one. -/
def write (s : System) (number : ℕ) : Option System :=
  match s.process with
  | .idle =>
    (s.inFlight.find? fun f => f.number = number).bind fun frame =>
      (controlResponse frame.buffer).map fun r => { s with
        process := .posting number r.1
        responsePacketType := r.2
        inFlight := s.inFlight.filter fun f => f.number ≠ number }
  | .posting _ _ => none

def post (s : System) : Option System :=
  match s.process with
  | .posting number kind => some { s with
      process := .idle
      tokens :=
        if (s.tokens kind).length < Semaphore.valueMax then
          Function.update s.tokens kind (s.tokens kind ++ [number])
        else s.tokens }
  | .idle => none

/-- `uninitialised` is what the response byte holds before the first reply. -/
def requestReply (jsonLoads : String → Option Json) (uninitialised : UInt8) :
    Machine System Label where
  init := ⟨.idle, .idle, uninitialised, fun _ => [], 0, none, [], [], fun _ => none, []⟩
  step s
    | .command text => beginCommand jsonLoads s text
    | .parse => parse s
    | .acquire => acquire s
    | .timeOut => timeOut s
    | .read => read s
    | .reply number buffer => reply s number buffer
    | .write number => write s number
    | .post => post s

/-- Every confirmed step was confirmed by the reply to its own packet, and read the
byte that this reply carried. -/
def System.Matched (s : System) : Prop :=
  ∀ w ∈ s.log, w.Confirmed →
    w.consumed = w.request.number ∧ s.replied w.consumed = some w.response

/-- The request that the parser has sent and whose wait is not over. -/
def System.waitingFor (s : System) : Option ℕ :=
  match s.parser with
  | .running (.call (.timedSync _ _) _) => s.lastSent.map Sent.number
  | _ => none

/-- A reply is stored and posted while its own request is still being waited for. -/
def InTime (s : System) : Label → Prop
  | .write number => s.waitingFor = some number
  | .post => ∀ number kind, s.process = .posting number kind → s.waitingFor = some number
  | _ => True

theorem semaphoreOf_waitOp {packet : ControlPacket} {q : Request}
    (h : packet.request = some q) : semaphoreOf q.waitOp = some (packetKind packet) := by
  unfold ControlPacket.request at h
  split at h
  · split_ifs at h <;> cases h <;> rfl
  · cases h
    rfl
  · split at h
    · split_ifs at h
      cases h
      rfl
    · split_ifs at h <;> cases h <;> rfl
    · cases h

def System.waitingKind (s : System) : Option Kind :=
  match s.parser with
  | .running (.call (.timedSync op _) _) => semaphoreOf op
  | _ => none

/-- The rest of the command keeps to its script, and while it awaits an answer the
packet sent last is the one of the request. -/
def ParserOk (lastSent : Option Sent) (replied : ℕ → Option UInt8) (byte : UInt8) :
    ParserPc → Prop
  | .idle => True
  | .running p => ∃ P st, Obeys (monitor P) (Ends P) st p ∧
      ∀ q, st.phase = .awaiting q → ∃ sent, lastSent = some sent ∧ sent.packet.request = some q
  | .reading n k => replied n = some byte ∧ (∃ sent, lastSent = some sent ∧ sent.number = n) ∧
      ∀ r, ∃ P st, Obeys (monitor P) (Ends P) st (k r) ∧ ∀ q, st.phase ≠ .awaiting q

structure Inv (s : System) : Prop where
  known : ∀ n, (s.replied n).isSome → n < s.next
  unanswered : ∀ u ∈ s.unanswered, u.number < s.next ∧ s.replied u.number = none ∧
    ∀ sent, s.lastSent = some sent → u.number = sent.number → u = sent
  inFlight : ∀ f ∈ s.inFlight, ∃ kind code, controlResponse f.buffer = some (kind, code) ∧
    s.replied f.number = some code ∧
    ∀ sent, s.lastSent = some sent → f.number = sent.number → kind = packetKind sent.packet
  posting : ∀ n kind, s.process = .posting n kind → (s.replied n).isSome ∧
    n ∉ s.inFlight.map Frame.number ∧
    (s.waitingFor = some n → s.replied n = some s.responsePacketType ∧
      s.waitingKind = some kind ∧ ∀ k, s.tokens k = [])
  tokens : ∀ kind n, n ∈ s.tokens kind → s.tokens kind = [n] ∧ s.waitingFor = some n ∧
    s.waitingKind = some kind ∧ s.replied n = some s.responsePacketType ∧
    n ∉ s.inFlight.map Frame.number
  parser : ParserOk s.lastSent s.replied s.responsePacketType s.parser
  log : ∀ w ∈ s.log, w.consumed = w.request.number ∧ s.replied w.consumed = some w.response

theorem Inv.quiet {s : System} (h : Inv s) (hw : s.waitingFor = none) (kind : Kind) :
    s.tokens kind = [] := by
  refine List.eq_nil_iff_forall_not_mem.mpr fun n hn => ?_
  have hn' := (h.tokens kind n hn).2.1
  rw [hw] at hn'
  cases hn'

/-- Only a program whose script awaits an answer is waiting. -/
theorem waitingFor_eq_none {s : System} {p : Relay UInt8} {P : Option Plan} {st : Progress}
    (hpc : s.parser = .running p) (ho : Obeys (monitor P) (Ends P) st p)
    (hst : ∀ q, st.phase ≠ .awaiting q) : s.waitingFor = none := by
  unfold System.waitingFor
  rw [hpc]
  cases p with
  | ret code => rfl
  | call c k =>
    cases c with
    | timedSync op limit =>
      obtain ⟨next, hM, -⟩ := ho
      obtain ⟨q, remaining, rfl, -⟩ := monitor_timedSync hM
      exact absurd rfl (hst q)
    | sync op packet => rfl
    | setMessage message => rfl
    | updateBssids op text => rfl

/-- The semaphore waited for is the one of the packet sent last. -/
theorem Inv.waiting {s : System} (h : Inv s) {n : ℕ} (hw : s.waitingFor = some n) :
    ∃ sent, s.lastSent = some sent ∧ sent.number = n ∧
      s.waitingKind = some (packetKind sent.packet) := by
  have hp := h.parser
  unfold System.waitingFor at hw
  unfold System.waitingKind
  split at hw
  · rename_i op limit k hpc
    rw [hpc] at hp
    obtain ⟨sent, hl, hn⟩ := Option.map_eq_some_iff.mp hw
    obtain ⟨P, st, ⟨next, hM, -⟩, hlast⟩ := hp
    obtain ⟨q, remaining, rfl, rfl, -⟩ := monitor_timedSync hM
    obtain ⟨sent', hl', hq⟩ := hlast q rfl
    obtain rfl := Option.some.inj (hl.symm.trans hl')
    exact ⟨sent, hl, hn, semaphoreOf_waitOp hq⟩
  · cases hw

/-- The parser moves on to a point where it is not waiting. -/
theorem Inv.move {s : System} (h : Inv s) (hquiet : ∀ kind, s.tokens kind = [])
    {pc : ParserPc} (hw : ({ s with parser := pc } : System).waitingFor = none)
    (hp : ParserOk s.lastSent s.replied s.responsePacketType pc) :
    Inv { s with parser := pc } := by
  refine ⟨h.known, h.unanswered, h.inFlight, fun n kind hpost => ?_, fun kind n hn => ?_, hp, h.log⟩
  · obtain ⟨h1, h2, -⟩ := h.posting n kind hpost
    refine ⟨h1, h2, fun he => ?_⟩
    rw [hw] at he
    cases he
  · have hn : n ∈ s.tokens kind := hn
    rw [hquiet kind] at hn
    cases hn

section Step

variable {jsonLoads : String → Option Json} {s s' : System}

/-- The rest of a command that is not awaiting an answer. -/
theorem Inv.goOn (h : Inv s) (hquiet : ∀ kind, s.tokens kind = []) {p : Relay UInt8}
    {P : Option Plan} {st : Progress} (ho : Obeys (monitor P) (Ends P) st p)
    (hst : ∀ q, st.phase ≠ .awaiting q) : Inv { s with parser := .running p } :=
  h.move hquiet (waitingFor_eq_none rfl ho hst) ⟨P, st, ho, fun q hq => absurd hq (hst q)⟩

theorem Inv.beginCommand (h : Inv s) {text : String}
    (hs : beginCommand jsonLoads s text = some s') : Inv s' := by
  unfold RequestReply.beginCommand at hs
  split at hs
  · rename_i hpc
    obtain rfl := Option.some.inj hs
    have hw : s.waitingFor = none := by rw [System.waitingFor, hpc]
    exact h.goOn (h.quiet hw) (parseJson_obeys jsonLoads text) fun _ he => by cases he
  · cases hs

/-- Sending a packet, after which the parser waits for the answer to it. -/
theorem Inv.send (h : Inv s) {packet : ControlPacket} {p : Relay UInt8} {P : Option Plan}
    {q : Request} {remaining : List Request} (hquiet : ∀ kind, s.tokens kind = [])
    (hq : packet.request = some q)
    (ho : Obeys (monitor P) (Ends P) ⟨remaining, .awaiting q⟩ p) :
    Inv { RequestReply.send s packet with parser := .running p } := by
  refine ⟨fun n hn => (h.known n hn).trans (Nat.lt_succ_self _), fun u hu => ?_, fun f hf => ?_,
    fun n kind hpost => ?_, fun kind n hn => ?_, ⟨P, _, ho, ?_⟩, h.log⟩
  · rcases List.mem_append.mp hu with hu | hu
    · obtain ⟨hlt, hnone, -⟩ := h.unanswered u hu
      refine ⟨hlt.trans (Nat.lt_succ_self _), hnone, ?_⟩
      rintro _ ⟨⟩ he
      exact absurd he hlt.ne
    · obtain rfl := List.mem_singleton.mp hu
      refine ⟨Nat.lt_succ_self _, ?_, fun sent hsent _ => Option.some.inj hsent⟩
      by_contra hne
      exact absurd (h.known s.next (Option.isSome_iff_ne_none.mpr hne)) (lt_irrefl _)
  · obtain ⟨kind, code, hr, hrep, -⟩ := h.inFlight f hf
    refine ⟨kind, code, hr, hrep, ?_⟩
    rintro _ ⟨⟩ he
    exact absurd he (h.known f.number (by rw [hrep]; rfl)).ne
  · obtain ⟨h1, h2, -⟩ := h.posting n kind hpost
    refine ⟨h1, h2, fun he => ?_⟩
    -- the new packet has a number that no reply has
    have hne : n ≠ s.next := (h.known n h1).ne
    unfold System.waitingFor at he
    split at he
    · exact absurd (Option.some.inj he).symm hne
    · cases he
  · have hn : n ∈ s.tokens kind := hn
    rw [hquiet kind] at hn
    cases hn
  · rintro q' ⟨⟩
    exact ⟨_, rfl, hq⟩

theorem Inv.parse (h : Inv s) (hs : parse s = some s') : Inv s' := by
  have hp := h.parser
  unfold RequestReply.parse at hs
  split at hs
  · rename_i op packet k hpc
    obtain rfl := Option.some.inj hs
    rw [hpc] at hp
    obtain ⟨P, st, ⟨next, hM, hk⟩, -⟩ := hp
    obtain ⟨q, remaining, rfl, rfl, hq, hnext⟩ := monitor_sync hM
    have hk := hk ()
    rw [hnext] at hk
    have hw : s.waitingFor = none := by rw [System.waitingFor, hpc]
    rw [warpSync_sendOp]
    exact h.send (h.quiet hw) hq hk
  · rename_i message k hpc
    obtain rfl := Option.some.inj hs
    rw [hpc] at hp
    obtain ⟨P, st, ⟨next, hM, hk⟩, -⟩ := hp
    obtain ⟨hst, hnext⟩ := monitor_setMessage hM
    have hk := hk ()
    rw [hnext] at hk
    have hw : s.waitingFor = none := by rw [System.waitingFor, hpc]
    exact h.goOn (h.quiet hw) hk hst
  · rename_i op text k hpc
    obtain rfl := Option.some.inj hs
    rw [hpc] at hp
    obtain ⟨P, st, ⟨next, hM, hk⟩, -⟩ := hp
    obtain ⟨plan, rfl, rfl, -, -, hnext⟩ := monitor_updateBssids hM
    have hk := hk ()
    rw [hnext] at hk
    have hw : s.waitingFor = none := by rw [System.waitingFor, hpc]
    exact h.goOn (h.quiet hw) hk fun _ he => by cases he
  · rename_i code hpc
    obtain rfl := Option.some.inj hs
    have hw : s.waitingFor = none := by rw [System.waitingFor, hpc]
    exact h.move (h.quiet hw) rfl trivial
  · cases hs

/-- A point of `timed_sync`: the program and the semaphore it waits for. -/
theorem Inv.timedSync (h : Inv s) {op : NodeOp} {limit : ℕ} {k : TimedReply → Relay UInt8}
    (hpc : s.parser = .running (.call (.timedSync op limit) k)) (r : TimedReply) :
    ∃ P st, Obeys (monitor P) (Ends P) st (k r) ∧ ∀ q, st.phase ≠ .awaiting q := by
  have hp := h.parser
  rw [hpc] at hp
  obtain ⟨P, st, ⟨next, hM, hk⟩, -⟩ := hp
  obtain ⟨q, remaining, rfl, -, -, hnext⟩ := monitor_timedSync hM
  have hk := hk r
  rw [hnext] at hk
  refine ⟨P, _, hk, fun q' he => ?_⟩
  dsimp only at he
  split_ifs at he

theorem Inv.acquire (h : Inv s) (hs : acquire s = some s') : Inv s' := by
  unfold RequestReply.acquire at hs
  split at hs
  · rename_i op limit k hpc
    obtain ⟨kind, hkind, hs⟩ := Option.bind_eq_some_iff.mp hs
    split at hs
    · rename_i n rest htok
      obtain rfl := Option.some.inj hs
      obtain ⟨hone, hw, hwk, hrep, -⟩ := h.tokens kind n (by simp [htok])
      obtain ⟨sent, hl, hn, -⟩ := h.waiting hw
      obtain rfl : rest = [] := by
        rw [htok] at hone
        exact (List.cons.inj hone).2
      -- at most one token is about, so taking it leaves every semaphore at zero
      have hquiet : ∀ k, Function.update s.tokens kind [] k = [] := by
        intro k
        by_cases hk : k = kind
        · rw [hk, Function.update_self]
        · rw [Function.update_of_ne hk]
          refine List.eq_nil_iff_forall_not_mem.mpr fun m hm => hk ?_
          have hm' := (h.tokens k m hm).2.2.1
          rw [hwk] at hm'
          exact (Option.some.inj hm').symm
      have hi : Inv { s with tokens := Function.update s.tokens kind [] } := by
        refine ⟨h.known, h.unanswered, h.inFlight, fun m k hpost => ?_, fun k m hm => ?_,
          h.parser, h.log⟩
        · obtain ⟨h1, h2, h3⟩ := h.posting m k hpost
          exact ⟨h1, h2, fun hw' => ⟨(h3 hw').1, (h3 hw').2.1, hquiet⟩⟩
        · have hm : m ∈ Function.update s.tokens kind [] k := hm
          rw [hquiet k] at hm
          cases hm
      exact hi.move hquiet rfl ⟨hrep, ⟨sent, hl, hn⟩, h.timedSync hpc⟩
    · cases hs
  · cases hs

theorem Inv.timeOut (h : Inv s) (hs : timeOut s = some s') : Inv s' := by
  unfold RequestReply.timeOut at hs
  split at hs
  · rename_i op limit k hpc
    obtain ⟨kind, hkind, hs⟩ := Option.bind_eq_some_iff.mp hs
    split at hs
    · rename_i htok
      obtain rfl := Option.some.inj hs
      have hquiet : ∀ k, s.tokens k = [] := by
        intro k
        refine List.eq_nil_iff_forall_not_mem.mpr fun m hm => ?_
        have hm' := (h.tokens k m hm).2.2.1
        rw [System.waitingKind, hpc] at hm'
        obtain rfl : kind = k := Option.some.inj (hkind.symm.trans hm')
        rw [htok] at hm
        cases hm
      obtain ⟨P, st, ho, hst⟩ := h.timedSync hpc ⟨-1, s.responsePacketType⟩
      exact h.goOn hquiet ho hst
    · cases hs
  · cases hs

theorem Inv.read (h : Inv s) (hs : read s = some s') : Inv s' := by
  unfold RequestReply.read at hs
  split at hs
  · rename_i n k sent hpc hl
    obtain rfl := Option.some.inj hs
    have hp := h.parser
    rw [hpc] at hp
    obtain ⟨hrep, ⟨sent', hl', hn⟩, hk⟩ := hp
    obtain rfl := Option.some.inj (hl.symm.trans hl')
    obtain ⟨P, st, ho, hst⟩ := hk ⟨0, s.responsePacketType⟩
    have hw : s.waitingFor = none := by rw [System.waitingFor, hpc]
    have hi := h.goOn (h.quiet hw) ho hst
    refine ⟨hi.known, hi.unanswered, hi.inFlight, hi.posting, hi.tokens, hi.parser, fun w hw => ?_⟩
    rcases List.mem_append.mp hw with hw | hw
    · exact h.log w hw
    · rw [List.mem_singleton.mp hw]
      exact ⟨hn.symm, hrep⟩
  · cases hs

theorem Inv.reply (h : Inv s) {number : ℕ} {buffer : List UInt8}
    (hs : reply s number buffer = some s') : Inv s' := by
  obtain ⟨sent, hfind, hs⟩ := Option.bind_eq_some_iff.mp hs
  obtain ⟨⟨kind, code⟩, hr, hs⟩ := Option.bind_eq_some_iff.mp hs
  obtain ⟨hkind, hs⟩ := Option.ite_none_right_eq_some.mp hs
  obtain rfl := Option.some.inj hs
  obtain rfl : sent.number = number := by simpa using List.find?_some hfind
  obtain ⟨hlt, hnone, hlast⟩ := h.unanswered sent (List.mem_of_find?_eq_some hfind)
  -- a request that has been replied to is another one
  have hold {n : ℕ} {c : UInt8} (hn : s.replied n = some c) :
      Function.update s.replied sent.number (some code) n = some c := by
    have hne : n ≠ sent.number := by
      rintro rfl
      rw [hnone] at hn
      cases hn
    rw [Function.update_of_ne hne, hn]
  have hflight {n : ℕ} (hn : (s.replied n).isSome) (hf : n ∉ s.inFlight.map Frame.number) :
      n ∉ (s.inFlight ++ [(⟨sent.number, buffer⟩ : Frame)]).map Frame.number := by
    simp only [List.map_append, List.mem_append, List.map_cons, List.map_nil,
      List.mem_singleton, not_or]
    refine ⟨hf, ?_⟩
    rintro rfl
    rw [hnone] at hn
    cases hn
  refine ⟨fun n hn => ?_, fun u hu => ?_, fun f hf => ?_, fun n k hpost => ?_, fun k n hn => ?_,
    ?_, fun w hw => ⟨(h.log w hw).1, hold (h.log w hw).2⟩⟩
  · by_cases hne : n = sent.number
    · rw [hne]
      exact hlt
    · have hn : (Function.update s.replied sent.number (some code) n).isSome := hn
      rw [Function.update_of_ne hne] at hn
      exact h.known n hn
  · obtain ⟨hu, hne⟩ := List.mem_filter.mp hu
    obtain ⟨h1, h2, h3⟩ := h.unanswered u hu
    refine ⟨h1, ?_, h3⟩
    change Function.update s.replied sent.number (some code) u.number = none
    rw [Function.update_of_ne (by simpa using hne), h2]
  · rcases List.mem_append.mp hf with hf | hf
    · obtain ⟨kind', code', h1, h2, h3⟩ := h.inFlight f hf
      exact ⟨kind', code', h1, hold h2, h3⟩
    · obtain rfl := List.mem_singleton.mp hf
      refine ⟨kind, code, hr, Function.update_self .., fun sent' hl hn => ?_⟩
      rw [← hlast sent' hl hn]
      exact hkind
  · obtain ⟨h1, h2, h3⟩ := h.posting n k hpost
    obtain ⟨c, hc⟩ := Option.isSome_iff_exists.mp h1
    refine ⟨Option.isSome_iff_exists.mpr ⟨c, hold hc⟩, hflight h1 h2, fun hw => ?_⟩
    exact ⟨hold (h3 hw).1, (h3 hw).2⟩
  · obtain ⟨h1, h2, h3, h4, h5⟩ := h.tokens k n hn
    exact ⟨h1, h2, h3, hold h4, hflight (by rw [h4]; rfl) h5⟩
  · have hp := h.parser
    cases hpc : s.parser with
    | idle => trivial
    | running p =>
      rw [hpc] at hp
      exact hp
    | reading n k =>
      rw [hpc] at hp
      exact ⟨hold hp.1, hp.2⟩

theorem Inv.write (h : Inv s) {number : ℕ} (hin : s.waitingFor = some number)
    (hs : write s number = some s') : Inv s' := by
  unfold RequestReply.write at hs
  split at hs
  · obtain ⟨frame, hfind, hs⟩ := Option.bind_eq_some_iff.mp hs
    obtain ⟨⟨kind, code⟩, hr, rfl⟩ := Option.map_eq_some_iff.mp hs
    obtain rfl : frame.number = number := by simpa using List.find?_some hfind
    have hmem := List.mem_of_find?_eq_some hfind
    obtain ⟨kind', code', hr', hrep, hkind⟩ := h.inFlight frame hmem
    obtain ⟨rfl, rfl⟩ := Prod.mk.inj (Option.some.inj (hr.symm.trans hr'))
    obtain ⟨sent, hl, hn, hwk⟩ := h.waiting hin
    -- the reply is stored for the first time, so its request has no token yet
    have hquiet : ∀ k, s.tokens k = [] := by
      intro k
      refine List.eq_nil_iff_forall_not_mem.mpr fun m hm => ?_
      obtain ⟨-, hw, -, -, hnot⟩ := h.tokens k m hm
      obtain rfl := Option.some.inj (hin.symm.trans hw)
      exact hnot (List.mem_map_of_mem hmem)
    refine ⟨h.known, h.unanswered, fun f hf => h.inFlight f (List.mem_of_mem_filter hf),
      fun n k hpost => ?_, fun k n hm => ?_, ?_, h.log⟩
    · obtain ⟨rfl, rfl⟩ := ProcessPc.posting.inj hpost
      refine ⟨by rw [hrep]; rfl, ?_, fun _ => ⟨hrep, ?_, hquiet⟩⟩
      · intro hm
        obtain ⟨f, hf, he⟩ := List.mem_map.mp hm
        simpa [he] using (List.mem_filter.mp hf).2
      · rw [hkind sent hl hn.symm]
        exact hwk
    · have hm : n ∈ s.tokens k := hm
      rw [hquiet k] at hm
      cases hm
    · have hp := h.parser
      unfold System.waitingFor at hin
      split at hin
      · rename_i op limit k hpc
        rw [hpc] at hp
        rw [hpc]
        exact hp
      · cases hin
  · cases hs

theorem Inv.post (h : Inv s)
    (hin : ∀ number kind, s.process = .posting number kind → s.waitingFor = some number)
    (hs : post s = some s') : Inv s' := by
  unfold RequestReply.post at hs
  split at hs
  · rename_i number kind hpc
    obtain rfl := Option.some.inj hs
    have hw := hin number kind hpc
    obtain ⟨-, hnot, hwait⟩ := h.posting number kind hpc
    obtain ⟨hrep, hwk, hquiet⟩ := hwait hw
    have htok : (if (s.tokens kind).length < Semaphore.valueMax then
        Function.update s.tokens kind (s.tokens kind ++ [number]) else s.tokens) =
        Function.update s.tokens kind [number] := by
      rw [hquiet kind]
      rfl
    rw [htok]
    refine ⟨h.known, h.unanswered, h.inFlight, fun _ _ hp => (by cases hp), fun k n hm => ?_,
      h.parser, h.log⟩
    have hm : n ∈ Function.update s.tokens kind [number] k := hm
    by_cases hk : k = kind
    · subst hk
      rw [Function.update_self] at hm
      obtain rfl := List.mem_singleton.mp hm
      exact ⟨Function.update_self .., hw, hwk, hrep, hnot⟩
    · rw [Function.update_of_ne hk, hquiet k] at hm
      cases hm
  · cases hs

end Step

/-- If no reply is late, every confirmed step was confirmed by the reply to its own
packet. -/
theorem confirmed_by_own_reply {jsonLoads : String → Option Json} {uninitialised : UInt8}
    {s : System} (h : (requestReply jsonLoads uninitialised).ReachableIf InTime s) :
    s.Matched := by
  have hinv : Inv s := by
    apply h.invariant
    · exact ⟨fun _ hn => (by cases hn), fun _ hu => (by cases hu), fun _ hf => (by cases hf),
        fun _ _ hp => (by cases hp), fun _ _ hn => (by cases hn), trivial,
        fun _ hw => (by cases hw)⟩
    · intro s l s' hi hin hs
      cases l with
      | command text => exact hi.beginCommand hs
      | parse => exact hi.parse hs
      | acquire => exact hi.acquire hs
      | timeOut => exact hi.timeOut hs
      | read => exact hi.read hs
      | reply number buffer => exact hi.reply hs
      | write number => exact hi.write hin hs
      | post => exact hi.post hin hs
  exact fun w hw _ => hinv.log w hw

def addText : String :=
  "\x7b\"command\": \"_radio_set_command\", \"radio\": \"radio0\", " ++
    "\"changes\": \x7b\"macaddr\": \"00:00:00:00:00:01\"\x7d\x7d"

def loadAdd (text : String) : Option Json :=
  if text = addText then
    some (.object [(jsonCommand, .string radioSetCmd), (jsonRadio, .string "radio0"),
      (jsonChanges, .object [(jsonMacAddress, .string "00:00:00:00:00:01")])])
  else none

def addReply : List UInt8 := [typeControl, subtypeMacAddressControl, macAddCode]

/-- Sent, answered, stored, posted, taken and read. -/
theorem confirmed_by_own_reply_add :
    ∃ s, (requestReply loadAdd 0).ReachableIf InTime s ∧ (∃ w ∈ s.log, w.Confirmed) ∧
      s.Matched := by
  have h := (Machine.ReachableIf.init (M := requestReply loadAdd 0) (C := InTime)).exec
    [.command addText, .parse, .reply 0 addReply, .write 0, .post, .acquire, .read] ?_ rfl
  · refine ⟨_, h, ⟨_, List.mem_singleton_self _, _, rfl, ?_⟩, confirmed_by_own_reply h⟩
    decide
  · refine And.intro trivial <| And.intro trivial <| And.intro trivial <| And.intro rfl <|
      And.intro ?_ <| And.intro trivial <| And.intro trivial trivial
    rintro _ _ ⟨⟩
    rfl

/-- The reply to a request that has timed out confirms the next one. -/
theorem late_reply_confirms :
    ∃ s, (requestReply loadAdd 0).Reachable s ∧ ¬s.Matched := by
  refine ⟨_, Machine.reachable_of_exec [.command addText, .parse, .timeOut, .parse, .parse,
    .command addText, .parse, .reply 0 addReply, .write 0, .post, .acquire, .read] rfl, ?_⟩
  intro hm
  have h := hm _ (List.mem_singleton_self _) ⟨_, rfl, by decide⟩
  exact absurd h.1 (by decide)

end AuroraRelay.RequestReply
