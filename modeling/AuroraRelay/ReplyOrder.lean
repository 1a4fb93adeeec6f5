import Mathlib.Algebra.Order.Group.Multiset
import Mathlib.Tactic.Abel
import AuroraRelay.RequestReply

namespace AuroraRelay.RequestReply
open CommsAgent Interaction Transition WarpProtocol

def ProcessPc.held : ProcessPc → Multiset ℕ
  | .idle => 0
  | .posting number _ => {number}

def ParserPc.held : ParserPc → Multiset ℕ
  | .reading consumed _ => {consumed}
  | _ => 0

def posted (tokens : Kind → List ℕ) : Multiset ℕ :=
  tokens .macAddress + tokens .transmission + tokens .bssid

/-- The numbers of the requests and replies on all stages from the board to a wait. -/
def System.underway (s : System) : Multiset ℕ :=
  (s.unanswered.map Sent.number : Multiset ℕ) + (s.inFlight.map Frame.number : Multiset ℕ) +
    s.process.held + posted s.tokens + s.parser.held + (s.log.map Wait.consumed : Multiset ℕ)

theorem posted_update (tokens : Kind → List ℕ) (kind : Kind) (numbers : List ℕ) :
    posted (Function.update tokens kind numbers) + (tokens kind : Multiset ℕ) =
      posted tokens + numbers := by
  cases kind <;>
    simp only [posted, Function.update_self, Function.update_of_ne, ne_eq, reduceCtorEq,
      not_false_eq_true] <;> abel

theorem posted_take {tokens : Kind → List ℕ} {kind : Kind} {n : ℕ} {rest : List ℕ}
    (h : tokens kind = n :: rest) :
    posted (Function.update tokens kind rest) + {n} = posted tokens := by
  have hupdate := posted_update tokens kind rest
  rw [h, ← Multiset.cons_coe, ← Multiset.singleton_add, ← add_assoc] at hupdate
  exact add_right_cancel hupdate

theorem posted_put (tokens : Kind → List ℕ) (kind : Kind) (n : ℕ) :
    posted (Function.update tokens kind (tokens kind ++ [n])) = posted tokens + {n} := by
  have hupdate := posted_update tokens kind (tokens kind ++ [n])
  rw [← Multiset.coe_add, Multiset.coe_singleton, add_comm (tokens kind : Multiset ℕ) {n},
    ← add_assoc] at hupdate
  exact add_right_cancel hupdate

/-- One occurrence of a number stands for all that are taken out. -/
theorem filter_add_le {α : Type} {f : α → ℕ} {l : List α} {a : α} (h : a ∈ l) :
    (((l.filter fun b => f b ≠ f a).map f : List ℕ) : Multiset ℕ) + {f a} ≤ (l.map f : List ℕ) := by
  have hsplit := Multiset.filter_add_not (· ≠ f a) ((l.map f : List ℕ) : Multiset ℕ)
  rw [Multiset.filter_coe, List.filter_map] at hsplit
  calc (((l.filter fun b => f b ≠ f a).map f : List ℕ) : Multiset ℕ) + {f a}
      ≤ ((l.filter fun b => f b ≠ f a).map f : List ℕ) +
          Multiset.filter (fun m => ¬m ≠ f a) ((l.map f : List ℕ) : Multiset ℕ) := by
        refine add_le_add_right (Multiset.singleton_le.mpr ?_) _
        simpa using ⟨a, h, rfl⟩
    _ = (l.map f : List ℕ) := hsplit

structure Traced where
  system : System
  requests : List Sent

def traced (jsonLoads : String → Option Json) (uninitialised : UInt8) : Machine Traced Label where
  init := ⟨(requestReply jsonLoads uninitialised).init, []⟩
  step t l := ((requestReply jsonLoads uninitialised).step t.system l).map fun s =>
    ⟨s, t.requests ++ if s.next = t.system.next then [] else s.lastSent.toList⟩

def OfKind (requests : List Sent) (number : ℕ) (kind : Kind) : Prop :=
  ∃ r, requests[number]? = some r ∧ packetKind r.packet = kind

theorem OfKind.grow {requests : List Sent} {number : ℕ} {kind : Kind}
    (h : OfKind requests number kind) (more : List Sent) :
    OfKind (requests ++ more) number kind := by
  obtain ⟨r, hr, hkind⟩ := h
  refine ⟨r, ?_, hkind⟩
  rw [List.getElem?_append_left (List.getElem?_eq_some_iff.mp hr).1, hr]

/-- What the parser is doing: a command that keeps to its script, and a wait that is ended by a
reply of the kind of the packet sent last. -/
def ParserAwaits (lastSent : Option Sent) (requests : List Sent) : ParserPc → Prop
  | .idle => True
  | .running p => ∃ P st, Obeys (monitor P) (Ends P) st p ∧
      ∀ q, st.phase = .awaiting q → ∃ sent, lastSent = some sent ∧ sent.packet.request = some q
  | .reading n k => (∃ sent, lastSent = some sent ∧ OfKind requests n (packetKind sent.packet)) ∧
      ∀ r, ∃ P st, Obeys (monitor P) (Ends P) st (k r) ∧ ∀ q, st.phase ≠ .awaiting q

/-- A wait was ended by the reply to a request of the same kind, sent before or for this wait. -/
def Wait.Accounted (requests : List Sent) (w : Wait) : Prop :=
  requests[w.request.number]? = some w.request ∧ w.consumed ≤ w.request.number ∧
    OfKind requests w.consumed (packetKind w.request.packet)

structure Accounted (s : System) (requests : List Sent) : Prop where
  nodup : s.underway.Nodup
  sent : ∀ n ∈ s.underway, n < s.next
  numbered : requests.length = s.next
  last : ∀ sent, s.lastSent = some sent → sent.number + 1 = s.next ∧
    requests[sent.number]? = some sent
  unanswered : ∀ u ∈ s.unanswered, OfKind requests u.number (packetKind u.packet)
  inFlight : ∀ f ∈ s.inFlight, ∃ kind code, controlResponse f.buffer = some (kind, code) ∧
    OfKind requests f.number kind
  posting : ∀ n kind, s.process = .posting n kind → OfKind requests n kind
  tokens : ∀ kind, ∀ n ∈ s.tokens kind, OfKind requests n kind
  parser : ParserAwaits s.lastSent requests s.parser
  log : ∀ w ∈ s.log, w.Accounted requests

section Step

variable {jsonLoads : String → Option Json} {s s' : System} {requests : List Sent}

/-- The parser moves on, within a command or between two. -/
theorem Accounted.move (h : Accounted s requests) (hheld : s.parser.held = 0) {pc : ParserPc}
    (hpc : pc.held = 0) (hp : ParserAwaits s.lastSent requests pc) :
    Accounted { s with parser := pc } requests := by
  have hunderway : ({ s with parser := pc } : System).underway = s.underway := by
    unfold System.underway
    rw [hheld, hpc]
  refine ⟨hunderway ▸ h.nodup, hunderway ▸ h.sent, h.numbered, h.last, h.unanswered, h.inFlight,
    h.posting, h.tokens, hp, h.log⟩

theorem Accounted.beginCommand (h : Accounted s requests) {text : String}
    (hs : beginCommand jsonLoads s text = some s') : Accounted s' requests := by
  unfold RequestReply.beginCommand at hs
  split at hs
  · rename_i hpc
    obtain rfl := Option.some.inj hs
    refine h.move (by rw [hpc]; rfl) rfl ⟨_, _, parseJson_obeys jsonLoads text, ?_⟩
    exact fun q hq => by cases hq
  · cases hs

theorem Accounted.send (h : Accounted s requests) (hheld : s.parser.held = 0)
    {packet : ControlPacket} {p : Relay UInt8} {P : Option Plan} {q : Request}
    {remaining : List Request} (hq : packet.request = some q)
    (ho : Obeys (monitor P) (Ends P) ⟨remaining, .awaiting q⟩ p) :
    Accounted { RequestReply.send s packet with parser := .running p }
      (requests ++ [⟨s.next, packet⟩]) := by
  have hunderway : ({ RequestReply.send s packet with parser := .running p } : System).underway =
      s.next ::ₘ s.underway := by
    unfold System.underway
    rw [hheld, ← Multiset.singleton_add]
    simp only [RequestReply.send, ParserPc.held, List.map_append, List.map_cons, List.map_nil,
      ← Multiset.coe_add, Multiset.coe_singleton]
    abel
  have hlast : (requests ++ [(⟨s.next, packet⟩ : Sent)])[s.next]? = some ⟨s.next, packet⟩ := by
    rw [List.getElem?_append_right h.numbered.le, h.numbered, Nat.sub_self]
    rfl
  refine ⟨?_, ?_, ?_, ?_, ?_, ?_, ?_, ?_, ⟨P, _, ho, ?_⟩, ?_⟩
  · rw [hunderway, Multiset.nodup_cons]
    exact ⟨fun hmem => lt_irrefl _ (h.sent _ hmem), h.nodup⟩
  · rw [hunderway]
    intro n hn
    rcases Multiset.mem_cons.mp hn with rfl | hn
    · exact Nat.lt_succ_self _
    · exact (h.sent n hn).trans (Nat.lt_succ_self _)
  · rw [List.length_append, h.numbered]
    rfl
  · rintro _ ⟨⟩
    exact ⟨rfl, hlast⟩
  · intro u hu
    rcases List.mem_append.mp hu with hu | hu
    · exact (h.unanswered u hu).grow _
    · rw [List.mem_singleton.mp hu]
      exact ⟨_, hlast, rfl⟩
  · intro f hf
    obtain ⟨kind, code, hr, hkind⟩ := h.inFlight f hf
    exact ⟨kind, code, hr, hkind.grow _⟩
  · exact fun n kind hpost => (h.posting n kind hpost).grow _
  · exact fun kind n hn => (h.tokens kind n hn).grow _
  · rintro _ ⟨⟩
    exact ⟨_, rfl, hq⟩
  · intro w hw
    obtain ⟨hrequest, hle, hkind⟩ := h.log w hw
    refine ⟨?_, hle, hkind.grow _⟩
    rw [List.getElem?_append_left (List.getElem?_eq_some_iff.mp hrequest).1, hrequest]

theorem Accounted.parse (h : Accounted s requests) (hs : parse s = some s') :
    Accounted s' (requests ++ if s'.next = s.next then [] else s'.lastSent.toList) := by
  have hp := h.parser
  unfold RequestReply.parse at hs
  split at hs
  · rename_i op packet k hpc
    obtain rfl := Option.some.inj hs
    rw [hpc] at hp
    obtain ⟨P, st, ⟨next, hM, hk⟩, -⟩ := hp
    obtain ⟨q, remaining, rfl, rfl, hq, hnext⟩ := monitor_sync hM
    have hk := hk ()
    rw [hnext] at hk
    rw [warpSync_sendOp]
    have hnew : s.next + 1 ≠ s.next := by omega
    change Accounted { RequestReply.send s packet with parser := .running (k ()) }
      (requests ++ if s.next + 1 = s.next then [] else [⟨s.next, packet⟩])
    rw [if_neg hnew]
    exact h.send (by rw [hpc]; rfl) hq hk
  · rename_i message k hpc
    obtain rfl := Option.some.inj hs
    rw [hpc] at hp
    obtain ⟨P, st, ⟨next, hM, hk⟩, -⟩ := hp
    obtain ⟨hst, hnext⟩ := monitor_setMessage hM
    have hk := hk ()
    rw [hnext] at hk
    rw [if_pos rfl, List.append_nil]
    exact h.move (by rw [hpc]; rfl) rfl ⟨P, st, hk, fun q hq => absurd hq (hst q)⟩
  · rename_i op text k hpc
    obtain rfl := Option.some.inj hs
    rw [hpc] at hp
    obtain ⟨P, st, ⟨next, hM, hk⟩, -⟩ := hp
    obtain ⟨plan, rfl, rfl, -, -, hnext⟩ := monitor_updateBssids hM
    have hk := hk ()
    rw [hnext] at hk
    rw [if_pos rfl, List.append_nil]
    exact h.move (by rw [hpc]; rfl) rfl ⟨_, _, hk, fun q hq => by cases hq⟩
  · rename_i code hpc
    obtain rfl := Option.some.inj hs
    rw [if_pos rfl, List.append_nil]
    exact h.move (by rw [hpc]; rfl) rfl trivial
  · cases hs

/-- At a wait: how the command goes on, and which semaphore it waits for. -/
theorem Accounted.timedSync (h : Accounted s requests) {op : NodeOp} {limit : ℕ}
    {k : TimedReply → Relay UInt8} (hpc : s.parser = .running (.call (.timedSync op limit) k)) :
    (∃ sent, s.lastSent = some sent ∧ semaphoreOf op = some (packetKind sent.packet)) ∧
      ∀ r, ∃ P st, Obeys (monitor P) (Ends P) st (k r) ∧ ∀ q, st.phase ≠ .awaiting q := by
  have hp := h.parser
  rw [hpc] at hp
  obtain ⟨P, st, ⟨next, hM, hk⟩, hlast⟩ := hp
  obtain ⟨q, remaining, rfl, rfl, -, hnext⟩ := monitor_timedSync hM
  obtain ⟨sent, hsent, hq⟩ := hlast q rfl
  refine ⟨⟨sent, hsent, semaphoreOf_waitOp hq⟩, fun r => ?_⟩
  have hk := hk r
  rw [hnext] at hk
  refine ⟨P, _, hk, fun q' he => ?_⟩
  dsimp only at he
  split_ifs at he

theorem Accounted.acquire (h : Accounted s requests) (hs : acquire s = some s') :
    Accounted s' requests := by
  unfold RequestReply.acquire at hs
  split at hs
  · rename_i op limit k hpc
    obtain ⟨kind, hkind, hs⟩ := Option.bind_eq_some_iff.mp hs
    split at hs
    · rename_i n rest htok
      obtain rfl := Option.some.inj hs
      obtain ⟨⟨sent, hsent, hop⟩, hk⟩ := h.timedSync hpc
      obtain rfl := Option.some.inj (hkind.symm.trans hop)
      have hunderway : ({ s with
          parser := .reading n k
          tokens := Function.update s.tokens (packetKind sent.packet) rest } : System).underway =
          s.underway := by
        unfold System.underway
        rw [← posted_take htok, hpc]
        simp only [ParserPc.held]
        abel
      refine ⟨hunderway ▸ h.nodup, hunderway ▸ h.sent, h.numbered, h.last, h.unanswered, h.inFlight,
        h.posting, fun kind m hm => ?_, ⟨⟨sent, hsent, h.tokens _ n (by simp [htok])⟩, hk⟩, h.log⟩
      have hm : m ∈ Function.update s.tokens (packetKind sent.packet) rest kind := hm
      refine h.tokens kind m ?_
      by_cases hkind : kind = packetKind sent.packet
      · subst hkind
        rw [Function.update_self] at hm
        rw [htok]
        exact List.mem_cons_of_mem n hm
      · rwa [Function.update_of_ne hkind] at hm
    · cases hs
  · cases hs

theorem Accounted.timeOut (h : Accounted s requests) (hs : timeOut s = some s') :
    Accounted s' requests := by
  unfold RequestReply.timeOut at hs
  split at hs
  · rename_i op limit k hpc
    obtain ⟨kind, -, hs⟩ := Option.bind_eq_some_iff.mp hs
    split at hs
    · obtain rfl := Option.some.inj hs
      obtain ⟨P, st, hobey, hst⟩ := (h.timedSync hpc).2 ⟨-1, s.responsePacketType⟩
      exact h.move (by rw [hpc]; rfl) rfl ⟨P, st, hobey, fun q hq => absurd hq (hst q)⟩
    · cases hs
  · cases hs

theorem Accounted.read (h : Accounted s requests) (hs : read s = some s') :
    Accounted s' requests := by
  unfold RequestReply.read at hs
  split at hs
  · rename_i n k sent hpc hsent
    obtain rfl := Option.some.inj hs
    have hp := h.parser
    rw [hpc] at hp
    obtain ⟨⟨sent', hsent', hkind⟩, hk⟩ := hp
    obtain rfl := Option.some.inj (hsent.symm.trans hsent')
    obtain ⟨P, st, hobey, hst⟩ := hk ⟨0, s.responsePacketType⟩
    have hunderway : ({ s with
        parser := .running (k ⟨0, s.responsePacketType⟩)
        log := s.log ++ [⟨sent, n, s.responsePacketType⟩] } : System).underway = s.underway := by
      unfold System.underway
      rw [hpc]
      simp only [ParserPc.held, List.map_append, List.map_cons, List.map_nil, ← Multiset.coe_add,
        Multiset.coe_singleton]
      abel
    obtain ⟨hnext, hrequest⟩ := h.last sent hsent
    have hn : n < s.next := h.sent n (by simp [System.underway, hpc, ParserPc.held])
    refine ⟨hunderway ▸ h.nodup, hunderway ▸ h.sent, h.numbered, h.last, h.unanswered, h.inFlight,
      h.posting, h.tokens, ⟨P, st, hobey, fun q hq => absurd hq (hst q)⟩, fun w hw => ?_⟩
    rcases List.mem_append.mp hw with hw | hw
    · exact h.log w hw
    · rw [List.mem_singleton.mp hw]
      refine ⟨hrequest, ?_, hkind⟩
      dsimp only
      omega
  · cases hs

theorem Accounted.reply (h : Accounted s requests) {number : ℕ} {buffer : List UInt8}
    (hs : reply s number buffer = some s') : Accounted s' requests := by
  obtain ⟨sent, hfind, hs⟩ := Option.bind_eq_some_iff.mp hs
  obtain ⟨⟨kind, code⟩, hr, hs⟩ := Option.bind_eq_some_iff.mp hs
  obtain ⟨hkind, hs⟩ := Option.ite_none_right_eq_some.mp hs
  obtain rfl := Option.some.inj hs
  obtain rfl : sent.number = number := by simpa using List.find?_some hfind
  have hmem := List.mem_of_find?_eq_some hfind
  have hunderway : ({ s with
      unanswered := s.unanswered.filter fun u => u.number ≠ sent.number
      inFlight := s.inFlight ++ [⟨sent.number, buffer⟩]
      replied := Function.update s.replied sent.number (some code) } : System).underway ≤
      s.underway := by
    unfold System.underway
    simp only [List.map_append, List.map_cons, List.map_nil, ← Multiset.coe_add,
      Multiset.coe_singleton]
    calc _ = (((s.unanswered.filter fun u => u.number ≠ sent.number).map Sent.number : List ℕ) :
          Multiset ℕ) + {sent.number} + ((s.inFlight.map Frame.number : Multiset ℕ) +
          s.process.held + posted s.tokens + s.parser.held +
          (s.log.map Wait.consumed : Multiset ℕ)) := by abel
      _ ≤ _ := add_le_add_left (filter_add_le hmem) _
      _ = _ := by abel
  refine ⟨Multiset.nodup_of_le hunderway h.nodup,
    fun n hn => h.sent n (Multiset.mem_of_le hunderway hn), h.numbered, h.last,
    fun u hu => h.unanswered u (List.mem_of_mem_filter hu), fun f hf => ?_, h.posting, h.tokens,
    h.parser, h.log⟩
  rcases List.mem_append.mp hf with hf | hf
  · exact h.inFlight f hf
  · rw [List.mem_singleton.mp hf]
    have hkind : kind = packetKind sent.packet := hkind
    rw [hkind] at hr
    exact ⟨_, code, hr, h.unanswered sent hmem⟩

theorem Accounted.write (h : Accounted s requests) {number : ℕ} (hs : write s number = some s') :
    Accounted s' requests := by
  unfold RequestReply.write at hs
  split at hs
  · rename_i hpc
    obtain ⟨frame, hfind, hs⟩ := Option.bind_eq_some_iff.mp hs
    obtain ⟨⟨kind, code⟩, hr, rfl⟩ := Option.map_eq_some_iff.mp hs
    obtain rfl : frame.number = number := by simpa using List.find?_some hfind
    have hmem := List.mem_of_find?_eq_some hfind
    have hunderway : ({ s with
        process := .posting frame.number kind
        responsePacketType := code
        inFlight := s.inFlight.filter fun f => f.number ≠ frame.number } : System).underway ≤
        s.underway := by
      unfold System.underway
      rw [hpc]
      simp only [ProcessPc.held]
      calc _ = (((s.inFlight.filter fun f => f.number ≠ frame.number).map Frame.number : List ℕ) :
            Multiset ℕ) + {frame.number} + ((s.unanswered.map Sent.number : Multiset ℕ) +
            posted s.tokens + s.parser.held + (s.log.map Wait.consumed : Multiset ℕ)) := by abel
        _ ≤ _ := add_le_add_left (filter_add_le hmem) _
        _ = _ := by abel
    refine ⟨Multiset.nodup_of_le hunderway h.nodup,
      fun n hn => h.sent n (Multiset.mem_of_le hunderway hn), h.numbered, h.last, h.unanswered,
      fun f hf => h.inFlight f (List.mem_of_mem_filter hf), fun n k hpost => ?_, h.tokens, h.parser,
      h.log⟩
    obtain ⟨rfl, rfl⟩ := ProcessPc.posting.inj hpost
    obtain ⟨kind', code', hr', hkind⟩ := h.inFlight frame hmem
    obtain ⟨rfl, rfl⟩ := Prod.mk.inj (Option.some.inj (hr.symm.trans hr'))
    exact hkind
  · cases hs

theorem Accounted.post (h : Accounted s requests) (hs : post s = some s') :
    Accounted s' requests := by
  unfold RequestReply.post at hs
  split at hs
  · rename_i number kind hpc
    obtain rfl := Option.some.inj hs
    have hnumber := h.posting number kind hpc
    have hheld : s.process.held = {number} := by rw [hpc]; rfl
    split_ifs with hroom
    · have hunderway : ({ s with
          process := .idle
          tokens := Function.update s.tokens kind (s.tokens kind ++ [number]) } : System).underway =
          s.underway := by
        unfold System.underway
        rw [hheld, posted_put]
        simp only [ProcessPc.held]
        abel
      refine ⟨hunderway ▸ h.nodup, hunderway ▸ h.sent, h.numbered, h.last, h.unanswered, h.inFlight,
        fun _ _ hp => (by cases hp), fun k m hm => ?_, h.parser, h.log⟩
      have hm : m ∈ Function.update s.tokens kind (s.tokens kind ++ [number]) k := hm
      by_cases hk : k = kind
      · subst hk
        rw [Function.update_self] at hm
        rcases List.mem_append.mp hm with hm | hm
        · exact h.tokens k m hm
        · rwa [List.mem_singleton.mp hm]
      · rw [Function.update_of_ne hk] at hm
        exact h.tokens k m hm
    · -- a semaphore at its largest value stays as it is
      have hunderway : ({ s with process := .idle } : System).underway ≤ s.underway := by
        unfold System.underway
        rw [hheld]
        simp only [ProcessPc.held]
        gcongr
        exact Multiset.zero_le _
      exact ⟨Multiset.nodup_of_le hunderway h.nodup,
        fun n hn => h.sent n (Multiset.mem_of_le hunderway hn), h.numbered, h.last, h.unanswered,
        h.inFlight, fun _ _ hp => (by cases hp), h.tokens, h.parser, h.log⟩
  · cases hs

theorem Accounted.step {uninitialised : UInt8} {l : Label} (h : Accounted s requests)
    (hs : (requestReply jsonLoads uninitialised).step s l = some s') :
    Accounted s' (requests ++ if s'.next = s.next then [] else s'.lastSent.toList) := by
  -- only the parser sends packets
  have hquiet (h' : Accounted s' requests) :
      Accounted s' (requests ++ if s'.next = s.next then [] else s'.lastSent.toList) := by
    rw [if_pos (h'.numbered.symm.trans h.numbered), List.append_nil]
    exact h'
  cases l with
  | parse => exact h.parse hs
  | command text => exact hquiet (h.beginCommand hs)
  | acquire => exact hquiet (h.acquire hs)
  | timeOut => exact hquiet (h.timeOut hs)
  | read => exact hquiet (h.read hs)
  | reply number buffer => exact hquiet (h.reply hs)
  | write number => exact hquiet (h.write hs)
  | post => exact hquiet (h.post hs)

end Step

theorem accounted_of_reachable {jsonLoads : String → Option Json} {uninitialised : UInt8}
    {t : Traced} (h : (traced jsonLoads uninitialised).Reachable t) :
    Accounted t.system t.requests := by
  apply h.invariant (I := fun t => Accounted t.system t.requests)
  · refine ⟨Multiset.nodup_zero, fun n hn => ?_, rfl, ?_, ?_, ?_, ?_, ?_, trivial, ?_⟩
    · exact absurd hn (Multiset.notMem_zero n)
    all_goals
      intros
      contradiction
  · intro t l t' ht hstep
    obtain ⟨s', hs, rfl⟩ := Option.map_eq_some_iff.mp hstep
    exact ht.step hs

/-- However late the replies are: no reply ends two waits, and each ends a wait for a packet of
the kind of its own request, which was sent before or for this wait. -/
theorem replies_end_later_waits {jsonLoads : String → Option Json} {uninitialised : UInt8}
    {t : Traced} (h : (traced jsonLoads uninitialised).Reachable t) :
    (t.system.log.map Wait.consumed).Nodup ∧ ∀ w ∈ t.system.log, w.Accounted t.requests := by
  have hinv := accounted_of_reachable h
  refine ⟨?_, hinv.log⟩
  have hlog : (t.system.log.map Wait.consumed : Multiset ℕ) ≤ t.system.underway :=
    Multiset.le_add_left _ _
  exact Multiset.coe_nodup.mp (Multiset.nodup_of_le hlog hinv.nodup)

/-- The first of two requests is given up and its reply ends the wait for the second. -/
theorem replies_end_later_waits_late : ∃ t, (traced loadAdd 0).Reachable t ∧
    (∃ w ∈ t.system.log, w.consumed < w.request.number) ∧
    ∀ w ∈ t.system.log, w.Accounted t.requests := by
  have h := Machine.reachable_of_exec (M := traced loadAdd 0)
    [.command addText, .parse, .timeOut, .parse, .parse, .command addText, .parse,
      .reply 0 addReply, .write 0, .post, .acquire, .read] rfl
  exact ⟨_, h, ⟨_, List.mem_singleton_self _, by decide⟩, (replies_end_later_waits h).2⟩

/-- Whatever is on its way belongs to the request that is being waited for. -/
structure Prompt (s : System) : Prop where
  inv : Inv s
  unanswered : ∀ u ∈ s.unanswered, s.waitingFor = some u.number
  inFlight : ∀ f ∈ s.inFlight, s.waitingFor = some f.number
  posting : ∀ n kind, s.process = .posting n kind → s.waitingFor = some n

def System.Still (s : System) : Prop :=
  s.unanswered = [] ∧ s.inFlight = [] ∧ s.process = .idle

theorem prompt_of_still {s : System} (hinv : Inv s) (h : s.Still) : Prompt s := by
  obtain ⟨hunanswered, hinFlight, hprocess⟩ := h
  refine ⟨hinv, fun u hu => ?_, fun f hf => ?_, fun n kind hp => ?_⟩
  · rw [hunanswered] at hu
    cases hu
  · rw [hinFlight] at hf
    cases hf
  · rw [hprocess] at hp
    cases hp

theorem Prompt.still {s : System} (h : Prompt s) (hw : s.waitingFor = none) : s.Still := by
  refine ⟨List.eq_nil_iff_forall_not_mem.mpr fun u hu => ?_,
    List.eq_nil_iff_forall_not_mem.mpr fun f hf => ?_, ?_⟩
  · have := h.unanswered u hu
    rw [hw] at this
    cases this
  · have := h.inFlight f hf
    rw [hw] at this
    cases this
  · cases hp : s.process with
    | idle => rfl
    | posting n kind =>
      have := h.posting n kind hp
      rw [hw] at this
      cases this

/-- A program whose script awaits an answer waits for it. -/
theorem waits_of_awaiting {p : Relay UInt8} {P : Option Plan} {q : Request}
    {remaining : List Request} (h : Obeys (monitor P) (Ends P) ⟨remaining, .awaiting q⟩ p) :
    ∃ op limit k, p = .call (.timedSync op limit) k := by
  cases p with
  | ret code =>
    rcases h with (hphase | ⟨hphase, -⟩) | ⟨hphase, -⟩ <;> cases hphase
  | call c k =>
    obtain ⟨next, hM, -⟩ := h
    cases c with
    | timedSync op limit => exact ⟨op, limit, k, rfl⟩
    | setMessage message => exact absurd rfl ((monitor_setMessage hM).1 q)
    | sync op packet =>
      obtain ⟨_, _, hs, -⟩ := monitor_sync hM
      cases hs
    | updateBssids op text =>
      obtain ⟨_, _, hs, -⟩ := monitor_updateBssids hM
      cases hs

section Prompt

variable {jsonLoads : String → Option Json} {s s' : System}

theorem Prompt.beginCommand (h : Prompt s) {text : String}
    (hs : beginCommand jsonLoads s text = some s') : Prompt s' := by
  have hinv := h.inv.beginCommand hs
  unfold RequestReply.beginCommand at hs
  split at hs
  · rename_i hpc
    obtain rfl := Option.some.inj hs
    exact prompt_of_still hinv (h.still (by rw [System.waitingFor, hpc]))
  · cases hs

theorem Prompt.parse (h : Prompt s) (hs : parse s = some s') : Prompt s' := by
  have hinv := h.inv.parse hs
  have hp := h.inv.parser
  unfold RequestReply.parse at hs
  split at hs
  · rename_i op packet k hpc
    obtain rfl := Option.some.inj hs
    obtain ⟨hunanswered, hinFlight, hprocess⟩ := h.still (by rw [System.waitingFor, hpc])
    rw [hpc] at hp
    obtain ⟨P, st, ⟨next, hM, hk⟩, -⟩ := hp
    obtain ⟨q, remaining, rfl, rfl, -, hnext⟩ := monitor_sync hM
    have hk := hk ()
    rw [hnext] at hk
    obtain ⟨op, limit, k', hk'⟩ := waits_of_awaiting hk
    rw [warpSync_sendOp] at hinv ⊢
    have hwaiting : ({ RequestReply.send s packet with parser := .running (k ()) } :
        System).waitingFor = some s.next := by
      rw [System.waitingFor, hk']
      rfl
    refine ⟨hinv, fun u hu => ?_, fun f hf => ?_, fun n kind hpost => ?_⟩
    · have hu : u ∈ s.unanswered ++ [⟨s.next, packet⟩] := hu
      rw [hunanswered, List.nil_append] at hu
      rw [List.mem_singleton.mp hu]
      exact hwaiting
    · have hf : f ∈ s.inFlight := hf
      rw [hinFlight] at hf
      cases hf
    · have hpost : s.process = .posting n kind := hpost
      rw [hprocess] at hpost
      cases hpost
  · rename_i message k hpc
    obtain rfl := Option.some.inj hs
    exact prompt_of_still hinv (h.still (by rw [System.waitingFor, hpc]))
  · rename_i op text k hpc
    obtain rfl := Option.some.inj hs
    exact prompt_of_still hinv (h.still (by rw [System.waitingFor, hpc]))
  · rename_i code hpc
    obtain rfl := Option.some.inj hs
    exact prompt_of_still hinv (h.still (by rw [System.waitingFor, hpc]))
  · cases hs

/-- When its reply is there nothing else of a request is left. -/
theorem Prompt.acquire (h : Prompt s) (hs : acquire s = some s') : Prompt s' := by
  have hinv := h.inv.acquire hs
  unfold RequestReply.acquire at hs
  split at hs
  · obtain ⟨kind, -, hs⟩ := Option.bind_eq_some_iff.mp hs
    split at hs
    · rename_i n rest htok
      obtain rfl := Option.some.inj hs
      obtain ⟨-, hw, -, hreplied, hnot⟩ := h.inv.tokens kind n (by simp [htok])
      refine prompt_of_still hinv ⟨List.eq_nil_iff_forall_not_mem.mpr fun u hu => ?_,
        List.eq_nil_iff_forall_not_mem.mpr fun f hf => ?_, ?_⟩
      · obtain rfl := Option.some.inj (hw.symm.trans (h.unanswered u hu))
        have hnone := (h.inv.unanswered u hu).2.1
        rw [hreplied] at hnone
        cases hnone
      · obtain rfl := Option.some.inj (hw.symm.trans (h.inFlight f hf))
        exact hnot (List.mem_map_of_mem hf)
      · cases hp : s.process with
        | idle => rfl
        | posting m k =>
          have hempty := ((h.inv.posting m k hp).2.2 (h.posting m k hp)).2.2 kind
          rw [htok] at hempty
          cases hempty
    · cases hs
  · cases hs

theorem Prompt.read (h : Prompt s) (hs : read s = some s') : Prompt s' := by
  have hinv := h.inv.read hs
  unfold RequestReply.read at hs
  split at hs
  · rename_i n k sent hpc hsent
    obtain rfl := Option.some.inj hs
    exact prompt_of_still hinv (h.still (by rw [System.waitingFor, hpc]))
  · cases hs

theorem Prompt.reply (h : Prompt s) {number : ℕ} {buffer : List UInt8}
    (hs : reply s number buffer = some s') : Prompt s' := by
  have hinv := h.inv.reply hs
  obtain ⟨sent, hfind, hs⟩ := Option.bind_eq_some_iff.mp hs
  obtain ⟨r, -, hs⟩ := Option.bind_eq_some_iff.mp hs
  obtain ⟨-, hs⟩ := Option.ite_none_right_eq_some.mp hs
  obtain rfl := Option.some.inj hs
  obtain rfl : sent.number = number := by simpa using List.find?_some hfind
  refine ⟨hinv, fun u hu => h.unanswered u (List.mem_of_mem_filter hu), fun f hf => ?_, h.posting⟩
  rcases List.mem_append.mp hf with hf | hf
  · exact h.inFlight f hf
  · rw [List.mem_singleton.mp hf]
    exact h.unanswered sent (List.mem_of_find?_eq_some hfind)

theorem Prompt.write (h : Prompt s) {number : ℕ} (hs : write s number = some s') : Prompt s' := by
  have hsteps := hs
  unfold RequestReply.write at hs
  split at hs
  · obtain ⟨frame, hfind, hs⟩ := Option.bind_eq_some_iff.mp hs
    obtain ⟨r, -, rfl⟩ := Option.map_eq_some_iff.mp hs
    obtain rfl : frame.number = number := by simpa using List.find?_some hfind
    have hwaiting := h.inFlight frame (List.mem_of_find?_eq_some hfind)
    refine ⟨h.inv.write hwaiting hsteps, h.unanswered,
      fun f hf => h.inFlight f (List.mem_of_mem_filter hf), fun n kind hpost => ?_⟩
    obtain ⟨rfl, rfl⟩ := ProcessPc.posting.inj hpost
    exact hwaiting
  · cases hs

theorem Prompt.post (h : Prompt s) (hs : post s = some s') : Prompt s' := by
  have hinv := h.inv.post h.posting hs
  unfold RequestReply.post at hs
  split at hs
  · obtain rfl := Option.some.inj hs
    exact ⟨hinv, h.unanswered, h.inFlight, fun _ _ hp => by cases hp⟩
  · cases hs

end Prompt

/-- As long as no wait is given up, every confirmed step was confirmed by the reply to its own
packet, however the threads interleave; and where nothing is waited for, nothing is under way
and the semaphores are down. -/
theorem confirmed_in_order {jsonLoads : String → Option Json} {uninitialised : UInt8} {s : System}
    (h : (requestReply jsonLoads uninitialised).ReachableIf (fun _ l => l ≠ .timeOut) s) :
    s.Matched ∧ (s.waitingFor = none → s.Still ∧ ∀ kind, s.tokens kind = []) := by
  have hprompt : Prompt s := by
    apply h.invariant
    · refine prompt_of_still ?_ ⟨rfl, rfl, rfl⟩
      refine ⟨?_, ?_, ?_, ?_, ?_, trivial, ?_⟩
      all_goals
        intros
        contradiction
    · intro s l s' hprompt hl hs
      cases l with
      | command text => exact hprompt.beginCommand hs
      | parse => exact hprompt.parse hs
      | acquire => exact hprompt.acquire hs
      | timeOut => exact absurd rfl hl
      | read => exact hprompt.read hs
      | reply number buffer => exact hprompt.reply hs
      | write number => exact hprompt.write hs
      | post => exact hprompt.post hs
  exact ⟨fun w hw _ => hprompt.inv.log w hw, fun hw => ⟨hprompt.still hw, hprompt.inv.quiet hw⟩⟩

theorem confirmed_in_order_add :
    ∃ s, (requestReply loadAdd 0).ReachableIf (fun _ l => l ≠ .timeOut) s ∧
      (∃ w ∈ s.log, w.Confirmed) ∧ s.Matched := by
  have h := (Machine.ReachableIf.init (M := requestReply loadAdd 0)
    (C := fun _ l => l ≠ .timeOut)).exec
    [.command addText, .parse, .reply 0 addReply, .write 0, .post, .acquire, .read] ?_ rfl
  · refine ⟨_, h, ⟨_, List.mem_singleton_self _, _, rfl, ?_⟩, (confirmed_in_order h).1⟩
    decide
  · refine And.intro ?_ <| And.intro ?_ <| And.intro ?_ <| And.intro ?_ <| And.intro ?_ <|
      And.intro ?_ <| And.intro ?_ trivial
    all_goals
      intro heq
      cases heq

end AuroraRelay.RequestReply
