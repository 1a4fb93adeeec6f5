import AuroraRelay.Lib.Sampling
import AuroraRelay.ResponseDelivery

namespace AuroraRelay.ResponseDelivery
open CommsAgent Interaction Sampling Transition

/-- No radio has a name with a conversion in it. -/
def PlainCommands (jsonLoads : String → Option Json) (_ : Threads) : Label → Prop
  | .command text => PlainRadio jsonLoads text
  | _ => True

def Threads.told (s : Threads) : List String :=
  match s.parser with
  | .running _ => s.responses ++ s.current
  | _ => s.responses

def SenderPc.inHand : SenderPc → List (Option String)
  | .read toSend => [some toSend]
  | _ => []

def Threads.reads (s : Threads) : List (Option String) := s.published ++ s.sender.inHand

def SenderPc.unread : SenderPc → ℕ
  | .woken => 1
  | .locked => 1
  | _ => 0

/-- The turns that the parser will still ask for because of its last message. -/
def Threads.unposted (s : Threads) : ℕ :=
  match s.parser with
  | .posting => 1
  | .running _ => s.current.length
  | .idle => 0

def Threads.unread (s : Threads) : ℕ := s.signal + s.sender.unread + s.unposted

def Threads.Quiescent (s : Threads) : Prop :=
  s.parser = .idle ∧ s.sender = .waiting ∧ s.signal = 0

structure Sampled (s : Threads) (picks : List ℕ) : Prop where
  slot : s.sendMessage = s.told.getLast?
  samples : Samples s.told picks
  reads : s.reads = seen s.told picks
  plain : ∀ m ∈ s.told, Plain m
  newest : s.told ≠ [] → picks.getLast? = some (s.told.length - 1) ∨ 0 < s.unread
  count : s.published.length + s.pending + s.unposted ≤ s.told.length
  parser : ∀ p, s.parser = .running p → ∃ message : Option String,
    s.current = message.toList ∧ Obeys responder Answered message p

section Step

variable {jsonLoads : String → Option Json} {s s' : Threads} {picks : List ℕ}

/-- A move of the sender that reads nothing. -/
theorem Sampled.moveSender (h : Sampled s picks) {signal : ℕ} {sender : SenderPc}
    (hhand : sender.inHand = s.sender.inHand)
    (howes : signal + sender.owes = s.pending)
    (hunread : signal + sender.unread = s.signal + s.sender.unread) :
    Sampled { s with signal := signal, sender := sender } picks := by
  refine ⟨h.slot, h.samples, ?_, h.plain, fun htold => ?_, ?_, h.parser⟩
  · change s.published ++ sender.inHand = _
    rw [hhand]
    exact h.reads
  · refine (h.newest htold).imp id fun hpos => ?_
    change 0 < signal + sender.unread + s.unposted
    rw [hunread]
    exact hpos
  · change s.published.length + (signal + sender.owes) + s.unposted ≤ _
    rw [howes]
    exact h.count

theorem Sampled.length_picks (h : Sampled s picks) : s.reads.length = picks.length := by
  rw [h.reads, seen, List.length_map]

theorem Sampled.readSlot (h : Sampled s picks) (hpc : s.sender = .locked) {toSend : String}
    (hslot : s.sendMessage = some toSend) :
    Sampled { s with sender := .read toSend } (picks ++ [s.told.length - 1]) := by
  have hreads : s.reads = s.published := by
    rw [Threads.reads, hpc]
    exact List.append_nil _
  have hlen : picks.length < s.told.length := by
    have hcount := h.count
    rw [← h.length_picks, hreads]
    rw [Threads.pending, hpc, SenderPc.owes] at hcount
    omega
  refine ⟨h.slot, h.samples.pick hlen, ?_, h.plain, fun _ => .inl ?_, ?_, h.parser⟩
  · change s.published ++ [some toSend] = seen s.told _
    rw [seen_pick, ← h.reads, hreads, ← hslot, h.slot]
  · exact List.getLast?_concat
  · have hcount := h.count
    rw [Threads.pending, hpc] at hcount
    exact hcount

theorem Sampled.publish (h : Sampled s picks) {toSend : String} (hpc : s.sender = .read toSend) :
    Sampled { s with sender := .unlocking, published := s.published ++ [snprintf toSend] }
      picks := by
  have hreads : s.reads = s.published ++ [some toSend] := by
    rw [Threads.reads, hpc]
    rfl
  have hplain : Plain toSend := by
    have hmem : some toSend ∈ seen s.told picks := by
      rw [← h.reads, hreads]
      exact List.mem_append_right _ (List.mem_singleton_self _)
    obtain ⟨i, -, hi⟩ := List.mem_map.mp hmem
    exact h.plain toSend (List.mem_of_getElem? hi)
  rw [snprintf_plain hplain]
  refine ⟨h.slot, h.samples, ?_, h.plain, fun htold => ?_, ?_, h.parser⟩
  · change (s.published ++ [some toSend]) ++ [] = _
    rw [List.append_nil, ← hreads]
    exact h.reads
  · refine (h.newest htold).imp id fun hpos => ?_
    rw [Threads.unread, hpc] at hpos
    exact hpos
  · have hcount := h.count
    rw [Threads.pending, hpc, SenderPc.owes] at hcount
    change (s.published ++ [some toSend]).length + (s.signal + 0) + s.unposted ≤ s.told.length
    rw [List.length_append, List.length_singleton]
    omega

theorem Sampled.sendLoop (h : Sampled s picks) (hs : sendLoop s = some s') :
    ∃ picks', Sampled s' picks' := by
  unfold ResponseDelivery.sendLoop at hs
  have hpend : s.pending = s.signal + s.sender.owes := rfl
  cases hpc : s.sender with
  | waiting =>
    rw [hpc] at hs hpend
    obtain ⟨n, hn, rfl⟩ := Option.map_eq_some_iff.mp hs
    rw [Semaphore.wait_eq_some.mp hn] at hpend
    refine ⟨picks, h.moveSender ?_ hpend.symm ?_⟩
    · rw [hpc]
      rfl
    · rw [hpc, Semaphore.wait_eq_some.mp hn]
      rfl
  | woken =>
    rw [hpc] at hs hpend
    obtain rfl := Option.some.inj hs
    refine ⟨picks, h.moveSender ?_ hpend.symm ?_⟩
    · rw [hpc]
      rfl
    · rw [hpc]
      rfl
  | locked =>
    rw [hpc] at hs
    obtain ⟨toSend, hslot, rfl⟩ := Option.map_eq_some_iff.mp hs
    exact ⟨_, h.readSlot hpc hslot⟩
  | read toSend =>
    rw [hpc] at hs
    obtain rfl := Option.some.inj hs
    exact ⟨picks, h.publish hpc⟩
  | unlocking =>
    rw [hpc] at hs hpend
    obtain rfl := Option.some.inj hs
    refine ⟨picks, h.moveSender ?_ hpend.symm ?_⟩
    · rw [hpc]
      rfl
    · rw [hpc]
      rfl

/-- A move of the parser that sets no message. -/
theorem Sampled.moveParser (h : Sampled s picks) (hslot : s'.sendMessage = s.sendMessage)
    (hsender : s'.sender = s.sender) (hpublished : s'.published = s.published)
    (htold : s'.told = s.told) (hunread : 0 < s.signal + s.unposted → 0 < s'.signal + s'.unposted)
    (hcount : s'.signal + s'.unposted ≤ s.signal + s.unposted)
    (hparser : ∀ p, s'.parser = .running p → ∃ message : Option String,
      s'.current = message.toList ∧ Obeys responder Answered message p) :
    Sampled s' picks := by
  refine ⟨?_, ?_, ?_, ?_, fun hne => ?_, ?_, hparser⟩
  · rw [hslot, htold]
    exact h.slot
  · rw [htold]
    exact h.samples
  · rw [Threads.reads, hpublished, hsender, htold]
    exact h.reads
  · rw [htold]
    exact h.plain
  · rw [htold] at hne ⊢
    refine (h.newest hne).imp id fun hpos => ?_
    unfold Threads.unread at hpos ⊢
    rw [hsender]
    omega
  · have hold := h.count
    unfold Threads.pending at hold ⊢
    rw [hpublished, hsender, htold]
    omega

theorem Sampled.beginCommand (h : Sampled s picks) {text : String}
    (hr : PlainRadio jsonLoads text) (hs : beginCommand jsonLoads s text = some s') :
    Sampled s' picks := by
  unfold ResponseDelivery.beginCommand at hs
  cases hpc : s.parser with
  | idle =>
    rw [hpc] at hs
    obtain rfl := Option.some.inj hs
    have hunposted : s.unposted = 0 := by rw [Threads.unposted, hpc]
    refine h.moveParser rfl rfl rfl ?_ (fun hpos => ?_) ?_ ?_
    · rw [Threads.told, Threads.told, hpc]
      exact List.append_nil _
    · rwa [hunposted] at hpos
    · rw [hunposted]
      exact le_rfl
    · rintro _ ⟨⟩
      exact ⟨none, rfl, parseJson_answers hr⟩
  | running p =>
    rw [hpc] at hs
    cases hs
  | posting =>
    rw [hpc] at hs
    cases hs

/-- A call that sets no message. -/
theorem Sampled.goOn (h : Sampled s picks) {p q : Relay UInt8} (hpc : s.parser = .running p)
    (hq : ∀ message, Obeys responder Answered message p → Obeys responder Answered message q) :
    Sampled { s with parser := .running q } picks := by
  refine h.moveParser rfl rfl rfl ?_ (fun hpos => ?_) ?_ ?_
  · rw [Threads.told, Threads.told, hpc]
  · rwa [Threads.unposted, hpc] at hpos
  · rw [Threads.unposted, Threads.unposted, hpc]
  · rintro _ ⟨⟩
    obtain ⟨message, hcurrent, hobey⟩ := h.parser p hpc
    exact ⟨message, hcurrent, hq message hobey⟩

theorem Sampled.setMessage (h : Sampled s picks) {m : String} {k : Unit → Relay UInt8}
    (hpc : s.parser = .running (.call (.setMessage m) k)) :
    Sampled { s with
      parser := .running (k ())
      sendMessage := some m
      current := s.current ++ [m] } picks := by
  obtain ⟨message, hcurrent, next, hM, hk⟩ := h.parser _ hpc
  obtain ⟨⟨rfl, hplain⟩, he⟩ := Option.ite_none_right_eq_some.mp hM
  obtain rfl := Option.some.inj he
  have htold : ({ s with
      parser := .running (k ())
      sendMessage := some m
      current := s.current ++ [m] } : Threads).told = s.told ++ [m] := by
    rw [Threads.told, Threads.told, hpc]
    exact (List.append_assoc ..).symm
  refine ⟨?_, ?_, ?_, ?_, fun _ => .inr ?_, ?_, ?_⟩
  · rw [htold, List.getLast?_concat]
  · rw [htold]
    exact h.samples.grow [m]
  · rw [htold, h.samples.seen_grow]
    exact h.reads
  · rw [htold]
    intro m' hm'
    rcases List.mem_append.mp hm' with hm' | hm'
    · exact h.plain m' hm'
    · rwa [List.mem_singleton.mp hm']
  · change 0 < s.signal + s.sender.unread + (s.current ++ [m]).length
    rw [List.length_append, List.length_singleton]
    omega
  · have hold := h.count
    rw [Threads.unposted, hpc] at hold
    change s.published.length + s.pending + (s.current ++ [m]).length ≤ _
    rw [htold, List.length_append, List.length_append, List.length_singleton]
    dsimp only at hold
    omega
  · rintro _ ⟨⟩
    exact ⟨some m, by rw [hcurrent]; rfl, hk ()⟩

theorem Sampled.parseLoop (h : Sampled s picks) {reply : TimedReply}
    (hs : parseLoop s reply = some s') : Sampled s' picks := by
  unfold ResponseDelivery.parseLoop at hs
  cases hpc : s.parser with
  | idle =>
    rw [hpc] at hs
    cases hs
  | running p =>
    rw [hpc] at hs
    cases p with
    | ret code =>
      obtain ⟨message, hcurrent, hobey⟩ := h.parser _ hpc
      have hunposted : s.unposted = s.current.length := by rw [Threads.unposted, hpc]
      dsimp only at hs
      split_ifs at hs with hcode
      · -- the codes that wake the sender are those returned with a message set
        obtain rfl := Option.some.inj hs
        obtain ⟨m, rfl⟩ := Option.isSome_iff_exists.mp (hobey.mpr hcode)
        have hone : s.unposted = 1 := by rw [hunposted, hcurrent]; rfl
        refine h.moveParser rfl rfl rfl ?_ (fun _ => Nat.succ_pos _) ?_ fun _ hp => by cases hp
        · rw [Threads.told, Threads.told, hpc]
        · rw [hone]
          exact le_rfl
      · obtain rfl := Option.some.inj hs
        have hnone : s.current = [] := by
          cases message with
          | none => exact hcurrent
          | some m => exact absurd (hobey.mp rfl) hcode
        have hzero : s.unposted = 0 := by rw [hunposted, hnone]; rfl
        refine h.moveParser rfl rfl rfl ?_ (fun hpos => ?_) ?_ fun _ hp => by cases hp
        · rw [Threads.told, Threads.told, hpc, hnone]
          exact (List.append_nil _).symm
        · rwa [hzero] at hpos
        · rw [hzero]
          exact le_rfl
    | call c k =>
      cases c with
      | setMessage m =>
        obtain ⟨-, he⟩ := Option.ite_none_right_eq_some.mp hs
        obtain rfl := Option.some.inj he
        exact h.setMessage hpc
      | timedSync op limit =>
        obtain rfl := Option.some.inj hs
        exact h.goOn hpc fun _ ho => (obeys_call rfl).mp ho reply
      | sync op packet =>
        obtain rfl := Option.some.inj hs
        exact h.goOn hpc fun _ ho => (obeys_call rfl).mp ho ()
      | updateBssids op text =>
        obtain rfl := Option.some.inj hs
        exact h.goOn hpc fun _ ho => (obeys_call rfl).mp ho ()
  | posting =>
    rw [hpc] at hs
    obtain rfl := Option.some.inj hs
    have hone : s.unposted = 1 := by rw [Threads.unposted, hpc]
    refine h.moveParser rfl rfl rfl ?_ (fun _ => ?_) ?_ fun _ hp => by cases hp
    · rw [Threads.told, Threads.told, hpc]
    · exact Nat.add_pos_left (Semaphore.post_pos s.signal) _
    · rw [hone]
      change Semaphore.post s.signal + 0 ≤ s.signal + 1
      unfold Semaphore.post
      split_ifs
      · exact le_rfl
      · exact Nat.le_succ _

end Step

theorem sampled_of_reachable {jsonLoads : String → Option Json} {s : Threads}
    (h : (delivery jsonLoads).ReachableIf (PlainCommands jsonLoads) s) :
    ∃ picks, Sampled s picks := by
  apply h.invariant (I := fun s => ∃ picks, Sampled s picks)
  · refine ⟨[], rfl, samples_nil, rfl, ?_, fun hne => absurd rfl hne, le_rfl, ?_⟩
    · exact fun m hm => by cases hm
    · exact fun p hp => by cases hp
  · rintro s l s' ⟨picks, hsampled⟩ hplain hs
    cases l with
    | command text => exact ⟨picks, hsampled.beginCommand hplain hs⟩
    | parseLoop reply => exact ⟨picks, hsampled.parseLoop hs⟩
    | sendLoop => exact hsampled.sendLoop hs

theorem Sampled.published_eq {s : Threads} {picks : List ℕ} (h : Sampled s picks) :
    s.published = seen s.told (picks.take s.published.length) := by
  have htake := congrArg (List.take s.published.length) h.reads
  rw [Threads.reads, List.take_left] at htake
  rw [seen, ← List.map_take] at htake
  exact htake

/-- The sender is woken up only when there is something in the slot. -/
theorem Sampled.sendLoop_isSome {s : Threads} {picks : List ℕ} (h : Sampled s picks)
    (hbusy : s.sender ≠ .waiting ∨ s.signal ≠ 0) : (ResponseDelivery.sendLoop s).isSome := by
  unfold ResponseDelivery.sendLoop
  cases hpc : s.sender with
  | waiting =>
    have hsignal := hbusy.resolve_left (not_not.mpr hpc)
    cases hn : s.signal with
    | zero => exact absurd hn hsignal
    | succ n => rfl
  | woken => rfl
  | locked =>
    have hcount := h.count
    rw [Threads.pending, hpc, SenderPc.owes] at hcount
    have htold : s.told ≠ [] := by
      intro hnil
      rw [hnil, List.length_nil] at hcount
      omega
    dsimp only
    rw [Option.isSome_map, h.slot, List.getLast?_isSome]
    exact htold
  | read toSend => rfl
  | unlocking => rfl

theorem Sampled.progress {s : Threads} {picks : List ℕ} (h : Sampled s picks)
    (hbusy : ¬s.Quiescent) :
    (∃ reply, (ResponseDelivery.parseLoop s reply).isSome) ∨
      (ResponseDelivery.sendLoop s).isSome := by
  by_cases hsender : s.sender ≠ .waiting ∨ s.signal ≠ 0
  · exact .inr (h.sendLoop_isSome hsender)
  · obtain ⟨hwaiting, hsignal⟩ := not_or.mp hsender
    rw [not_not] at hwaiting hsignal
    -- nobody holds the lock
    refine .inl ⟨⟨0, 0⟩, ?_⟩
    unfold ResponseDelivery.parseLoop
    cases hpc : s.parser with
    | idle => exact absurd ⟨hpc, hwaiting, hsignal⟩ hbusy
    | posting => rfl
    | running p =>
      cases p with
      | ret code =>
        dsimp only
        split_ifs <;> rfl
      | call c k =>
        cases c with
        | setMessage m =>
          dsimp only [performCall]
          rw [hwaiting]
          rfl
        | timedSync op limit => rfl
        | sync op packet => rfl
        | updateBssids op text => rfl

/-- However the parser hurries: what is published are responses, in their order, though some
may be left out or repeated; the two threads go on until nothing is left to do, and then the
last publication is the last response. -/
theorem responses_sampled {jsonLoads : String → Option Json} {s : Threads}
    (h : (delivery jsonLoads).ReachableIf (PlainCommands jsonLoads) s) :
    (∃ picks, s.published = seen s.told picks ∧ Samples s.told picks) ∧
      (¬s.Quiescent → (∃ reply, (parseLoop s reply).isSome) ∨ (sendLoop s).isSome) ∧
      (s.Quiescent → s.told = s.responses ∧ s.published.length ≤ s.responses.length ∧
        s.published.getLast? = s.responses.getLast?.map some) := by
  obtain ⟨picks, hsampled⟩ := sampled_of_reachable h
  refine ⟨⟨_, hsampled.published_eq, hsampled.samples.take _⟩, hsampled.progress, ?_⟩
  rintro ⟨hidle, hwaiting, hsignal⟩
  have htold : s.told = s.responses := by rw [Threads.told, hidle]
  have hcount := hsampled.count
  rw [htold] at hcount
  refine ⟨htold, by omega, ?_⟩
  have hreads : s.reads = s.published := by
    rw [Threads.reads, hwaiting]
    exact List.append_nil _
  have hunread : s.unread = 0 := by
    rw [Threads.unread, hsignal, hwaiting, Threads.unposted, hidle]
    rfl
  rw [← hreads, hsampled.reads, ← htold]
  by_cases hnil : s.told = []
  · have hlen := hsampled.count
    rw [hnil, List.length_nil, ← hreads, hsampled.length_picks] at hlen
    have hpicks : picks = [] := List.length_eq_zero_iff.mp (by omega)
    rw [hnil, hpicks]
    rfl
  · have hlast := (hsampled.newest hnil).resolve_right (by omega)
    rw [seen, List.getLast?_map, hlast, Option.map_some, ← List.getLast?_eq_getElem?]
    obtain ⟨m, hm⟩ := Option.isSome_iff_exists.mp (List.getLast?_isSome.mpr hnil)
    rw [hm, Option.map_some]

theorem plainRadio_loadBare (text : String) : PlainRadio loadBare text := by
  intro root radio hload hradio
  unfold loadBare at hload
  split_ifs at hload
  obtain rfl := Option.some.inj hload
  have hnone : objectGet (some (Json.object [(jsonCommand, .string radioSetCmd)])) jsonRadio =
      none := rfl
  rw [hnone] at hradio
  cases hradio

/-- Two commands before the sender wakes up. -/
theorem responses_sampled_overwritten : ∃ s,
    (delivery loadBare).ReachableIf (PlainCommands loadBare) s ∧ s.Quiescent ∧
    s.published = [some testMsg, some testMsg] ∧
    s.published.getLast? = s.responses.getLast?.map some := by
  obtain ⟨s, hexec, hquiet, hpublished⟩ : ∃ s, (delivery loadBare).exec (delivery loadBare).init
      (oneCommand bareRadioSet ++ oneCommand "test" ++ List.replicate 10 .sendLoop) = some s ∧
      s.Quiescent ∧ s.published = [some testMsg, some testMsg] :=
    ⟨_, rfl, ⟨rfl, rfl, rfl⟩, by decide⟩
  have h := (Machine.ReachableIf.init (C := PlainCommands loadBare)).exec _ ?_ hexec
  · exact ⟨s, h, hquiet, hpublished, ((responses_sampled h).2.2 hquiet).2.2⟩
  · exact And.intro (plainRadio_loadBare _) <| And.intro trivial <| And.intro trivial <|
      And.intro trivial <| And.intro (plainRadio_loadBare _) <| And.intro trivial <|
      And.intro trivial <| And.intro trivial <| And.intro trivial <| And.intro trivial <|
      And.intro trivial <| And.intro trivial <| And.intro trivial <| And.intro trivial <|
      And.intro trivial <| And.intro trivial <| And.intro trivial <| And.intro trivial trivial

end AuroraRelay.ResponseDelivery
