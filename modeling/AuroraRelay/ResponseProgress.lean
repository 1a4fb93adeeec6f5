import AuroraRelay.Lib.Fairness
import AuroraRelay.ResponseSampling

namespace AuroraRelay.ResponseDelivery
open CommsAgent Interaction Sampling Transition Machine

section Step

variable {jsonLoads : String → Option Json} {s s' : Threads} {picks : List ℕ}

/-- The moves of the parser within a command and behind it. -/
theorem Sampled.parseLoop_cases (h : Sampled s picks) {reply : TimedReply}
    (hs : ResponseDelivery.parseLoop s reply = some s') :
    (∃ c k r, s.parser = .running (.call c k) ∧ s' = { s with parser := .running (k r) }) ∨
    (∃ m k, s.parser = .running (.call (.setMessage m) k) ∧ s.current = [] ∧
      s' = { s with parser := .running (k ()), sendMessage := some m, current := [m] }) ∨
    (∃ code, s.parser = .running (.ret code) ∧ s.current ≠ [] ∧
      s' = { s with parser := .posting, responses := s.responses ++ s.current }) ∨
    (∃ code, s.parser = .running (.ret code) ∧ s.current = [] ∧ s' = { s with parser := .idle }) ∨
    (s.parser = .posting ∧ s' = { s with parser := .idle, signal := Semaphore.post s.signal }) := by
  unfold ResponseDelivery.parseLoop at hs
  cases hpc : s.parser with
  | idle =>
    rw [hpc] at hs
    cases hs
  | running p =>
    rw [hpc] at hs
    obtain ⟨message, hcurrent, hobey⟩ := h.parser p hpc
    cases p with
    | ret code =>
      dsimp only at hs
      split_ifs at hs with hcode
      · -- a code that wakes the sender is returned with a message set, and no other is
        obtain ⟨m, rfl⟩ := Option.isSome_iff_exists.mp (hobey.mpr hcode)
        refine .inr (.inr (.inl ⟨code, rfl, ?_, (Option.some.inj hs).symm⟩))
        rw [hcurrent]
        exact List.cons_ne_nil m []
      · refine .inr (.inr (.inr (.inl ⟨code, rfl, ?_, (Option.some.inj hs).symm⟩)))
        cases message with
        | none => exact hcurrent
        | some m => exact absurd (hobey.mp rfl) hcode
    | call c k =>
      cases c with
      | setMessage m =>
        obtain ⟨-, he⟩ := Option.ite_none_right_eq_some.mp hs
        obtain ⟨next, hM, -⟩ := hobey
        obtain ⟨⟨rfl, -⟩, -⟩ := Option.ite_none_right_eq_some.mp hM
        refine .inr (.inl ⟨m, k, rfl, hcurrent, ?_⟩)
        rw [← Option.some.inj he, hcurrent]
        rfl
      | timedSync op limit => exact .inl ⟨_, k, reply, rfl, (Option.some.inj hs).symm⟩
      | sync op packet => exact .inl ⟨_, k, (), rfl, (Option.some.inj hs).symm⟩
      | updateBssids op text => exact .inl ⟨_, k, (), rfl, (Option.some.inj hs).symm⟩
  | posting =>
    rw [hpc] at hs
    exact .inr (.inr (.inr (.inr ⟨rfl, (Option.some.inj hs).symm⟩)))

/-- Nothing that was told is taken back. -/
theorem Sampled.parseLoop_told (h : Sampled s picks) {reply : TimedReply}
    (hs : ResponseDelivery.parseLoop s reply = some s') : s.told.length ≤ s'.told.length := by
  obtain ⟨c, k, r, hpc, rfl⟩ | ⟨m, k, hpc, hcurrent, rfl⟩ | ⟨code, hpc, -, rfl⟩ |
    ⟨code, hpc, hcurrent, rfl⟩ | ⟨hpc, rfl⟩ := h.parseLoop_cases hs
  · simp only [Threads.told, hpc]
    exact le_rfl
  · simp only [Threads.told, hpc, hcurrent, List.length_append]
    exact Nat.le_add_right _ _
  · simp only [Threads.told, hpc]
    exact le_rfl
  · simp only [Threads.told, hpc, hcurrent, List.append_nil]
    exact le_rfl
  · simp only [Threads.told, hpc]
    exact le_rfl

theorem Sampled.parseLoop_signal (h : Sampled s picks) {reply : TimedReply}
    (hs : ResponseDelivery.parseLoop s reply = some s') :
    s'.sender = s.sender ∧ s.signal ≤ s'.signal := by
  obtain ⟨c, k, r, -, rfl⟩ | ⟨m, k, -, -, rfl⟩ | ⟨code, -, -, rfl⟩ | ⟨code, -, -, rfl⟩ |
    ⟨-, rfl⟩ := h.parseLoop_cases hs
  · exact ⟨rfl, le_rfl⟩
  · exact ⟨rfl, le_rfl⟩
  · exact ⟨rfl, le_rfl⟩
  · exact ⟨rfl, le_rfl⟩
  · refine ⟨rfl, ?_⟩
    change s.signal ≤ Semaphore.post s.signal
    unfold Semaphore.post
    split_ifs
    · exact Nat.le_succ _
    · exact le_rfl

theorem beginCommand_outcome {text : String} (hs : beginCommand jsonLoads s text = some s') :
    s.parser = .idle ∧
      s' = { s with parser := .running (parseJson jsonLoads text), current := [] } := by
  unfold beginCommand at hs
  split at hs
  · exact ⟨‹_›, (Option.some.inj hs).symm⟩
  · cases hs

theorem beginCommand_told {text : String} (hs : beginCommand jsonLoads s text = some s') :
    s'.told = s.told := by
  obtain ⟨hpc, rfl⟩ := beginCommand_outcome hs
  simp only [Threads.told, hpc, List.append_nil]

theorem sendLoop_outcome (hs : ResponseDelivery.sendLoop s = some s') :
    s'.parser = s.parser ∧ s'.current = s.current ∧ s'.told = s.told := by
  unfold ResponseDelivery.sendLoop at hs
  cases hpc : s.sender with
  | waiting =>
    rw [hpc] at hs
    obtain ⟨n, -, rfl⟩ := Option.map_eq_some_iff.mp hs
    exact ⟨rfl, rfl, rfl⟩
  | locked =>
    rw [hpc] at hs
    obtain ⟨toSend, -, rfl⟩ := Option.map_eq_some_iff.mp hs
    exact ⟨rfl, rfl, rfl⟩
  | _ =>
    rw [hpc] at hs
    obtain rfl := Option.some.inj hs
    exact ⟨rfl, rfl, rfl⟩

/-- A command that has set its message does not wait for the lock again. -/
theorem Sampled.parseLoop_isSome (h : Sampled s picks) {p : Relay UInt8}
    (hpc : s.parser = .running p) (hcurrent : s.current ≠ []) (reply : TimedReply) :
    (ResponseDelivery.parseLoop s reply).isSome := by
  obtain ⟨message, hmessage, hobey⟩ := h.parser p hpc
  rw [ResponseDelivery.parseLoop, hpc]
  cases p with
  | ret code =>
    dsimp only
    split_ifs
    · rfl
    · rfl
  | call c k =>
    cases c with
    | setMessage m =>
      obtain ⟨next, hM, -⟩ := hobey
      obtain ⟨⟨rfl, -⟩, -⟩ := Option.ite_none_right_eq_some.mp hM
      exact absurd hmessage hcurrent
    | timedSync op limit => rfl
    | sync op packet => rfl
    | updateBssids op text => rfl

def SenderPc.away : SenderPc → ℕ
  | .read _ => 5
  | .unlocking => 4
  | .waiting => 3
  | .woken => 2
  | .locked => 1

def Threads.Called (s : Threads) : Prop := 0 < s.signal + s.sender.unread

def ReadFrom (i : ℕ) (s : Threads) : Prop :=
  ∃ picks j, Sampled s picks ∧ picks.getLast? = some j ∧ i ≤ j

theorem Sampled.sendLoop_nearer (h : Sampled s picks) (hcalled : s.Called) {i : ℕ}
    (hi : i < s.told.length) (hs : ResponseDelivery.sendLoop s = some s') :
    ReadFrom i s' ∨ s'.Called ∧ s'.sender.away < s.sender.away := by
  unfold ResponseDelivery.sendLoop at hs
  unfold Threads.Called at hcalled ⊢
  cases hpc : s.sender with
  | waiting =>
    rw [hpc] at hs
    obtain ⟨n, -, rfl⟩ := Option.map_eq_some_iff.mp hs
    exact .inr ⟨Nat.succ_pos n, Nat.lt_succ_self _⟩
  | woken =>
    rw [hpc] at hs
    obtain rfl := Option.some.inj hs
    exact .inr ⟨Nat.succ_pos _, Nat.lt_succ_self _⟩
  | locked =>
    rw [hpc] at hs
    obtain ⟨toSend, hslot, rfl⟩ := Option.map_eq_some_iff.mp hs
    -- what is read is the newest response, at the end of what was told
    exact .inl ⟨_, s.told.length - 1, h.readSlot hpc hslot, List.getLast?_concat, by omega⟩
  | read toSend =>
    rw [hpc] at hs hcalled
    obtain rfl := Option.some.inj hs
    exact .inr ⟨hcalled, Nat.lt_succ_self _⟩
  | unlocking =>
    rw [hpc] at hs hcalled
    obtain rfl := Option.some.inj hs
    exact .inr ⟨hcalled, Nat.lt_succ_self _⟩

end Step

section Run

variable {jsonLoads : String → Option Json} {r : (delivery jsonLoads).Run} {i : ℕ}

def parser : Set Label := Set.range Label.parseLoop

theorem not_mem_parser_sendLoop : Label.sendLoop ∉ parser := by
  rintro ⟨reply, hreply⟩
  cases hreply

variable (hplain : r.Meets (PlainCommands jsonLoads))
include hplain

/-- The sender reads the slot when it is asked to. -/
theorem leadsTo_readFrom_of_called (hsend : r.WeaklyFair {.sendLoop}) :
    r.LeadsTo (fun s => i < s.told.length ∧ s.Called) (ReadFrom i) := by
  apply Run.leadsTo_of_rank fun s => s.sender.away
  intro k
  apply Run.leadsTo_of_fair hsend
  · rintro n ⟨⟨-, hcalled⟩, -⟩
    obtain ⟨picks, hsampled⟩ := sampled_of_reachable (hplain.reachableIf n)
    refine ⟨.sendLoop, rfl, hsampled.sendLoop_isSome ?_⟩
    by_contra hnot
    obtain ⟨hwait, hzero⟩ := not_or.mp hnot
    rw [not_not] at hwait hzero
    rw [Threads.Called, hzero, hwait] at hcalled
    exact absurd hcalled (by decide)
  · rintro n l ⟨⟨hi, hcalled⟩, rfl⟩ hl
    have hs := Run.step_of_label hl
    obtain ⟨picks, hsampled⟩ := sampled_of_reachable (hplain.reachableIf n)
    cases l with
    | command text =>
      have htold := beginCommand_told hs
      obtain ⟨-, hs'⟩ := beginCommand_outcome hs
      refine .inr ⟨⟨⟨by rwa [htold], ?_⟩, ?_⟩, fun he => Label.noConfusion he⟩
      · rw [hs']
        exact hcalled
      · rw [hs']
    | parseLoop reply =>
      have htold := hsampled.parseLoop_told hs
      obtain ⟨hsender, hsignal⟩ := hsampled.parseLoop_signal hs
      refine .inr ⟨⟨⟨hi.trans_le htold, ?_⟩, ?_⟩, fun he => Label.noConfusion he⟩
      · unfold Threads.Called at hcalled ⊢
        rw [hsender]
        omega
      · rw [hsender]
    | sendLoop =>
      left
      refine (hsampled.sendLoop_nearer hcalled hi hs).imp id fun hnear => ⟨⟨?_, hnear.1⟩, hnear.2⟩
      rwa [(sendLoop_outcome hs).2.2]

/-- Posting asks the sender to read the slot. -/
theorem leadsTo_called_of_posting (hparse : r.WeaklyFair parser) :
    r.LeadsTo (fun s => i < s.told.length ∧ s.parser = .posting)
      fun s => i < s.told.length ∧ s.Called := by
  apply Run.leadsTo_of_fair hparse
  · rintro n ⟨-, hpc⟩
    refine ⟨.parseLoop ⟨0, 0⟩, ⟨_, rfl⟩, ?_⟩
    change (parseLoop _ _).isSome
    rw [parseLoop, hpc]
    rfl
  · rintro n l ⟨hi, hpc⟩ hl
    have hs := Run.step_of_label hl
    obtain ⟨picks, hsampled⟩ := sampled_of_reachable (hplain.reachableIf n)
    cases l with
    | command text =>
      obtain ⟨hidle, -⟩ := beginCommand_outcome hs
      rw [hpc] at hidle
      cases hidle
    | parseLoop reply =>
      refine .inl ⟨hi.trans_le (hsampled.parseLoop_told hs), ?_⟩
      change parseLoop _ _ = _ at hs
      rw [parseLoop, hpc] at hs
      rw [← Option.some.inj hs]
      exact Nat.add_pos_left (Semaphore.post_pos _) _
    | sendLoop =>
      obtain ⟨hparser, -, htold⟩ := sendLoop_outcome hs
      exact .inr ⟨⟨by rwa [htold], by rwa [hparser]⟩, not_mem_parser_sendLoop⟩

/-- One step of a command that has set its message. -/
theorem leadsTo_next_of_running (hparse : r.WeaklyFair parser) (p : Relay UInt8) :
    r.LeadsTo (fun s => i < s.told.length ∧ s.parser = .running p ∧ s.current ≠ [])
      fun s => i < s.told.length ∧ (s.parser = .posting ∨
        ∃ c k reply, p = .call c k ∧ s.parser = .running (k reply) ∧ s.current ≠ []) := by
  apply Run.leadsTo_of_fair hparse
  · rintro n ⟨-, hpc, hcurrent⟩
    obtain ⟨picks, hsampled⟩ := sampled_of_reachable (hplain.reachableIf n)
    exact ⟨.parseLoop ⟨0, 0⟩, ⟨_, rfl⟩, hsampled.parseLoop_isSome hpc hcurrent _⟩
  · rintro n l ⟨hi, hpc, hcurrent⟩ hl
    have hs := Run.step_of_label hl
    obtain ⟨picks, hsampled⟩ := sampled_of_reachable (hplain.reachableIf n)
    cases l with
    | command text =>
      obtain ⟨hidle, -⟩ := beginCommand_outcome hs
      rw [hpc] at hidle
      cases hidle
    | parseLoop reply =>
      refine .inl ⟨hi.trans_le (hsampled.parseLoop_told hs), ?_⟩
      obtain ⟨c, k, x, hpc', hs'⟩ | ⟨m, k, -, hnone, -⟩ | ⟨code, -, -, hs'⟩ |
        ⟨code, -, hnone, -⟩ | ⟨hposting, -⟩ := hsampled.parseLoop_cases hs
      · rw [hs']
        refine .inr ⟨c, k, x, ?_, rfl, hcurrent⟩
        exact ParserPc.running.inj (hpc.symm.trans hpc')
      · exact absurd hnone hcurrent
      · rw [hs']
        exact .inl rfl
      · exact absurd hnone hcurrent
      · rw [hpc] at hposting
        cases hposting
    | sendLoop =>
      obtain ⟨hparser, hsame, htold⟩ := sendLoop_outcome hs
      refine .inr ⟨⟨by rwa [htold], by rwa [hparser], by rwa [hsame]⟩, not_mem_parser_sendLoop⟩

/-- A command that has set its message comes to its end and posts. -/
theorem leadsTo_posting_of_running (hparse : r.WeaklyFair parser) (p : Relay UInt8) :
    r.LeadsTo (fun s => i < s.told.length ∧ s.parser = .running p ∧ s.current ≠ [])
      fun s => i < s.told.length ∧ s.parser = .posting := by
  -- by induction on what is left of the command
  induction p with
  | ret code =>
    refine (leadsTo_next_of_running hplain hparse _).trans (Run.leadsTo_of_imp ?_)
    rintro n ⟨hi, hposting | ⟨c, k, reply, hcall, -⟩⟩
    · exact ⟨hi, hposting⟩
    · cases hcall
  | call c k ih =>
    refine (leadsTo_next_of_running hplain hparse _).trans ?_
    rintro n ⟨hi, hposting | ⟨c', k', reply, hcall, hpc, hcurrent⟩⟩
    · exact ⟨n, le_rfl, hi, hposting⟩
    · cases hcall
      exact ih reply n ⟨hi, hpc, hcurrent⟩

/-- Whatever has been told is read, or something behind it is. -/
theorem leadsTo_readFrom (hparse : r.WeaklyFair parser) (hsend : r.WeaklyFair {.sendLoop}) :
    r.LeadsTo (fun s => i < s.told.length) (ReadFrom i) := by
  have hcalled := leadsTo_readFrom_of_called (i := i) hplain hsend
  have hposting := (leadsTo_called_of_posting hplain hparse).trans hcalled
  intro n hi
  obtain ⟨picks, hsampled⟩ := sampled_of_reachable (hplain.reachableIf n)
  have hne : (r.state n).told ≠ [] := List.ne_nil_of_length_pos (Nat.zero_lt_of_lt hi)
  rcases hsampled.newest hne with hlast | hunread
  · exact ⟨n, le_rfl, picks, _, hsampled, hlast, by omega⟩
  by_cases hcall : (r.state n).Called
  · exact hcalled n ⟨hi, hcall⟩
  · -- the sender has nothing to read before the parser posts
    have hunposted : 0 < (r.state n).unposted := by
      rw [Threads.unread] at hunread
      rw [Threads.Called] at hcall
      omega
    rw [Threads.unposted] at hunposted
    cases hpc : (r.state n).parser with
    | idle =>
      rw [hpc] at hunposted
      exact absurd hunposted (lt_irrefl 0)
    | posting => exact hposting n ⟨hi, hpc⟩
    | running p =>
      rw [hpc] at hunposted
      exact ((leadsTo_posting_of_running hplain hparse p).trans hposting) n
        ⟨hi, hpc, List.ne_nil_of_length_pos hunposted⟩

/-- The last publication is the response at the place or one behind it. -/
def PublishedFrom (i : ℕ) (s : Threads) : Prop :=
  ∃ j, i ≤ j ∧ j < s.told.length ∧ s.published.getLast? = some s.told[j]?

omit hplain in
/-- What has been read is published, unless the sender is about to. -/
theorem publishedFrom_of_readFrom {s : Threads} (h : ReadFrom i s)
    (hhand : s.sender.inHand = []) : PublishedFrom i s := by
  obtain ⟨picks, j, hsampled, hlast, hij⟩ := h
  refine ⟨j, hij, hsampled.samples.inside j (List.mem_of_getLast? hlast), ?_⟩
  have hreads := hsampled.reads
  rw [Threads.reads, hhand, List.append_nil] at hreads
  rw [hreads, seen, List.getLast?_map, hlast]
  rfl

theorem leadsTo_publishedFrom (hsend : r.WeaklyFair {.sendLoop}) :
    r.LeadsTo (fun s => ReadFrom i s ∧ s.sender.inHand ≠ []) (PublishedFrom i) := by
  apply Run.leadsTo_of_fair hsend
  · rintro n ⟨-, hhand⟩
    refine ⟨.sendLoop, rfl, ?_⟩
    change (sendLoop _).isSome
    rw [sendLoop]
    cases hpc : (r.state n).sender with
    | read toSend => rfl
    | _ =>
      rw [hpc] at hhand
      exact absurd rfl hhand
  · rintro n l ⟨⟨picks, j, hsampled, hlast, hij⟩, hhand⟩ hl
    have hs := Run.step_of_label hl
    cases l with
    | command text =>
      obtain ⟨-, hs'⟩ := beginCommand_outcome hs
      refine .inr ⟨⟨⟨picks, j, hsampled.beginCommand (hplain n _ hl) hs, hlast, hij⟩, ?_⟩,
        fun he => Label.noConfusion he⟩
      rwa [hs']
    | parseLoop reply =>
      refine .inr ⟨⟨⟨picks, j, hsampled.parseLoop hs, hlast, hij⟩, ?_⟩,
        fun he => Label.noConfusion he⟩
      rwa [(hsampled.parseLoop_signal hs).1]
    | sendLoop =>
      left
      change sendLoop _ = _ at hs
      rw [sendLoop] at hs
      cases hpc : (r.state n).sender with
      | read toSend =>
        rw [hpc] at hs
        rw [← Option.some.inj hs]
        exact publishedFrom_of_readFrom ⟨picks, j, hsampled.publish hpc, hlast, hij⟩ rfl
      | _ =>
        rw [hpc] at hhand
        exact absurd rfl hhand

end Run

/-- In every fair run every response is in the end followed by the publication of itself or of
a later one. -/
theorem every_response_overtaken {jsonLoads : String → Option Json}
    (r : (delivery jsonLoads).Run) (hplain : r.Meets (PlainCommands jsonLoads))
    (hparse : r.WeaklyFair parser) (hsend : r.WeaklyFair {.sendLoop}) {n i : ℕ}
    (h : i < (r.state n).told.length) : ∃ m ≥ n, PublishedFrom i (r.state m) := by
  obtain ⟨m, hm, hread⟩ := leadsTo_readFrom hplain hparse hsend n h
  by_cases hhand : (r.state m).sender.inHand = []
  · exact ⟨m, hm, publishedFrom_of_readFrom hread hhand⟩
  · obtain ⟨k, hk, hpublished⟩ := leadsTo_publishedFrom hplain hsend m ⟨hread, hhand⟩
    exact ⟨k, hm.trans hk, hpublished⟩

def hurriedLabels : List Label :=
  oneCommand bareRadioSet ++ oneCommand "test" ++ List.replicate 10 .sendLoop

theorem every_response_overtaken_hurried :
    ∃ m ≥ 8, PublishedFrom 0 ((Run.ofLabels (delivery loadBare) hurriedLabels).state m) := by
  refine every_response_overtaken _ ?_ ?_ ?_ (by decide)
  · apply Run.meets_ofLabels
    intro l _ s
    cases l with
    | command text => exact plainRadio_loadBare text
    | parseLoop reply => trivial
    | sendLoop => trivial
  · apply Run.weaklyFair_ofLabels
    rintro l ⟨reply, rfl⟩
    rfl
  · apply Run.weaklyFair_ofLabels
    rintro l rfl
    rfl

end AuroraRelay.ResponseDelivery
