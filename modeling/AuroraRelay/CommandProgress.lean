import AuroraRelay.CommandQueue
import AuroraRelay.Lib.Fairness

namespace AuroraRelay.CommandQueue
open Transition Machine

/-- The command at the place has been pushed and is still to be handed over. -/
def Outstanding (i : ℕ) (s : Threads) : Prop := i < s.pushed.length ∧ s.handed.length ≤ i

/-- How far `parse_loop` is from its next call. -/
def ConsumerPc.away (newCommand : ℕ) : ConsumerPc → ℕ
  | .waiting => if newCommand = 0 then 5 else 4
  | .popping => 4
  | .testing => 3
  | .peeking => 2
  | .calling _ => 1
  | .outOfBounds => 0

def away (i : ℕ) (s : Threads) : ℕ :=
  4 * (i - s.handed.length) + s.consumer.away s.newCommand

section Step

variable {s s' : Threads} {i : ℕ} {p : Producer}

theorem push_outcome {command : String} (h : push s p command = some s') :
    s.producer p = .idle ∧ s'.producer = Function.update s.producer p .pushed ∧
      s'.pushed = s.pushed ++ [command] ∧ s'.handed = s.handed ∧ s'.consumer = s.consumer ∧
      s'.newCommand = s.newCommand := by
  unfold push at h
  split at h
  · obtain rfl := Option.some.inj h
    exact ⟨‹_›, rfl, rfl, rfl, rfl, rfl⟩
  · cases h

theorem post_outcome (h : post s p = some s') :
    s'.pushed = s.pushed ∧ s'.handed = s.handed ∧ s'.consumer = s.consumer ∧
      0 < s'.newCommand := by
  unfold post at h
  split at h
  · obtain rfl := Option.some.inj h
    exact ⟨rfl, rfl, rfl, Semaphore.post_pos _⟩
  · cases h

theorem parseLoop_pushed (h : parseLoop s = some s') : s'.pushed = s.pushed := by
  unfold parseLoop at h
  split at h
  · obtain ⟨n, -, rfl⟩ := Option.map_eq_some_iff.mp h
    rfl
  · split_ifs at h
    · obtain rfl := Option.some.inj h
      rfl
    · obtain rfl := Option.some.inj h
      rfl
  · split at h
    · obtain rfl := Option.some.inj h
      rfl
    · obtain rfl := Option.some.inj h
      rfl
  · obtain rfl := Option.some.inj h
    rfl
  · split at h
    · obtain rfl := Option.some.inj h
      rfl
    · obtain rfl := Option.some.inj h
      rfl
  · cases h

/-- The queue holds what is outstanding. -/
theorem Outstanding.queue_ne_nil (h : Outstanding i s) (hp : s.pushed = s.handed ++ s.queue) :
    s.queue ≠ [] := by
  obtain ⟨hpushed, hhanded⟩ := h
  intro hnil
  rw [hp, hnil, List.append_nil] at hpushed
  omega

theorem Outstanding.push (h : Outstanding i s) {command : String}
    (hs : push s p command = some s') : Outstanding i s' ∧ away i s' = away i s := by
  obtain ⟨-, -, hpushed, hhanded, hconsumer, hnew⟩ := push_outcome hs
  refine ⟨⟨?_, ?_⟩, ?_⟩
  · have := h.1
    rw [hpushed, List.length_append]
    omega
  · rw [hhanded]
    exact h.2
  · rw [away, away, hhanded, hconsumer, hnew]

theorem Outstanding.post (h : Outstanding i s) (hs : post s p = some s') :
    Outstanding i s' ∧ away i s' ≤ away i s ∧
      (s.consumer = .waiting → s.newCommand = 0 → away i s' < away i s) := by
  obtain ⟨hpushed, hhanded, hconsumer, hpos⟩ := post_outcome hs
  refine ⟨⟨?_, ?_⟩, ?_, fun hwait hzero => ?_⟩
  · rw [hpushed]
    exact h.1
  · rw [hhanded]
    exact h.2
  · rw [away, away, hhanded, hconsumer]
    cases s.consumer with
    | waiting =>
      simp only [ConsumerPc.away, if_neg (Nat.ne_of_gt hpos)]
      split_ifs
      · omega
      · omega
    | _ => exact le_rfl
  · rw [away, away, hhanded, hconsumer, hwait]
    simp only [ConsumerPc.away, if_neg (Nat.ne_of_gt hpos), if_pos hzero]
    omega

/-- Each move of `parse_loop` brings it nearer. -/
theorem Outstanding.parseLoop (h : Outstanding i s) (hacc : Accounted s)
    (hs : parseLoop s = some s') :
    i < s'.handed.length ∨ Outstanding i s' ∧ away i s' < away i s := by
  unfold CommandQueue.parseLoop at hs
  unfold Accounted at hacc
  cases hc : s.consumer with
  | waiting =>
    rw [hc] at hs
    obtain ⟨n, hn, rfl⟩ := Option.map_eq_some_iff.mp hs
    refine .inr ⟨h, ?_⟩
    rw [away, away, hc]
    simp only [ConsumerPc.away]
    split_ifs
    · omega
    · omega
  | testing =>
    rw [hc] at hs hacc
    have hlen : s.queue.length > 0 := List.length_pos_iff.mpr (h.queue_ne_nil hacc)
    dsimp only at hs
    rw [if_pos hlen] at hs
    obtain rfl := Option.some.inj hs
    refine .inr ⟨h, ?_⟩
    rw [away, away, hc]
    exact Nat.lt_succ_self _
  | peeking =>
    rw [hc] at hs hacc
    cases hqueue : s.queue with
    | nil => exact absurd hqueue hacc.2
    | cons command rest =>
      rw [hqueue] at hs
      obtain rfl := Option.some.inj hs
      refine .inr ⟨h, ?_⟩
      rw [away, away, hc]
      exact Nat.lt_succ_self _
  | calling command =>
    rw [hc] at hs
    obtain rfl := Option.some.inj hs
    obtain ⟨hpushed, hhanded⟩ := h
    have hlength : (s.handed ++ [command]).length = s.handed.length + 1 := by simp
    rcases Nat.lt_or_ge i (s.handed.length + 1) with hlt | hge
    · exact .inl (hlength ▸ hlt)
    · refine .inr ⟨⟨hpushed, hlength ▸ hge⟩, ?_⟩
      rw [away, away, hc]
      simp only [ConsumerPc.away, hlength]
      omega
  | popping =>
    rw [hc] at hs hacc
    cases hqueue : s.queue with
    | nil => exact absurd hqueue hacc.2
    | cons command rest =>
      rw [hqueue] at hs
      obtain rfl := Option.some.inj hs
      refine .inr ⟨h, ?_⟩
      rw [away, away, hc]
      exact Nat.lt_succ_self _
  | outOfBounds =>
    rw [hc] at hacc
    exact hacc.elim

/-- `parse_loop` can move unless it sleeps. -/
theorem Accounted.parseLoop_isSome (h : Accounted s)
    (hawake : s.consumer ≠ .waiting ∨ s.newCommand ≠ 0) : (parseLoop s).isSome := by
  unfold parseLoop
  unfold Accounted at h
  cases hc : s.consumer with
  | waiting =>
    cases hn : s.newCommand with
    | zero => exact absurd hn (hawake.resolve_left (not_not.mpr hc))
    | succ n => rfl
  | testing =>
    dsimp only
    split_ifs
    · rfl
    · rfl
  | peeking =>
    cases hqueue : s.queue with
    | nil => rfl
    | cons command rest => rfl
  | calling command => rfl
  | popping =>
    cases hqueue : s.queue with
    | nil => rfl
    | cons command rest => rfl
  | outOfBounds =>
    rw [hc] at h
    exact h.elim

end Step

section Run

variable {r : commandQueue.Run} {i k : ℕ}

/-- With `parse_loop` awake, it is the one that gets nearer. -/
theorem leadsTo_nearer_of_awake (hparse : r.WeaklyFair {.parseLoop}) :
    r.LeadsTo
      (fun s => (Outstanding i s ∧ away i s = k) ∧ (s.consumer ≠ .waiting ∨ s.newCommand ≠ 0))
      fun s => i < s.handed.length ∨ Outstanding i s ∧ away i s < k := by
  apply Run.leadsTo_of_fair hparse
  · rintro n ⟨-, hawake⟩
    exact ⟨.parseLoop, rfl, (inv_of_reachable (r.reachable n)).1.parseLoop_isSome hawake⟩
  · rintro n l ⟨⟨hout, rfl⟩, hawake⟩ hl
    have hs := Run.step_of_label hl
    cases l with
    | push p command =>
      obtain ⟨-, -, -, -, hconsumer, hnew⟩ := push_outcome hs
      refine .inr ⟨⟨hout.push hs, ?_⟩, fun he => Label.noConfusion he⟩
      rwa [hconsumer, hnew]
    | post p =>
      obtain ⟨-, -, -, hpos⟩ := post_outcome hs
      obtain ⟨hout', hle, -⟩ := hout.post hs
      rcases hle.lt_or_eq with hlt | heq
      · exact .inl (.inr ⟨hout', hlt⟩)
      · exact .inr ⟨⟨⟨hout', heq⟩, .inr (Nat.ne_of_gt hpos)⟩, fun he => Label.noConfusion he⟩
    | parseLoop =>
      exact .inl (hout.parseLoop (inv_of_reachable (r.reachable n)).1 hs)

/-- Asleep, it is woken up by the producer that has pushed. -/
theorem leadsTo_nearer_of_pushed {p : Producer} (hpost : r.WeaklyFair {.post p}) :
    r.LeadsTo
      (fun s => (Outstanding i s ∧ away i s = k) ∧
        (s.consumer = .waiting ∧ s.newCommand = 0) ∧ s.producer p = .pushed)
      fun s => i < s.handed.length ∨ Outstanding i s ∧ away i s < k := by
  apply Run.leadsTo_of_fair hpost
  · rintro n ⟨-, -, hpushed⟩
    refine ⟨.post p, rfl, ?_⟩
    change (post _ p).isSome
    rw [post, hpushed]
    rfl
  · rintro n l ⟨⟨hout, rfl⟩, ⟨hwait, hzero⟩, hpushed⟩ hl
    have hs := Run.step_of_label hl
    cases l with
    | push q command =>
      obtain ⟨hidle, hproducer, -, -, hconsumer, hnew⟩ := push_outcome hs
      have hne : p ≠ q := by
        rintro rfl
        rw [hpushed] at hidle
        cases hidle
      refine .inr ⟨⟨hout.push hs, ⟨?_, ?_⟩, ?_⟩, fun he => Label.noConfusion he⟩
      · rwa [hconsumer]
      · rwa [hnew]
      · rwa [hproducer, Function.update_of_ne hne]
    | post q =>
      obtain ⟨hout', -, hlt⟩ := hout.post hs
      exact .inl (.inr ⟨hout', hlt hwait hzero⟩)
    | parseLoop =>
      change parseLoop _ = _ at hs
      rw [parseLoop, hwait, hzero] at hs
      cases hs

theorem leadsTo_handed (hparse : r.WeaklyFair {.parseLoop})
    (hpost : ∀ p, r.WeaklyFair {.post p}) :
    r.LeadsTo (Outstanding i) fun s => i < s.handed.length := by
  apply Run.leadsTo_of_rank (away i)
  intro k n hn
  by_cases hawake : (r.state n).consumer ≠ .waiting ∨ (r.state n).newCommand ≠ 0
  · exact leadsTo_nearer_of_awake hparse n ⟨hn, hawake⟩
  · obtain ⟨hwait, hzero⟩ := not_or.mp hawake
    rw [not_not] at hwait hzero
    obtain ⟨hacc, hwake⟩ := inv_of_reachable (r.reachable n)
    have hqueue : (r.state n).queue ≠ [] := by
      unfold Accounted at hacc
      rw [hwait] at hacc
      exact hn.1.queue_ne_nil hacc
    rcases hwake hwait hqueue with hpos | ⟨p, hp⟩
    · omega
    · exact leadsTo_nearer_of_pushed (hpost p) n ⟨hn, ⟨hwait, hzero⟩, hp⟩

/-- Commands that were pushed stay on record. -/
theorem pushed_mono {n m : ℕ} (h : n ≤ m) : (r.state n).pushed <+: (r.state m).pushed := by
  refine Run.persists (r := r) (P := fun s => (r.state n).pushed <+: s.pushed) ?_ h
    (List.prefix_refl _)
  intro m l hstart hl
  have hs := Run.step_of_label hl
  cases l with
  | push p command =>
    obtain ⟨-, -, hpushed, -⟩ := push_outcome hs
    rw [hpushed]
    exact hstart.trans (List.prefix_append _ _)
  | post p => rwa [(post_outcome hs).1]
  | parseLoop => rwa [parseLoop_pushed hs]

end Run

/-- In every fair run `parse_json` has in the end been called for every command pushed so far,
in the order of the pushes. -/
theorem every_command_handed (r : commandQueue.Run) (hparse : r.WeaklyFair {.parseLoop})
    (hpost : ∀ p, r.WeaklyFair {.post p}) (n : ℕ) :
    ∃ m ≥ n, (r.state n).pushed <+: (r.state m).handed := by
  by_cases hnil : (r.state n).pushed = []
  · exact ⟨n, le_rfl, by rw [hnil]; exact List.nil_prefix⟩
  have hlen := List.length_pos_iff.mpr hnil
  -- the last command pushed is handed over behind all others
  have hlast : ∃ m ≥ n, (r.state n).pushed.length ≤ (r.state m).handed.length := by
    rcases Nat.lt_or_ge ((r.state n).pushed.length - 1) (r.state n).handed.length with hlt | hge
    · exact ⟨n, le_rfl, by omega⟩
    · obtain ⟨m, hm, hlt⟩ := leadsTo_handed (i := (r.state n).pushed.length - 1) hparse hpost n
        ⟨by omega, hge⟩
      exact ⟨m, hm, by omega⟩
  obtain ⟨m, hm, hle⟩ := hlast
  refine ⟨m, hm, ?_⟩
  have hhanded := Accounted.handed_prefix (inv_of_reachable (r.reachable m)).1
  exact List.prefix_of_prefix_length_le (pushed_mono hm) hhanded hle

def pairRun : commandQueue.Run :=
  .ofLabels commandQueue [.push .recvLoop "a", .post .recvLoop, .push .dpmAgent "b",
    .post .dpmAgent, .parseLoop, .parseLoop, .parseLoop, .parseLoop, .parseLoop, .parseLoop,
    .parseLoop, .parseLoop, .parseLoop, .parseLoop, .parseLoop, .parseLoop]

theorem every_command_handed_pair :
    ∃ m ≥ 4, (pairRun.state 4).pushed = ["a", "b"] ∧
      (pairRun.state 4).pushed <+: (pairRun.state m).handed := by
  have hparse : pairRun.WeaklyFair {.parseLoop} := by
    apply Run.weaklyFair_ofLabels
    rintro l rfl
    rfl
  have hpost : ∀ p, pairRun.WeaklyFair {.post p} := by
    intro p
    apply Run.weaklyFair_ofLabels
    rintro l rfl
    cases p with
    | recvLoop => rfl
    | dpmAgent => rfl
  obtain ⟨m, hm, hstart⟩ := every_command_handed pairRun hparse hpost 4
  exact ⟨m, hm, rfl, hstart⟩

end AuroraRelay.CommandQueue
