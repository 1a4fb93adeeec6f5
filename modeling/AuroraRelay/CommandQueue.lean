import Mathlib.Logic.Function.Basic
import AuroraRelay.Lib.Semaphore
import AuroraRelay.Lib.Transition

/-!
# The command queue

The threads around `command_queue` in `comms_agent.cpp`.  Two of them push, the loop
that reads the socket and the datapath manager through `CommsAgent::sync`; each push
is followed by a `sem_post`.  `parse_loop` peeks at the front, works without the
lock, and pops.
-/

namespace AuroraRelay.CommandQueue
open Transition

inductive Producer
  | recvLoop
  | dpmAgent
  deriving DecidableEq

/-- A producer between its push and its `sem_post` is `pushed`. -/
inductive ProducerPc
  | idle
  | pushed
  deriving DecidableEq

/-- The next step of `parse_loop`.  `outOfBounds` stands for a `front` or a `pop` of
the empty queue. -/
inductive ConsumerPc
  | waiting
  | testing
  | peeking
  | calling (nextCommand : String)
  | popping
  | outOfBounds
  deriving DecidableEq

/-- `pushed` and `handed` record the commands pushed and those `parse_json` was
called with. -/
structure Threads where
  queue : List String
  newCommand : ℕ
  producer : Producer → ProducerPc
  consumer : ConsumerPc
  pushed : List String
  handed : List String

inductive Label
  | push (p : Producer) (command : String)
  | post (p : Producer)
  | parseLoop
  deriving DecidableEq

def push (s : Threads) (p : Producer) (command : String) : Option Threads :=
  match s.producer p with
  | .idle => some { s with
      queue := s.queue ++ [command]
      producer := Function.update s.producer p .pushed
      pushed := s.pushed ++ [command] }
  | .pushed => none

def post (s : Threads) (p : Producer) : Option Threads :=
  match s.producer p with
  | .pushed => some { s with
      newCommand := Semaphore.post s.newCommand
      producer := Function.update s.producer p .idle }
  | .idle => none

def parseLoop (s : Threads) : Option Threads :=
  match s.consumer with
  | .waiting =>
    (Semaphore.wait s.newCommand).map fun n => { s with newCommand := n, consumer := .testing }
  | .testing =>
    if s.queue.length > 0 then some { s with consumer := .peeking }
    else some { s with consumer := .waiting }
  | .peeking =>
    match s.queue with
    | command :: _ => some { s with consumer := .calling command }
    | [] => some { s with consumer := .outOfBounds }
  | .calling command => some { s with consumer := .popping, handed := s.handed ++ [command] }
  | .popping =>
    match s.queue with
    | _ :: rest => some { s with queue := rest, consumer := .testing }
    | [] => some { s with consumer := .outOfBounds }
  | .outOfBounds => none

def commandQueue : Machine Threads Label where
  init := ⟨[], 0, fun _ => .idle, .waiting, [], []⟩
  step s
    | .push p command => push s p command
    | .post p => post s p
    | .parseLoop => parseLoop s

/-- Where the commands pushed are.  Between the call of `parse_json` and the pop the
front of the queue has been handed over already. -/
def Accounted (s : Threads) : Prop :=
  match s.consumer with
  | .waiting => s.pushed = s.handed ++ s.queue
  | .testing => s.pushed = s.handed ++ s.queue
  | .peeking => s.pushed = s.handed ++ s.queue ∧ s.queue ≠ []
  | .calling command => s.pushed = s.handed ++ s.queue ∧ s.queue.head? = some command
  | .popping => s.pushed = s.handed ++ s.queue.tail ∧ s.queue ≠ []
  | .outOfBounds => False

/-- A blocked consumer has nothing to do unless it is about to be woken up. -/
def Awake (s : Threads) : Prop :=
  s.consumer = .waiting → s.queue ≠ [] → 0 < s.newCommand ∨ ∃ p, s.producer p = .pushed

theorem push_inv {s s' : Threads} {p : Producer} {command : String} (h : Accounted s)
    (hs : push s p command = some s') : Accounted s' ∧ Awake s' := by
  unfold push at hs
  split at hs
  · obtain rfl := Option.some.inj hs
    refine ⟨?_, fun _ _ => .inr ⟨p, Function.update_self ..⟩⟩
    unfold Accounted at h ⊢
    cases hc : s.consumer with
    | waiting => simp_all
    | testing => simp_all
    | peeking => simp_all
    | calling c =>
      rw [hc] at h
      obtain ⟨hp, hq⟩ := h
      exact ⟨by simp [hp], by simp [hq]⟩
    | popping =>
      rw [hc] at h
      obtain ⟨hp, hq⟩ := h
      exact ⟨by simp [hp, List.tail_append_of_ne_nil hq], by simp⟩
    | outOfBounds => simp_all
  · cases hs

theorem post_inv {s s' : Threads} {p : Producer} (h : Accounted s)
    (hs : post s p = some s') : Accounted s' ∧ Awake s' := by
  unfold post at hs
  split at hs
  · obtain rfl := Option.some.inj hs
    exact ⟨h, fun _ _ => .inl (Semaphore.post_pos _)⟩
  · cases hs

theorem parseLoop_inv {s s' : Threads} (h : Accounted s) (hs : parseLoop s = some s') :
    Accounted s' ∧ Awake s' := by
  unfold parseLoop at hs
  unfold Accounted at h
  cases hc : s.consumer with
  | waiting =>
    rw [hc] at h hs
    obtain ⟨n, -, rfl⟩ := Option.map_eq_some_iff.mp hs
    exact ⟨h, fun hw => by cases hw⟩
  | testing =>
    rw [hc] at h hs
    simp only at h hs
    split_ifs at hs with hlen
    · obtain rfl := Option.some.inj hs
      exact ⟨⟨h, List.length_pos_iff.mp hlen⟩, fun hw => by cases hw⟩
    · obtain rfl := Option.some.inj hs
      -- the loop goes back to sleep only when it has seen the queue empty
      exact ⟨h, fun _ hq => absurd (List.length_pos_iff.mpr hq) hlen⟩
  | peeking =>
    rw [hc] at h hs
    obtain ⟨hp, hq⟩ := h
    cases hqueue : s.queue with
    | nil => exact absurd hqueue hq
    | cons command rest =>
      rw [hqueue] at hs hp
      obtain rfl := Option.some.inj hs
      exact ⟨⟨hp, rfl⟩, fun hw => by cases hw⟩
  | calling command =>
    rw [hc] at h hs
    obtain ⟨hp, hq⟩ := h
    obtain rfl := Option.some.inj hs
    obtain ⟨rest, hqueue⟩ := List.head?_eq_some_iff.mp hq
    refine ⟨⟨?_, ?_⟩, fun hw => by cases hw⟩
    · simp [hp, hqueue]
    · simp [hqueue]
  | popping =>
    rw [hc] at h hs
    obtain ⟨hp, hq⟩ := h
    cases hqueue : s.queue with
    | nil => exact absurd hqueue hq
    | cons command rest =>
      rw [hqueue] at hs hp
      obtain rfl := Option.some.inj hs
      exact ⟨hp, fun hw => by cases hw⟩
  | outOfBounds =>
    rw [hc] at h
    exact h.elim

theorem step_inv {s s' : Threads} {l : Label} (h : Accounted s)
    (hs : commandQueue.step s l = some s') : Accounted s' ∧ Awake s' := by
  cases l with
  | push p command => exact push_inv h hs
  | post p => exact post_inv h hs
  | parseLoop => exact parseLoop_inv h hs

theorem Accounted.handed_prefix {s : Threads} (h : Accounted s) : s.handed <+: s.pushed := by
  unfold Accounted at h
  split at h
  · exact ⟨_, h.symm⟩
  · exact ⟨_, h.symm⟩
  · exact ⟨_, h.1.symm⟩
  · exact ⟨_, h.1.symm⟩
  · exact ⟨_, h.1.symm⟩
  · exact h.elim

theorem inv_of_reachable {s : Threads} (h : commandQueue.Reachable s) : Accounted s ∧ Awake s := by
  apply h.invariant (I := fun s => Accounted s ∧ Awake s)
  · exact ⟨rfl, fun _ hq => absurd rfl hq⟩
  · exact fun s l s' hi hs => step_inv hi.1 hs

/-- The call of `parse_json` is made with the first command pushed that has not been handed
over. -/
theorem pushed_of_calling {s : Threads} {command : String} (h : commandQueue.Reachable s)
    (hc : s.consumer = .calling command) : s.pushed[s.handed.length]? = some command := by
  obtain ⟨hacc, -⟩ := inv_of_reachable h
  unfold Accounted at hacc
  rw [hc] at hacc
  obtain ⟨hpushed, hqueue⟩ := hacc
  rw [hpushed, List.getElem?_append_right (Nat.le_refl _), Nat.sub_self, ← List.head?_eq_getElem?,
    hqueue]

/-- In every run the commands handed to `parse_json` are those pushed, in order and
each once, and the loop never sleeps on a command that nobody will wake it for. -/
theorem commands_handed_in_order {s : Threads} (h : commandQueue.Reachable s) :
    s.handed <+: s.pushed ∧ s.consumer ≠ .outOfBounds ∧
      ¬((∀ p, s.producer p = .idle) ∧ s.consumer = .waiting ∧ s.newCommand = 0 ∧
        s.queue ≠ []) := by
  obtain ⟨hacc, hawake⟩ := inv_of_reachable h
  refine ⟨hacc.handed_prefix, fun hc => ?_, ?_⟩
  · unfold Accounted at hacc
    rw [hc] at hacc
    exact hacc
  · rintro ⟨hidle, hwait, hzero, hq⟩
    rcases hawake hwait hq with hpos | ⟨p, hp⟩
    · omega
    · rw [hidle p] at hp
      cases hp

/-- Two commands, the second one pushed while the first is being worked on. -/
theorem commands_handed_in_order_pair :
    ∃ s, commandQueue.Reachable s ∧ s.handed = ["a", "b"] ∧ s.handed <+: s.pushed := by
  have h := Machine.reachable_of_exec (M := commandQueue)
    [.push .recvLoop "a", .post .recvLoop, .parseLoop, .parseLoop, .parseLoop, .parseLoop,
      .push .dpmAgent "b", .parseLoop, .parseLoop, .parseLoop, .parseLoop] rfl
  exact ⟨_, h, rfl, (commands_handed_in_order h).1⟩

end AuroraRelay.CommandQueue
