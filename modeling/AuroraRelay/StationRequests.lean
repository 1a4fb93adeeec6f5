import AuroraRelay.Lib.LastMark
import AuroraRelay.StaleAssociation

namespace AuroraRelay.ConfirmedStations
open CommsAgent Interaction LastMark WarpProtocol

def station : Request → Option (Mac × Mac)
  | .associate b m => some (b, m)
  | .disassociate b m => some (b, m)
  | _ => none

/-- What a request is to make of the station: associated or not. -/
def verdict (b m : Mac) (q : Request) : Option Bool :=
  if station q = some (b, m) then
    match q with
    | .associate _ _ => some true
    | _ => some false
  else none

def lastVerdict (b m : Mac) : List Request → Option Bool := last (verdict b m)

def Unconcerned (requests : List Request) : Prop := ∀ q ∈ requests, station q = none

instance (requests : List Request) : Decidable (Unconcerned requests) := List.decidableBAll _ _

theorem unconcerned_nil : Unconcerned [] := List.forall_mem_nil _

theorem verdict_of_unconcerned {b m : Mac} {requests : List Request} (h : Unconcerned requests) :
    ∀ q ∈ requests, verdict b m q = none := by
  intro q hq
  simp [verdict, h q hq]

theorem lastVerdict_of_unconcerned {requests : List Request} (h : Unconcerned requests)
    (b m : Mac) : lastVerdict b m requests = none :=
  last_of_unmarked (verdict_of_unconcerned h)

theorem lastVerdict_append (b m : Mac) (earlier later : List Request) :
    lastVerdict b m (earlier ++ later) =
      (lastVerdict b m later).or (lastVerdict b m earlier) :=
  last_append earlier later

/-- The requests that are not yet answered, while the command may still go on. -/
def pendingOf : Progress → List Request
  | ⟨remaining, .ready⟩ => remaining
  | ⟨remaining, .awaiting q⟩ => q :: remaining
  | ⟨_, .refused⟩ => []
  | ⟨_, .updated⟩ => []

def Settled (s : Progress) (_ : UInt8) : Prop := Unconcerned (pendingOf s)

def laterOf : Progress → List Request
  | ⟨remaining, .ready⟩ => remaining.tail
  | ⟨remaining, _⟩ => remaining

theorem unconcerned_monitor {P : Option Plan} {s : Progress} {c : Call} {next : Reply c → Progress}
    (h : Unconcerned (pendingOf s)) (hM : monitor P s c = some next) (r : Reply c) :
    Unconcerned (pendingOf (next r)) := by
  cases c with
  | setMessage message =>
    rw [(monitor_setMessage hM).2 r]
    exact h
  | sync op packet =>
    obtain ⟨q, remaining, rfl, -, -, hnext⟩ := monitor_sync hM
    rw [hnext]
    exact h
  | timedSync op limit =>
    obtain ⟨q, remaining, rfl, -, -, hnext⟩ := monitor_timedSync hM
    rw [hnext]
    split_ifs
    · exact fun q' hq' => h q' (List.mem_cons_of_mem _ hq')
    · exact unconcerned_nil
  | updateBssids op text =>
    obtain ⟨plan, -, -, -, -, hnext⟩ := monitor_updateBssids hM
    rw [hnext]
    exact unconcerned_nil

/-- A command whose script is about no station. -/
theorem settled_of_unconcerned {P : Option Plan} {Q : Progress → UInt8 → Prop} {s : Progress}
    {p : Relay UInt8} (h : Obeys (monitor P) Q s p) (hs : Unconcerned (pendingOf s)) :
    Obeys (monitor P) Settled s p := by
  apply h.of_invariant (I := fun s => Unconcerned (pendingOf s)) hs
  · intro s c next hs hM r
    exact unconcerned_monitor hs hM r
  · intro s code _ hs
    exact hs

theorem runCommand_settled (root : Json) :
    Obeys (monitor (plan root)) Settled ⟨script (plan root), .ready⟩ (runCommand root) := by
  have hother (h : Unconcerned (script (plan root))) :=
    settled_of_unconcerned (runCommand_obeys root) h
  cases hP : plan root with
  | none =>
    rw [hP] at hother
    exact hother unconcerned_nil
  | some P =>
    obtain ⟨command, hc, ⟨x, -, ⟨-, rfl⟩ | ⟨-, rfl⟩⟩ | ⟨x, y, -, -, ⟨rfl, rfl⟩ | ⟨rfl, rfl⟩⟩⟩ :=
      plan_inversion hP
    · rw [hP] at hother
      exact hother (by simp [script, Unconcerned, station])
    · rw [hP] at hother
      exact hother (by simp [script, Unconcerned, station])
    · rw [← hP, runCommand_of_command hc, if_neg (by decide), if_neg (by decide), if_pos rfl]
      exact stationCommand_obeys .associate _ hc (fun _ => unconcerned_nil) unconcerned_nil
        unconcerned_nil
    · rw [← hP, runCommand_of_command hc, if_neg (by decide), if_neg (by decide),
        if_neg (by decide), if_pos rfl]
      exact stationCommand_obeys .disassociate _ hc (fun _ => unconcerned_nil) unconcerned_nil
        unconcerned_nil

/-- Whatever WARP answers, a command returns only when its station has been asked for. -/
theorem parseJson_settled (jsonLoads : String → Option Json) (text : String) :
    Obeys (monitor (planOf jsonLoads text)) Settled
      ⟨script (planOf jsonLoads text), .ready⟩ (parseJson jsonLoads text) := by
  cases hroot : jsonLoads text with
  | some root =>
    simpa only [parseJson, planOf, hroot, Option.bind_some] using runCommand_settled root
  | none =>
    apply settled_of_unconcerned (parseJson_obeys jsonLoads text)
    simp [planOf, hroot, script, pendingOf, Unconcerned]

/-- Of the requests of a command only the first can be for a station. -/
theorem unconcerned_tail (jsonLoads : String → Option Json) (text : String) :
    Unconcerned (script (planOf jsonLoads text)).tail := by
  cases hP : planOf jsonLoads text with
  | none => exact unconcerned_nil
  | some P =>
    obtain ⟨root, -, hplan⟩ := Option.bind_eq_some_iff.mp hP
    change Unconcerned P.requests.tail
    rcases StaleAssociation.plan_cases hplan with
      ⟨b, -, -, hrequests⟩ | ⟨b, -, -, hrequests⟩ | ⟨-, -, b, m, hrequests⟩ |
        ⟨-, -, b, m, hrequests⟩ <;>
      simp [Unconcerned, hrequests, station]

end AuroraRelay.ConfirmedStations
