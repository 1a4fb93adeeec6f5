import AuroraRelay.StationRequests
import AuroraRelay.StationDatapath

/-!
# Recorded and confirmed stations

A pass of `timed_check` records the stations that hostapd reports at once, and only pushes
the commands that ask WARP to follow.  What WARP answers does not come back to the record,
so that it is right when the queue has been worked off only if the answers were what the
pass took for granted.
-/

namespace AuroraRelay.ConfirmedStations
open CommsAgent Interaction LastMark Std Transition WarpProtocol

/-- What has happened with WARP: an interface has been registered, or a request confirmed. -/
inductive Entry
  | registered (virtualInterface : String)
  | confirmed (q : Request)

def since (v : String) (log : List Entry) : List Request :=
  log.foldl (fun requests entry =>
    match entry with
    | .registered u => if u = v then [] else requests
    | .confirmed q => requests ++ [q]) []

@[simp] theorem since_confirmed (v : String) (log : List Entry) (q : Request) :
    since v (log ++ [.confirmed q]) = since v log ++ [q] := by
  simp [since]

theorem since_registered (v u : String) (log : List Entry) :
    since v (log ++ [.registered u]) = if u = v then [] else since v log := by
  simp [since]

/-- WARP has confirmed the station as associated, with no later disassociation. -/
def Associated (log : List Entry) (v : String) (b m : Mac) : Prop :=
  lastVerdict b m (since v log) = some true

instance (log : List Entry) (v : String) (b m : Mac) : Decidable (Associated log v b m) :=
  inferInstanceAs (Decidable (_ = _))

/-- A pass of `timed_check`: what hostapd has reported for the interface, and the commands
that are still to be pushed, each with its station. -/
structure Pass where
  virtualInterface : String
  output : TreeSet String
  todo : List (String × String)
  pushed : Bool

/-- `running` is what is left of the command that is being processed. -/
structure State where
  queue : List String
  running : Option (Relay UInt8)
  lastSent : Option ControlPacket
  agent : DpmAgent
  pass : Option Pass
  log : List Entry
  terminated : Bool

/-- A call comes with the reply that WARP gives if it is waited for, and with what
`ifconfig` says at that time. -/
inductive Label
  | push (text : String)
  | check (virtualInterface : String) (output : TreeSet String)
  | pushNext
  | record
  | begin
  | call (reply : TimedReply) (getInterfaceName : String → String)
  | finish

namespace State

def hear (s : State) (reply : TimedReply) : State :=
  match s.lastSent.bind ControlPacket.request with
  | some q => if q.Confirmed reply then { s with log := s.log ++ [.confirmed q] } else s
  | none => s

/-- `update_bssids`, as far as the agent of the datapath manager goes. -/
def updateBssids (s : State) (getInterfaceName : String → String) (op : NodeOp) (text : String) :
    State :=
  let synced := s.agent.sync getInterfaceName op text
  { s with
    agent := synced.agent
    log := if op = .bssidAdd ∧ getInterfaceName text ∉ s.agent.interfaceMac then
        s.log ++ [.registered (getInterfaceName text)]
      else s.log
    terminated := !synced.completed }

def handle (s : State) (reply : TimedReply) (getInterfaceName : String → String) :
    (c : Call) → Reply c × State
  | .sync op packet => ((), { s with lastSent := (warpSync op packet).getLast?.or s.lastSent })
  | .timedSync _ _ => (reply, s.hear reply)
  | .setMessage _ => ((), s)
  | .updateBssids op text => ((), s.updateBssids getInterfaceName op text)

def check (s : State) (virtualInterface : String) (output : TreeSet String) : Option State := do
  let known ← s.agent.interfaceMac[virtualInterface]?
  let todo := (DpmAgent.toAssociate known output).map (macAssociateCmd, ·) ++
    (DpmAgent.toDisassociate known output).map (macDisassociateCmd, ·)
  return { s with pass := some ⟨virtualInterface, output, todo, false⟩ }

/-- `interface_bssid.at` is called for each command, and ends the process if the interface has
been unregistered meanwhile. -/
def pushNext (s : State) (p : Pass) (command macAddress : String) (todo : List (String × String)) :
    State :=
  match s.agent.interfaceBssid[p.virtualInterface]? with
  | some bssid => { s with
      queue := s.queue ++ [DpmAgent.stationText command bssid macAddress]
      pass := some { p with todo := todo, pushed := true } }
  | none => { s with terminated := true }

/-- The pass ends: the report is kept, in the entry of the interface as long as there is one.
Where it has been erased during the pass, the source stores through a dangling iterator. -/
def record (s : State) (p : Pass) : State :=
  { s with
    agent := if p.virtualInterface ∈ s.agent.interfaceMac then
        { s.agent with
          interfaceMac := s.agent.interfaceMac.insert p.virtualInterface p.output }
      else s.agent
    pass := none }

end State

section

variable (jsonLoads : String → Option Json)

def step (s : State) (l : Label) : Option State :=
  if s.terminated then none
  else
    match l with
    | .push text => some { s with queue := s.queue ++ [text] }
    | .check virtualInterface output =>
      if s.pass.isSome then none else s.check virtualInterface output
    | .pushNext =>
      match s.pass with
      | some p =>
        match p.todo with
        | (command, macAddress) :: todo => some (s.pushNext p command macAddress todo)
        | [] => none
      | none => none
    | .record =>
      match s.pass with
      | some p => if p.todo = [] then some (s.record p) else none
      | none => none
    | .begin =>
      match s.running, s.queue with
      | none, text :: rest =>
        some { s with queue := rest, running := some (parseJson jsonLoads text) }
      | _, _ => none
    | .call reply getInterfaceName =>
      match s.running with
      | some (.call c k) =>
        let (r, s') := s.handle reply getInterfaceName c
        some { s' with running := some (k r) }
      | _ => none
    | .finish =>
      match s.running with
      | some (.ret _) => some { s with running := none }
      | _ => none

def relay : Machine State Label where
  init := ⟨[], none, none, ⟨∅, ∅, ∅⟩, none, [], false⟩
  step := step jsonLoads

def Quiescent (s : State) : Prop := s.queue = [] ∧ s.running = none

/-- The stations recorded for a registered interface are the confirmed ones of its BSSID. -/
def Agrees (s : State) : Prop :=
  ∀ (v bssid : String) (known : TreeSet String) (b : Mac),
    s.agent.interfaceMac[v]? = some known → s.agent.interfaceBssid[v]? = some bssid →
      parseMac bssid = some b →
        ∀ text, text ∈ known ↔ ∃ m, text = macText m ∧ Associated s.log v b m

def waiting (queue : List String) : List Request :=
  queue.flatMap fun text => script (planOf jsonLoads text)

/-- A request for a station of a registered interface is confirmed, or a later command for
the station is waiting, or the station is already what the request was to make of it. -/
def GoodAnswer (s : State) (reply : TimedReply) : Prop :=
  ∀ q ∈ s.lastSent.bind ControlPacket.request, ∀ x ∈ station q,
    ∀ entry ∈ s.agent.interfaceBssid.toList, parseMac entry.2 = some x.1 →
      q.Confirmed reply ∨ lastVerdict x.1 x.2 (waiting jsonLoads s.queue) ≠ none ∨
        (Associated s.log entry.1 x.1 x.2 ↔ verdict x.1 x.2 q = some true)

instance (s : State) (reply : TimedReply) : Decidable (GoodAnswer jsonLoads s reply) :=
  -- named, because Mathlib has one that goes through all pairs of addresses
  @Option.decidableForallMem _ _ (fun _ => Option.decidableForallMem _) _

/-- A BSSID that is registered has a text that JSON takes as it is and is on no other
interface; no pass over the interface is under way, and no command is waiting that would
associate a station with the BSSID. -/
def FreshBssid (s : State) (v text : String) : Prop :=
  JsonPlain text ∧
    (∀ entry ∈ s.agent.interfaceBssid.toList, parseMac entry.2 ≠ parseMac text) ∧
    (∀ p ∈ s.pass, p.virtualInterface ≠ v) ∧
    ∀ x ∈ (waiting jsonLoads s.queue).filterMap station, parseMac text = some x.1 →
      lastVerdict x.1 x.2 (waiting jsonLoads s.queue) ≠ some true

instance (s : State) (v text : String) : Decidable (FreshBssid jsonLoads s v text) :=
  @instDecidableAnd _ _ _ <| @instDecidableAnd _ _ _ <| @instDecidableAnd _ _ _ <|
    List.decidableBAll _ _

def ListsStations (output : TreeSet String) : Prop :=
  ∀ text ∈ output.toList, (parseMac text).map macText = some text

instance (output : TreeSet String) : Decidable (ListsStations output) := List.decidableBAll _ _

def nextCall : Option (Relay UInt8) → Option Call
  | some (.call c _) => some c
  | _ => none

def FaithfulCall (s : State) (reply : TimedReply) (getInterfaceName : String → String) :
    Call → Prop
  | .timedSync _ _ => GoodAnswer jsonLoads s reply
  | .updateBssids op text => op = .bssidAdd → getInterfaceName text ∉ s.agent.interfaceMac →
      FreshBssid jsonLoads s (getInterfaceName text) text
  | _ => True

instance (s : State) (reply : TimedReply) (getInterfaceName : String → String) :
    (c : Call) → Decidable (FaithfulCall jsonLoads s reply getInterfaceName c)
  | .timedSync _ _ => inferInstanceAs (Decidable (GoodAnswer jsonLoads s reply))
  | .updateBssids op text => inferInstanceAs (Decidable (op = .bssidAdd →
      getInterfaceName text ∉ s.agent.interfaceMac →
        FreshBssid jsonLoads s (getInterfaceName text) text))
  | .sync _ _ | .setMessage _ => inferInstanceAs (Decidable True)

def Faithful (s : State) : Label → Prop
  -- commands for stations are for the passes to push
  | .push text => Unconcerned (script (planOf jsonLoads text))
  | .check _ output => ListsStations output
  | .call reply getInterfaceName =>
    ∀ c ∈ nextCall s.running, FaithfulCall jsonLoads s reply getInterfaceName c
  -- the queue is not worked off under a pass that is still to record what it has pushed
  | .finish => s.queue = [] → ∀ p ∈ s.pass, p.pushed = false
  | _ => True

instance (s : State) : (l : Label) → Decidable (Faithful jsonLoads s l)
  | .push text => inferInstanceAs (Decidable (Unconcerned (script (planOf jsonLoads text))))
  | .call reply getInterfaceName => inferInstanceAs (Decidable
      (∀ c ∈ nextCall s.running, FaithfulCall jsonLoads s reply getInterfaceName c))
  | .finish => inferInstanceAs (Decidable (s.queue = [] → ∀ p ∈ s.pass, p.pushed = false))
  | .check _ output => inferInstanceAs (Decidable (ListsStations output))
  | .pushNext | .record | .begin => inferInstanceAs (Decidable True)

end

section
variable (jsonLoads : String → Option Json)

/-- What will have been made of the station once everything that waits is confirmed. -/
def outlook (s : State) (current : List Request) (v : String) (b m : Mac) : Option Bool :=
  lastVerdict b m (since v s.log ++ (current ++ waiting jsonLoads s.queue))

def intent (m : Mac) (x : String × String) : Option Bool :=
  if x.2 = macText m then some (decide (x.1 = macAssociateCmd)) else none

/-- The entries of one interface, with its outlook.  While a pass pushes commands for it,
the stations are not yet those. -/
structure EntrySound (outlook : Mac → Mac → Option Bool) (pushing : Prop)
    (known : Option (TreeSet String)) (bssid : Option String) : Prop where
  keys : known.isSome = bssid.isSome
  plain : ∀ text ∈ bssid, JsonPlain text ∧ (parseMac text).isSome
  printed : ∀ stations ∈ known, ∀ text ∈ stations, ∃ m, text = macText m
  agree : ¬pushing → ∀ stations ∈ known, ∀ text ∈ bssid, ∀ b ∈ parseMac text, ∀ m,
    macText m ∈ stations ↔ outlook b m = some true

/-- What a pass will record is the outlook behind the commands that it is still to push. -/
structure PassSound (outlook : Mac → Mac → Option Bool) (bssid : Option String) (p : Pass) :
    Prop where
  printed : ∀ text ∈ p.output, ∃ m, text = macText m
  todo : ∀ x ∈ p.todo, (x.1 = macAssociateCmd ∨ x.1 = macDisassociateCmd) ∧ ∃ m, x.2 = macText m
  agree : ∀ text ∈ bssid, ∀ b ∈ parseMac text, ∀ m,
    macText m ∈ p.output ↔ (last (intent m) p.todo).or (outlook b m) = some true

def Pushing (pass : Option Pass) (v : String) : Prop :=
  ∃ p ∈ pass, p.virtualInterface = v ∧ p.pushed = true

structure Recorded (outlook : String → Mac → Mac → Option Bool) (agent : DpmAgent)
    (pass : Option Pass) : Prop where
  entry : ∀ v : String, EntrySound (outlook v) (Pushing pass v)
    agent.interfaceMac[v]? agent.interfaceBssid[v]?
  distinct : ∀ u v text text' : String, agent.interfaceBssid[u]? = some text →
    agent.interfaceBssid[v]? = some text' → parseMac text = parseMac text' → u = v
  pass : ∀ p ∈ pass, PassSound (outlook p.virtualInterface)
    agent.interfaceBssid[p.virtualInterface]? p

def Working (s : State) (current : List Request) : Prop :=
  match s.running with
  | none => current = []
  | some p => ∃ text progress,
      Obeys (monitor (planOf jsonLoads text)) Settled progress p ∧
        current = pendingOf progress ∧ Unconcerned (laterOf progress) ∧
        ∀ q, progress.phase = .awaiting q → s.lastSent.bind ControlPacket.request = some q

structure Sound (s : State) : Prop where
  recorded : ∃ current, Working jsonLoads s current ∧
    Recorded (outlook jsonLoads s current) s.agent s.pass
  busy : ∀ p ∈ s.pass, p.pushed = true → s.queue ≠ [] ∨ s.running ≠ none

end

section
variable {jsonLoads : String → Option Json} {s : State}
  {current : List Request} {agent : DpmAgent} {pass : Option Pass}
  {outlook' : String → Mac → Mac → Option Bool}

/-- Where the queue is empty and nothing is processed, the outlook is what has happened. -/
theorem Sound.agrees (h : Sound jsonLoads s) (hq : Quiescent s) : Agrees s := by
  obtain ⟨current, hworking, hrecorded⟩ := h.recorded
  obtain ⟨hqueue, hrunning⟩ := hq
  rw [Working, hrunning] at hworking
  subst hworking
  intro v bssid known b hknown hbssid hb text
  have hentry := hrecorded.entry v
  have hidle : ¬Pushing s.pass v := by
    rintro ⟨p, hp, -, hpushed⟩
    rcases h.busy p hp hpushed with h | h
    · exact h hqueue
    · exact h hrunning
  have hagree (m : Mac) : macText m ∈ known ↔ Associated s.log v b m := by
    rw [hentry.agree hidle known hknown bssid hbssid b hb m, outlook, hqueue]
    simp [waiting, Associated]
  constructor
  · intro htext
    obtain ⟨m, rfl⟩ := hentry.printed known hknown text htext
    exact ⟨m, rfl, (hagree m).mp htext⟩
  · rintro ⟨m, rfl, hm⟩
    exact (hagree m).mpr hm

theorem waiting_append (queue : List String) (text : String) :
    waiting jsonLoads (queue ++ [text]) =
      waiting jsonLoads queue ++ script (planOf jsonLoads text) := by
  simp [waiting]

/-- The command pushed last decides. -/
theorem outlook_push (current : List Request) (text v : String) (b m : Mac) :
    outlook jsonLoads { s with queue := s.queue ++ [text] } current v b m =
      (lastVerdict b m (script (planOf jsonLoads text))).or
        (outlook jsonLoads s current v b m) := by
  simp only [outlook, waiting_append, lastVerdict_append, Option.or_assoc]

theorem sound_push {text : String} (h : Sound jsonLoads s)
    (hc : Unconcerned (script (planOf jsonLoads text))) :
    Sound jsonLoads { s with queue := s.queue ++ [text] } := by
  obtain ⟨current, hworking, hrecorded⟩ := h.recorded
  refine ⟨⟨current, hworking, ?_⟩, fun p hp hpushed => .inl (by simp)⟩
  have hsame : outlook jsonLoads { s with queue := s.queue ++ [text] } current =
      outlook jsonLoads s current := by
    funext v b m
    rw [outlook_push, lastVerdict_of_unconcerned hc, Option.none_or]
  rw [hsame]
  exact hrecorded

/-- What the command for a station is to make of it. -/
theorem lastVerdict_stationText (hj : ReadsStations jsonLoads)
    {command bssid : String} {b₀ : Mac}
    (hcommand : command = macAssociateCmd ∨ command = macDisassociateCmd)
    (hplain : JsonPlain bssid) (hb₀ : parseMac bssid = some b₀) (m₀ b m : Mac) :
    lastVerdict b m (script (planOf jsonLoads (DpmAgent.stationText command bssid (macText m₀)))) =
      if b₀ = b then intent m (command, macText m₀) else none := by
  have hplain₀ : JsonPlain (macText m₀) := (plainAddress_macText m₀).json
  rcases hcommand with rfl | rfl
  · rw [planOf, hj _ _ _ (by decide) hplain hplain₀, Option.bind_some,
      plan_station .associate rfl, addressOf_stationJson_bssid, addressOf_stationJson_station, hb₀,
      parseMac_macText]
    by_cases hb : b₀ = b <;> by_cases hm : m₀ = m <;>
      simp [lastVerdict, last, verdict, station, intent, script, StationOp.request,
        macText_injective.eq_iff, hb, hm]
  · rw [planOf, hj _ _ _ (by decide) hplain hplain₀, Option.bind_some,
      plan_station .disassociate rfl, addressOf_stationJson_bssid, addressOf_stationJson_station,
      hb₀, parseMac_macText]
    have hne : macDisassociateCmd ≠ macAssociateCmd := by decide
    by_cases hb : b₀ = b <;> by_cases hm : m₀ = m <;>
      simp [lastVerdict, last, verdict, station, intent, script, StationOp.request,
        macText_injective.eq_iff, hb, hm, hne]

theorem outlook_station (hj : ReadsStations jsonLoads)
    {command bssid : String} {b₀ : Mac}
    (hcommand : command = macAssociateCmd ∨ command = macDisassociateCmd)
    (hplain : JsonPlain bssid) (hb₀ : parseMac bssid = some b₀) (m₀ : Mac) (s : State)
    (current : List Request) (v : String) (b m : Mac) :
    outlook jsonLoads
        { s with queue := s.queue ++ [DpmAgent.stationText command bssid (macText m₀)] }
        current v b m =
      (if b₀ = b then intent m (command, macText m₀) else none).or
        (outlook jsonLoads s current v b m) := by
  rw [outlook_push, lastVerdict_stationText hj hcommand hplain hb₀]

theorem last_intent (command : String) (texts : List String) (m : Mac) :
    last (intent m) (texts.map (command, ·)) =
      if macText m ∈ texts then some (decide (command = macAssociateCmd)) else none := by
  split_ifs with hm
  · apply last_of_same
    · intro x hx y hy
      obtain ⟨text, -, rfl⟩ := List.mem_map.mp hx
      simp only [intent, Option.ite_none_right_eq_some, Option.some.injEq] at hy
      exact hy.2.symm
    · exact ⟨(command, macText m), List.mem_map_of_mem hm, by simp [intent]⟩
  · apply last_of_unmarked
    intro x hx
    obtain ⟨text, htext, rfl⟩ := List.mem_map.mp hx
    refine if_neg ?_
    rintro rfl
    exact hm htext

/-- The commands of a pass turn the known stations into the reported ones. -/
theorem last_intent_pass (known output : TreeSet String) (m : Mac) {expected : Option Bool}
    (h : macText m ∈ known ↔ expected = some true) :
    macText m ∈ output ↔
      (last (intent m) ((DpmAgent.toAssociate known output).map (macAssociateCmd, ·) ++
        (DpmAgent.toDisassociate known output).map (macDisassociateCmd, ·))).or expected =
        some true := by
  have hne : macDisassociateCmd ≠ macAssociateCmd := by decide
  rw [last_append, last_intent, last_intent]
  simp only [DpmAgent.mem_toAssociate, DpmAgent.mem_toDisassociate]
  by_cases hout : macText m ∈ output <;> by_cases hknown : macText m ∈ known <;>
    simp_all

theorem sound_check {v : String} {output : TreeSet String} {s' : State}
    (h : Sound jsonLoads s) (hpass : s.pass = none) (hstations : ListsStations output)
    (hs : s.check v output = some s') : Sound jsonLoads s' := by
  have hprinted (text : String) (htext : text ∈ output) : ∃ m, text = macText m := by
    obtain ⟨m, -, hm⟩ := Option.map_eq_some_iff.mp (hstations text (TreeSet.mem_toList.mpr htext))
    exact ⟨m, hm.symm⟩
  obtain ⟨known, hknown, heq⟩ := Option.bind_eq_some_iff.mp hs
  obtain rfl := Option.some.inj heq
  obtain ⟨current, hworking, hrecorded⟩ := h.recorded
  rw [hpass] at hrecorded
  have hidle (u : String) : ¬Pushing none u := nofun
  refine ⟨⟨current, hworking, ?_, hrecorded.distinct, ?_⟩, ?_⟩
  · intro u
    have hentry := hrecorded.entry u
    exact ⟨hentry.keys, hentry.plain, hentry.printed, fun _ => hentry.agree (hidle u)⟩
  · intro p hp
    obtain rfl := Option.some.inj hp
    refine ⟨hprinted, ?_, ?_⟩
    · intro x hx
      rcases List.mem_append.mp hx with hx | hx
      · obtain ⟨text, htext, rfl⟩ := List.mem_map.mp hx
        exact ⟨.inl rfl, hprinted text (DpmAgent.mem_toAssociate.mp htext).1⟩
      · obtain ⟨text, htext, rfl⟩ := List.mem_map.mp hx
        exact ⟨.inr rfl, (hrecorded.entry v).printed known hknown text
          (DpmAgent.mem_toDisassociate.mp htext).1⟩
    · intro text htext b hb m
      exact last_intent_pass known _ m
        ((hrecorded.entry v).agree (hidle v) known hknown text htext b hb m)
  · intro p hp hpushed
    obtain rfl := Option.some.inj hp
    cases hpushed

theorem sound_pushNext (hj : ReadsStations jsonLoads) {p : Pass}
    {command macAddress : String} {todo : List (String × String)}
    (h : Sound jsonLoads s) (hpass : s.pass = some p)
    (htodo : p.todo = (command, macAddress) :: todo) :
    Sound jsonLoads (s.pushNext p command macAddress todo) := by
  obtain ⟨current, hworking, hrecorded⟩ := h.recorded
  have hp := hrecorded.pass p hpass
  unfold State.pushNext
  split
  · rename_i bssid hbssid
    obtain ⟨hcommand, m₀, rfl⟩ := hp.todo (command, macAddress) (by simp [htodo])
    obtain ⟨hplain, hparse⟩ := (hrecorded.entry p.virtualInterface).plain bssid hbssid
    obtain ⟨b₀, hb₀⟩ := Option.isSome_iff_exists.mp hparse
    have hpushed := outlook_station hj hcommand hplain hb₀ m₀ s current
    refine ⟨⟨current, hworking, ?_, hrecorded.distinct, ?_⟩, fun _ _ _ => .inl (by simp)⟩
    · intro u
      have hentry := hrecorded.entry u
      refine ⟨hentry.keys, hentry.plain, hentry.printed, ?_⟩
      intro hidle known hknown text htext b hb m
      -- the command is for another BSSID than that of this interface
      have hu : u ≠ p.virtualInterface := by
        rintro rfl
        exact hidle ⟨_, rfl, rfl, rfl⟩
      have hne : b₀ ≠ b := by
        rintro rfl
        exact hu (hrecorded.distinct u p.virtualInterface text bssid htext hbssid
          (Eq.trans hb hb₀.symm))
      have hbefore : ¬Pushing s.pass u := by
        rintro ⟨p', hp', rfl, -⟩
        rw [hpass] at hp'
        exact hu (congrArg Pass.virtualInterface (Option.some.inj hp')).symm
      rw [hentry.agree hbefore known hknown text htext b hb m]
      change _ ↔ outlook jsonLoads { s with queue := s.queue ++ _ } current u b m = some true
      rw [hpushed, if_neg hne, Option.none_or]
    · intro p' hp'
      obtain rfl := Option.some.inj hp'
      refine ⟨hp.printed, fun x hx => hp.todo x (by simp [htodo, hx]), ?_⟩
      intro text htext b hb m
      obtain rfl : bssid = text := Option.some.inj (hbssid.symm.trans htext)
      obtain rfl : b₀ = b := Option.some.inj (hb₀.symm.trans hb)
      change macText m ∈ p.output ↔ (last _ todo).or
        (outlook jsonLoads { s with queue := s.queue ++ _ } current p.virtualInterface b₀ m) =
          some true
      rw [hpushed, if_pos rfl, hp.agree bssid hbssid b₀ hb₀ m, htodo, last_cons, Option.or_assoc]
  · exact ⟨⟨current, hworking, hrecorded⟩, h.busy⟩

theorem record_interfaceMac (p : Pass) (u : String) :
    (s.record p).agent.interfaceMac[u]? =
      if p.virtualInterface = u then s.agent.interfaceMac[u]?.map fun _ => p.output
      else s.agent.interfaceMac[u]? := by
  by_cases hmem : p.virtualInterface ∈ s.agent.interfaceMac
  · simp only [State.record, if_pos hmem, TreeMap.getElem?_insert, LawfulEqCmp.compare_eq_iff_eq]
    split_ifs with hu
    · subst hu
      obtain ⟨known, hknown⟩ :=
        Option.isSome_iff_exists.mp (TreeMap.mem_iff_isSome_getElem?.mp hmem)
      rw [hknown]
      rfl
    · rfl
  · simp only [State.record, if_neg hmem]
    split_ifs with hu
    · subst hu
      rw [TreeMap.getElem?_eq_none hmem]
      rfl
    · rfl

theorem record_interfaceBssid (p : Pass) :
    (s.record p).agent.interfaceBssid = s.agent.interfaceBssid := by
  unfold State.record
  split_ifs <;> rfl

theorem sound_record {p : Pass} (h : Sound jsonLoads s) (hpass : s.pass = some p)
    (htodo : p.todo = []) : Sound jsonLoads (s.record p) := by
  obtain ⟨current, hworking, hrecorded⟩ := h.recorded
  have hp := hrecorded.pass p hpass
  refine ⟨⟨current, hworking, ?_, ?_, nofun⟩, nofun⟩
  · intro u
    have hentry := hrecorded.entry u
    rw [record_interfaceMac, record_interfaceBssid]
    split_ifs with hu
    · subst hu
      refine ⟨?_, hentry.plain, ?_, ?_⟩
      · rw [Option.isSome_map]
        exact hentry.keys
      · intro stations hstations
        obtain ⟨-, -, rfl⟩ := Option.map_eq_some_iff.mp hstations
        exact hp.printed
      · intro _ stations hstations text htext b hb m
        obtain ⟨-, -, rfl⟩ := Option.map_eq_some_iff.mp hstations
        have hagree := hp.agree text htext b hb m
        rw [htodo] at hagree
        exact hagree
    · refine ⟨hentry.keys, hentry.plain, hentry.printed, fun _ => hentry.agree ?_⟩
      rintro ⟨p', hp', hv, -⟩
      rw [hpass] at hp'
      obtain rfl := Option.some.inj hp'
      exact hu hv
  · rw [record_interfaceBssid]
    exact hrecorded.distinct

theorem sound_begin {text : String} {rest : List String} (h : Sound jsonLoads s)
    (hrunning : s.running = none) (hqueue : s.queue = text :: rest) :
    Sound jsonLoads
      { s with queue := rest, running := some (parseJson jsonLoads text) } := by
  obtain ⟨current, hworking, hrecorded⟩ := h.recorded
  rw [Working, hrunning] at hworking
  subst hworking
  refine ⟨⟨script (planOf jsonLoads text), ?_, ?_⟩, fun _ _ _ => .inr (by simp)⟩
  · exact ⟨text, ⟨_, .ready⟩, parseJson_settled jsonLoads text, rfl,
      unconcerned_tail jsonLoads text, nofun⟩
  · have hsame : outlook jsonLoads
        { s with queue := rest, running := some (parseJson jsonLoads text) }
        (script (planOf jsonLoads text)) = outlook jsonLoads s [] := by
      funext v b m
      simp only [outlook, hqueue, waiting, List.flatMap_cons, List.nil_append]
    rw [hsame]
    exact hrecorded

theorem sound_finish {code : UInt8} (h : Sound jsonLoads s)
    (hrunning : s.running = some (.ret code))
    (hfaithful : s.queue = [] → ∀ p ∈ s.pass, p.pushed = false) :
    Sound jsonLoads { s with running := none } := by
  obtain ⟨current, hworking, hrecorded⟩ := h.recorded
  rw [Working, hrunning] at hworking
  obtain ⟨text, progress, hsettled, rfl, -⟩ := hworking
  refine ⟨⟨[], rfl, ?_⟩, ?_⟩
  · have hsame : outlook jsonLoads { s with running := none } [] =
        outlook jsonLoads s (pendingOf progress) := by
      funext v b m
      simp only [outlook, lastVerdict_append, lastVerdict_of_unconcerned hsettled]
      rfl
    rw [hsame]
    exact hrecorded
  · intro p hp hpushed
    refine .inl fun hqueue => ?_
    rw [hfaithful hqueue p hp] at hpushed
    cases hpushed

/-- What is recorded depends only on which stations are to be associated, with the BSSIDs
that are registered. -/
theorem Recorded.congr_outlook {before : String → Mac → Mac → Option Bool}
    (h : Recorded before agent pass)
    (hsame : ∀ (v text : String) (b m : Mac), agent.interfaceBssid[v]? = some text →
      parseMac text = some b → (before v b m = some true ↔ outlook' v b m = some true)) :
    Recorded outlook' agent pass := by
  refine ⟨?_, h.distinct, ?_⟩
  · intro v
    have hentry := h.entry v
    refine ⟨hentry.keys, hentry.plain, hentry.printed, ?_⟩
    intro hidle known hknown text htext b hb m
    rw [hentry.agree hidle known hknown text htext b hb m]
    exact hsame v text b m htext hb
  · intro p hp
    obtain ⟨hprinted, htodo, hagree⟩ := h.pass p hp
    refine ⟨hprinted, htodo, ?_⟩
    intro text htext b hb m
    have hiff := hsame p.virtualInterface text b m htext hb
    rw [hagree text htext b hb m]
    cases last (intent m) p.todo with
    | none => exact hiff
    | some x => exact Iff.rfl

/-- An answer makes no difference to which stations are to be associated. -/
theorem outlook_hear {q : Request} {remaining : List Request} {reply : TimedReply}
    (hsent : s.lastSent.bind ControlPacket.request = some q) (hlater : Unconcerned remaining)
    (hgood : GoodAnswer jsonLoads s reply) {v text : String} {b : Mac} (m : Mac)
    (htext : s.agent.interfaceBssid[v]? = some text) (hb : parseMac text = some b) :
    outlook jsonLoads s (q :: remaining) v b m = some true ↔
      outlook jsonLoads (s.hear reply)
        (pendingOf ⟨remaining, if q.Confirmed reply then .ready else .refused⟩) v b m =
          some true := by
  simp only [State.hear, hsent]
  split_ifs with hconfirmed
  · simp only [outlook, pendingOf, since_confirmed, List.append_assoc, List.cons_append,
      List.nil_append]
  · simp only [outlook, pendingOf, List.nil_append, lastVerdict_append]
    have hlast : lastVerdict b m (q :: remaining) = verdict b m q := by
      rw [lastVerdict, last_cons]
      exact congrArg (Option.or · _) (lastVerdict_of_unconcerned hlater b m)
    rw [hlast]
    by_cases hq : station q = some (b, m)
    · have hentry : (v, text) ∈ s.agent.interfaceBssid.toList :=
        TreeMap.mem_toList_iff_getElem?_eq_some.mpr htext
      obtain ⟨x, hx⟩ : ∃ x, verdict b m q = some x := by
        rw [verdict.eq_def, if_pos hq]
        split <;> exact ⟨_, rfl⟩
      rcases hgood q hsent (b, m) hq (v, text) hentry hb with h | h | h
      · exact (hconfirmed h).elim
      · -- a later command for the station is waiting
        obtain ⟨y, hy⟩ := Option.ne_none_iff_exists'.mp h
        change lastVerdict b m _ = some y at hy
        rw [hy]
        rfl
      · change lastVerdict b m (since v s.log) = _ ↔ verdict b m q = some true at h
        rw [hx] at h ⊢
        cases lastVerdict b m (waiting jsonLoads s.queue) with
        | none => exact h.symm
        | some y => exact Iff.rfl
    · rw [show verdict b m q = none from if_neg hq, Option.or_none]

theorem hear_eq (reply : TimedReply) : ∃ log, s.hear reply = { s with log := log } := by
  unfold State.hear
  split
  · split_ifs
    · exact ⟨_, rfl⟩
    · exact ⟨_, rfl⟩
  · exact ⟨_, rfl⟩

theorem Recorded.congr_agent {agent' : DpmAgent} (h : Recorded outlook' agent pass)
    (hmac : ∀ u : String, agent'.interfaceMac[u]? = agent.interfaceMac[u]?)
    (hbssid : ∀ u : String, agent'.interfaceBssid[u]? = agent.interfaceBssid[u]?) :
    Recorded outlook' agent' pass := by
  refine ⟨?_, ?_, ?_⟩
  · intro v
    rw [hmac, hbssid]
    exact h.entry v
  · intro u v text text'
    rw [hbssid, hbssid]
    exact h.distinct u v text text'
  · intro p hp
    rw [hbssid]
    exact h.pass p hp

theorem Recorded.mem_iff (h : Recorded outlook' agent pass) (v : String) :
    v ∈ agent.interfaceMac ↔ v ∈ agent.interfaceBssid := by
  rw [TreeMap.mem_iff_isSome_getElem?, TreeMap.mem_iff_isSome_getElem?, (h.entry v).keys]

/-- An interface that is registered again keeps its entries. -/
theorem Recorded.register_known (h : Recorded outlook' agent pass) {v : String}
    (hv : v ∈ agent.interfaceMac) (text : String) :
    Recorded outlook' (agent.register v text) pass := by
  apply h.congr_agent
  · intro u
    rw [DpmAgent.register, if_pos ((h.mem_iff v).mp hv)]
    change (agent.interfaceMac.insertIfNew v ∅)[u]? = _
    rw [TreeMap.getElem?_insertIfNew, if_neg]
    exact fun hc => hc.2 hv
  · intro u
    rw [DpmAgent.register, if_pos ((h.mem_iff v).mp hv)]

theorem register_interfaceMac {v : String} (hv : v ∉ agent.interfaceBssid)
    (hv' : v ∉ agent.interfaceMac) (text u : String) :
    (agent.register v text).interfaceMac[u]? =
      if v = u then some ∅ else agent.interfaceMac[u]? := by
  rw [DpmAgent.register, if_neg hv]
  change (agent.interfaceMac.insertIfNew v ∅)[u]? = _
  simp only [TreeMap.getElem?_insertIfNew, LawfulEqCmp.compare_eq_iff_eq, hv', not_false_eq_true,
    and_true]

theorem register_interfaceBssid {v : String} (hv : v ∉ agent.interfaceBssid) (text u : String) :
    (agent.register v text).interfaceBssid[u]? =
      if v = u then some text else agent.interfaceBssid[u]? := by
  rw [DpmAgent.register, if_neg hv]
  change (agent.interfaceBssid.insertIfNew v text)[u]? = _
  simp only [TreeMap.getElem?_insertIfNew, LawfulEqCmp.compare_eq_iff_eq, hv, not_false_eq_true,
    and_true]

/-- A new interface has no station, and is to have none. -/
theorem Recorded.register_new {before : String → Mac → Mac → Option Bool} {v text : String}
    {b : Mac} (h : Recorded before agent pass) (hv : v ∉ agent.interfaceMac)
    (hplain : JsonPlain text) (hb : parseMac text = some b)
    (hfresh : ∀ u t : String, agent.interfaceBssid[u]? = some t → parseMac t ≠ parseMac text)
    (hpass : ∀ p ∈ pass, p.virtualInterface ≠ v) (hother : ∀ u, u ≠ v → outlook' u = before u)
    (hnone : ∀ m, outlook' v b m ≠ some true) :
    Recorded outlook' (agent.register v text) pass := by
  have hv' : v ∉ agent.interfaceBssid := fun hmem => hv ((h.mem_iff v).mpr hmem)
  refine ⟨?_, ?_, ?_⟩
  · intro u
    rw [register_interfaceMac hv' hv, register_interfaceBssid hv']
    split_ifs with hu
    · subst hu
      refine ⟨rfl, ?_, ?_, ?_⟩
      · intro t ht
        obtain rfl := Option.some.inj ht
        exact ⟨hplain, by rw [hb]; rfl⟩
      · intro stations hstations t ht
        obtain rfl := Option.some.inj hstations
        simp at ht
      · intro _ stations hstations t ht b' hb' m
        obtain rfl := Option.some.inj hstations
        obtain rfl := Option.some.inj ht
        obtain rfl : b = b' := Option.some.inj (hb.symm.trans hb')
        simp [hnone m]
    · rw [hother u (Ne.symm hu)]
      exact h.entry u
  · intro u u' t t' ht ht' heq
    rw [register_interfaceBssid hv'] at ht ht'
    split_ifs at ht ht' with hu hu'
    · exact hu.symm.trans hu'
    · obtain rfl := Option.some.inj ht
      exact (hfresh u' t' ht' heq.symm).elim
    · obtain rfl := Option.some.inj ht'
      exact (hfresh u t ht heq).elim
    · exact h.distinct u u' t t' ht ht' heq
  · intro p hp
    rw [register_interfaceBssid hv', if_neg (hpass p hp).symm, hother _ (hpass p hp)]
    exact h.pass p hp

theorem Recorded.unregister (h : Recorded outlook' agent pass) (v : String) :
    Recorded outlook' (agent.unregister v).agent pass := by
  cases hmac : agent.interfaceMac[v]? with
  | none => simpa only [DpmAgent.unregister, hmac] using h
  | some stations =>
    have hkeys := (h.entry v).keys
    rw [hmac] at hkeys
    obtain ⟨bssid, hbssid⟩ := Option.isSome_iff_exists.mp hkeys.symm
    simp only [DpmAgent.unregister, hmac, hbssid]
    refine ⟨?_, ?_, ?_⟩
    · intro u
      simp only [TreeMap.getElem?_erase, LawfulEqCmp.compare_eq_iff_eq]
      split_ifs
      · exact ⟨rfl, by simp, by simp, by simp⟩
      · exact h.entry u
    · intro u u' t t' ht ht' heq
      simp only [TreeMap.getElem?_erase, LawfulEqCmp.compare_eq_iff_eq] at ht ht'
      split_ifs at ht ht'
      exact h.distinct u u' t t' ht ht' heq
    · intro p hp
      obtain ⟨hprinted, htodo, hagree⟩ := h.pass p hp
      refine ⟨hprinted, htodo, ?_⟩
      intro text htext
      simp only [TreeMap.getElem?_erase, LawfulEqCmp.compare_eq_iff_eq] at htext
      split_ifs at htext
      · cases htext
      · exact hagree text htext

/-- A completed radio-set whose interface is registered already. -/
theorem recorded_add_known {getInterfaceName : String → String} {text : String}
    (h : Recorded (outlook jsonLoads s []) s.agent s.pass)
    (hv : getInterfaceName text ∈ s.agent.interfaceMac) :
    Recorded (outlook jsonLoads (s.updateBssids getInterfaceName .bssidAdd text) [])
      (s.agent.register (getInterfaceName text) text) s.pass := by
  have hlog : (s.updateBssids getInterfaceName .bssidAdd text).log = s.log :=
    if_neg fun hc => hc.2 hv
  have hsame : outlook jsonLoads (s.updateBssids getInterfaceName .bssidAdd text) [] =
      outlook jsonLoads s [] := by
    funext v b m
    rw [outlook, hlog]
    rfl
  rw [hsame]
  exact h.register_known hv text

/-- A completed radio-set of a new interface: from now on other confirmations count. -/
theorem recorded_add_new {getInterfaceName : String → String} {text : String} {b : Mac}
    (h : Recorded (outlook jsonLoads s []) s.agent s.pass) (hb : parseMac text = some b)
    (hv : getInterfaceName text ∉ s.agent.interfaceMac)
    (hfresh : FreshBssid jsonLoads s (getInterfaceName text) text) :
    Recorded (outlook jsonLoads (s.updateBssids getInterfaceName .bssidAdd text) [])
      (s.agent.register (getInterfaceName text) text) s.pass := by
  obtain ⟨hplain, hothers, hpass, hwaiting⟩ := hfresh
  have hlog : (s.updateBssids getInterfaceName .bssidAdd text).log =
      s.log ++ [.registered (getInterfaceName text)] := if_pos ⟨rfl, hv⟩
  have houtlook (v : String) (b m : Mac) :
      outlook jsonLoads (s.updateBssids getInterfaceName .bssidAdd text) [] v b m =
        lastVerdict b m ((if getInterfaceName text = v then [] else since v s.log) ++
          waiting jsonLoads s.queue) := by
    rw [outlook, hlog, since_registered, List.nil_append]
    rfl
  apply h.register_new hv hplain hb ?_ hpass
  · intro u hu
    funext b m
    rw [houtlook, if_neg hu.symm, outlook, List.nil_append]
  · intro m hm
    rw [houtlook, if_pos rfl, List.nil_append] at hm
    -- the command that decides is for this station
    obtain ⟨q, hq, hverdict⟩ := exists_of_last_eq_some hm
    have hstation : station q = some (b, m) := by
      by_contra hne
      rw [show verdict b m q = none from if_neg hne] at hverdict
      cases hverdict
    exact hwaiting (b, m) (List.mem_filterMap.mpr ⟨q, hq, hstation⟩) hb hm
  · intro u t ht
    exact hothers (u, t) (TreeMap.mem_toList_iff_getElem?_eq_some.mpr ht)

/-- The last update of a command. -/
theorem recorded_update {root : Json} {P : Plan} {getInterfaceName : String → String}
    (h : Recorded (outlook jsonLoads s []) s.agent s.pass) (hP : plan root = some P)
    (hfresh : P.op = .bssidAdd → getInterfaceName P.text ∉ s.agent.interfaceMac →
      FreshBssid jsonLoads s (getInterfaceName P.text) P.text) :
    Recorded (outlook jsonLoads (s.updateBssids getInterfaceName P.op P.text) [])
      (s.updateBssids getInterfaceName P.op P.text).agent
      (s.updateBssids getInterfaceName P.op P.text).pass := by
  rcases StaleAssociation.plan_cases hP with
    ⟨b, hb, hop, -⟩ | ⟨b, -, hop, -⟩ | ⟨-, hop, -⟩ | ⟨-, hop, -⟩
  · have hfresh := hfresh hop
    rw [hop]
    by_cases hv : getInterfaceName P.text ∈ s.agent.interfaceMac
    · exact recorded_add_known h hv
    · exact recorded_add_new h hb hv (hfresh hv)
  · rw [hop]
    exact h.unregister _
  · rw [hop]
    exact h
  · rw [hop]
    exact h

theorem sound_running {p : Relay UInt8} {text : String} {progress : Progress}
    (hrunning : s.running = some p)
    (hobeys : Obeys (monitor (planOf jsonLoads text)) Settled progress p)
    (hlater : Unconcerned (laterOf progress))
    (hsent : ∀ q, progress.phase = .awaiting q →
      s.lastSent.bind ControlPacket.request = some q)
    (hrecorded : Recorded (outlook jsonLoads s (pendingOf progress)) s.agent s.pass) :
    Sound jsonLoads s := by
  refine ⟨⟨pendingOf progress, ?_, hrecorded⟩, fun _ _ _ => .inr ?_⟩
  · rw [Working, hrunning]
    exact ⟨text, progress, hobeys, rfl, hlater, hsent⟩
  · rw [hrunning]
    exact nofun

theorem sound_call {c : Call} {k : Reply c → Relay UInt8} {reply : TimedReply}
    {getInterfaceName : String → String} (h : Sound jsonLoads s)
    (hrunning : s.running = some (.call c k))
    (hfaithful : Faithful jsonLoads s (.call reply getInterfaceName)) :
    Sound jsonLoads
      { (s.handle reply getInterfaceName c).2 with
        running := some (k (s.handle reply getInterfaceName c).1) } := by
  obtain ⟨current, hworking, hrecorded⟩ := h.recorded
  rw [Working, hrunning] at hworking
  obtain ⟨text, progress, ⟨next, hM, hk⟩, rfl, hlater, hsent⟩ := hworking
  have hfaithful := hfaithful c (by rw [hrunning]; rfl)
  cases c with
  | setMessage message =>
    have hk := hk ()
    rw [(monitor_setMessage hM).2] at hk
    exact sound_running rfl hk hlater hsent hrecorded
  | sync op packet =>
    obtain ⟨q, remaining, rfl, rfl, hq, hnext⟩ := monitor_sync hM
    have hk := hk ()
    rw [hnext] at hk
    refine sound_running rfl hk hlater ?_ hrecorded
    intro q' hq'
    obtain rfl := Phase.awaiting.inj hq'
    change ((warpSync q.sendOp packet).getLast?.or s.lastSent).bind _ = _
    rw [warpSync_sendOp]
    exact hq
  | timedSync op limit =>
    obtain ⟨q, remaining, rfl, rfl, -, hnext⟩ := monitor_timedSync hM
    change Unconcerned remaining at hlater
    have hk := hk reply
    rw [hnext] at hk
    refine sound_running rfl hk ?_ ?_ ?_
    · split_ifs
      · exact fun q' hq' => hlater q' (List.mem_of_mem_tail hq')
      · exact hlater
    · intro q' hq'
      split_ifs at hq'
    · have hheard := hrecorded.congr_outlook fun v t b m ht hb =>
        outlook_hear (hsent q rfl) hlater hfaithful m ht hb
      obtain ⟨log, hlog⟩ := hear_eq (s := s) reply
      change Recorded (outlook jsonLoads (s.hear reply) _) (s.hear reply).agent
        (s.hear reply).pass
      rw [hlog] at hheard ⊢
      exact hheard
  | updateBssids op t =>
    obtain ⟨P, hP, rfl, rfl, rfl, hnext⟩ := monitor_updateBssids hM
    obtain ⟨root, -, hplan⟩ := Option.bind_eq_some_iff.mp hP
    have hk := hk ()
    rw [hnext] at hk
    exact sound_running rfl hk nofun nofun (recorded_update hrecorded hplan hfaithful)

theorem sound_step (hj : ReadsStations jsonLoads) {l : Label} {s' : State}
    (h : Sound jsonLoads s) (hfaithful : Faithful jsonLoads s l)
    (hs : (relay jsonLoads).step s l = some s') : Sound jsonLoads s' := by
  change step jsonLoads s l = some s' at hs
  unfold step at hs
  obtain ⟨-, hs⟩ := Option.ite_none_left_eq_some.mp hs
  cases l with
  | push text =>
    obtain rfl := Option.some.inj hs
    exact sound_push h hfaithful
  | check v output =>
    obtain ⟨hpass, hs⟩ := Option.ite_none_left_eq_some.mp hs
    exact sound_check h (by simpa using hpass) hfaithful hs
  | pushNext =>
    dsimp only at hs
    split at hs
    · rename_i p hpass
      split at hs
      · rename_i command macAddress todo htodo
        obtain rfl := Option.some.inj hs
        exact sound_pushNext hj h hpass htodo
      · cases hs
    · cases hs
  | record =>
    dsimp only at hs
    split at hs
    · rename_i p hpass
      obtain ⟨htodo, heq⟩ := Option.ite_none_right_eq_some.mp hs
      obtain rfl := Option.some.inj heq
      exact sound_record h hpass htodo
    · cases hs
  | begin =>
    dsimp only at hs
    split at hs
    · rename_i text rest hrunning hqueue
      obtain rfl := Option.some.inj hs
      exact sound_begin h hrunning hqueue
    · cases hs
  | call reply getInterfaceName =>
    dsimp only at hs
    split at hs
    · rename_i c k hrunning
      obtain rfl := Option.some.inj hs
      exact sound_call h hrunning hfaithful
    · cases hs
  | finish =>
    dsimp only at hs
    split at hs
    · rename_i code hrunning
      obtain rfl := Option.some.inj hs
      exact sound_finish h hrunning hfaithful
    · cases hs

theorem sound_init : Sound jsonLoads (relay jsonLoads).init := by
  refine ⟨⟨[], rfl, ?_, ?_, nofun⟩, nofun⟩
  · intro v
    refine ⟨?_, ?_, ?_, ?_⟩ <;> simp [relay]
  · intro u v text text' h
    simp [relay] at h

/-- In every run of polls, commands and answers whose steps are all faithful: where the queue
is empty and no command is being processed, the stations recorded for each interface are
those that WARP has confirmed. -/
theorem recorded_stations_confirmed (hj : ReadsStations jsonLoads)
    (h : (relay jsonLoads).ReachableIf (Faithful jsonLoads) s) (hq : Quiescent s) :
    Agrees s := by
  have hsound : Sound jsonLoads s := by
    apply h.invariant (I := Sound jsonLoads) sound_init
    intro s l s' hi hfaithful hs
    exact sound_step hj hi hfaithful hs
  exact hsound.agrees hq

end

open StaleAssociation (bssid0 radioSetText readCommand readCommand_reads wlan0)

def station9 : Mac := Datapath.stationMac

def oneAssociation (reply : TimedReply) : List Label :=
  [.push radioSetText, .begin, .call ⟨0, 0⟩ wlan0, .call ⟨0, macAddCode⟩ wlan0,
    .call ⟨0, 0⟩ wlan0, .call ⟨0, transmissionConfigureSuccessCode⟩ wlan0,
    .call ⟨0, 0⟩ wlan0, .call ⟨0, 0⟩ wlan0, .finish,
    .check "wlan0" ((∅ : TreeSet String).insert (macText station9)), .pushNext, .record,
    .begin, .call ⟨0, 0⟩ wlan0, .call reply wlan0]

def restsWithStation (s : State) : Bool :=
  s.queue.isEmpty && s.running.isNone &&
    s.agent.interfaceMac["wlan0"]?.any (·.contains (macText station9))

theorem restsWithStation_iff {s : State} : restsWithStation s = true ↔
    Quiescent s ∧ ∃ known, s.agent.interfaceMac["wlan0"]? = some known ∧
      macText station9 ∈ known := by
  simp only [restsWithStation, Bool.and_eq_true, List.isEmpty_iff, Option.isNone_iff_eq_none,
    Option.any_eq_true, TreeSet.contains_iff_mem, Quiescent]

/-- The association is confirmed. -/
theorem recorded_station_confirmed :
    ∃ s, (relay readCommand).ReachableIf (Faithful readCommand) s ∧ Quiescent s ∧ Agrees s ∧
      ∃ known, s.agent.interfaceMac["wlan0"]? = some known ∧ macText station9 ∈ known := by
  obtain ⟨s, hreach, hs⟩ := Machine.exists_reachableIf
    (M := relay readCommand) (C := Faithful readCommand) (P := restsWithStation)
    (oneAssociation ⟨0, bssidStationAssociateCode⟩ ++ [.call ⟨0, 0⟩ wlan0, .finish])
    (by decide +kernel)
  obtain ⟨hq, hknown⟩ := restsWithStation_iff.mp hs
  exact ⟨s, hreach, hq, recorded_stations_confirmed readCommand_reads hreach hq, hknown⟩

/-- The association is refused, and the station stays recorded. -/
theorem refused_station_recorded :
    ¬∀ jsonLoads : String → Option Json, ReadsStations jsonLoads →
      ∀ s, (relay jsonLoads).Reachable s → Quiescent s → Agrees s := by
  intro h
  obtain ⟨s, hreach, hs⟩ := Machine.exists_reachableIf
    (M := relay readCommand) (C := fun _ _ => True)
    (P := fun s => restsWithStation s &&
      (s.agent.interfaceBssid["wlan0"]? == some "02:00:00:00:00:00" &&
        !decide (Associated s.log "wlan0" bssid0 station9)))
    (oneAssociation ⟨-1, 0⟩ ++ [.finish]) (by decide +kernel)
  simp only [Bool.and_eq_true, Bool.not_eq_true', beq_iff_eq, decide_eq_false_iff_not] at hs
  obtain ⟨hrests, hbssid, hnot⟩ := hs
  obtain ⟨hq, known, hknown, hmem⟩ := restsWithStation_iff.mp hrests
  have hagrees := h _ readCommand_reads s hreach hq
  have hparse : parseMac "02:00:00:00:00:00" = some bssid0 := by decide
  obtain ⟨m, hm, hassociated⟩ := (hagrees "wlan0" _ known _ hknown hbssid hparse _).mp hmem
  rw [← macText_injective hm] at hassociated
  exact hnot hassociated

end AuroraRelay.ConfirmedStations
