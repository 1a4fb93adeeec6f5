import AuroraRelay.Lib.LastMark
import AuroraRelay.Lib.Transition
import AuroraRelay.Execution

/-!
# Associations and deleted BSSIDs

The controller pushes radio-sets and deletes, `timed_check` pushes station commands behind
them, and `parse_loop` works the queue off.  A pass of `timed_check` looks at the interfaces
that are registered now; a delete that is still waiting in front of its commands makes them
stale.
-/

namespace AuroraRelay.StaleAssociation
open CommsAgent Datapath LastMark Std Transition WarpProtocol

def mark (b : Mac) (op : NodeOp) (text : String) : Option Bool :=
  if parseMac text = some b then
    match op with
    | .bssidAdd => some true
    | .bssidRemove => some false
    | _ => none
  else none

def occurrenceMark (b : Mac) : Occurrence → Option Bool
  | .packet _ => none
  | .update op text => mark b op text

def configured (history : List Occurrence) (b : Mac) : Bool :=
  (history.filterMap (occurrenceMark b)).getLast?.getD false

/-- Every association was asked for a BSSID that was configured at that moment. -/
def AssociationsConfigured (history : List Occurrence) : Prop :=
  ∀ before packet after b, history = before ++ .packet packet :: after →
    associates packet = some b → configured before b = true

structure State where
  queue : List String
  world : World

inductive Label
  | push (text : String)
  | check (virtualInterface : String) (output : TreeSet String)
  | parse (getInterfaceName : String → String)

def isControl (root : Json) : Bool :=
  match objectGet root jsonCommand with
  | some (.string command) =>
    command ∈ [radioSetCmd, radioBulkSetCmd, uciDeleteSection, uciDeleteBss]
  | _ => false

section
variable (jsonLoads : String → Option Json) (warp : List Occurrence → TimedReply)
  (newPort : Bridge → String → Option ℕ) (ofctl : Ofctl)

def step (s : State) (l : Label) : Option State :=
  if s.world.terminated then none
  else
    match l with
    | .push text =>
      if (jsonLoads text).any isControl then some { s with queue := s.queue ++ [text] } else none
    | .check virtualInterface output => do
      let (agent, texts) ← s.world.agent.checkInterface virtualInterface output
      return ⟨s.queue ++ texts, { s.world with agent := agent }⟩
    | .parse getInterfaceName =>
      match s.queue with
      | [] => none
      | text :: rest =>
        some ⟨rest, s.world.after ⟨warp, getInterfaceName, newPort, ofctl⟩
          (parseJson jsonLoads text)⟩

def relay : Machine State Label where
  init := ⟨[], freshWorld⟩
  step := step jsonLoads warp newPort ofctl

def commandMark (b : Mac) (text : String) : Option Bool :=
  (completionOf jsonLoads text).bind fun P => mark b P.op P.text

def pending (queue : List String) (b : Mac) : Option Bool :=
  (queue.filterMap (commandMark jsonLoads b)).getLast?

/-- A pass with a new station finds no delete of its BSSID waiting, unless a radio-set of it
is waiting behind that.  Its texts are such that JSON takes them as they are. -/
def TimelyPass (queue : List String) (known output : TreeSet String) (text : String) : Prop :=
  JsonPlain text ∧ (∀ station ∈ output.toList ++ known.toList, JsonPlain station) ∧
    ((∃ station ∈ output.toList, station ∉ known) →
      (parseMac text).bind (pending jsonLoads queue) ≠ some false)

instance (queue : List String) (known output : TreeSet String) (text : String) :
    Decidable (TimelyPass jsonLoads queue known output text) :=
  inferInstanceAs (Decidable (_ ∧ _ ∧ (_ → _)))

/-- A delete is carried out on the one interface that is registered for its BSSID. -/
def DeletesAll (agent : DpmAgent) (getInterfaceName : String → String) (P : Plan) : Prop :=
  P.op = .bssidRemove → ∀ entry ∈ agent.interfaceBssid.toList,
    parseMac entry.2 = parseMac P.text → entry.1 = getInterfaceName P.text

instance (agent : DpmAgent) (getInterfaceName : String → String) (P : Plan) :
    Decidable (DeletesAll agent getInterfaceName P) :=
  inferInstanceAs (Decidable (_ → ∀ entry ∈ agent.interfaceBssid.toList, _))

def Orderly (s : State) : Label → Prop
  | .push _ => True
  | .check virtualInterface output =>
    ∀ known ∈ s.world.agent.interfaceMac[virtualInterface]?,
      ∀ text ∈ s.world.agent.interfaceBssid[virtualInterface]?,
        TimelyPass jsonLoads s.queue known output text
  | .parse getInterfaceName =>
    ∀ P ∈ s.queue.head?.bind (completionOf jsonLoads),
      DeletesAll s.world.agent getInterfaceName P

instance (s : State) : (l : Label) → Decidable (Orderly jsonLoads s l)
  | .push _ => inferInstanceAs (Decidable True)
  | .check virtualInterface output => inferInstanceAs (Decidable
      (∀ known ∈ s.world.agent.interfaceMac[virtualInterface]?,
        ∀ text ∈ s.world.agent.interfaceBssid[virtualInterface]?,
          TimelyPass jsonLoads s.queue known output text))
  | .parse getInterfaceName => inferInstanceAs (Decidable
      (∀ P ∈ s.queue.head?.bind (completionOf jsonLoads),
        DeletesAll s.world.agent getInterfaceName P))

end

section
variable {jsonLoads : String → Option Json} {history : List Occurrence} {b : Mac}

theorem configured_packets (packets : List ControlPacket) :
    configured (history ++ packets.map .packet) b = configured history b := by
  have hunmarked : ∀ o ∈ packets.map Occurrence.packet, occurrenceMark b o = none := by
    simp [occurrenceMark]
  change (last (occurrenceMark b) (history ++ packets.map .packet)).getD false = _
  rw [last_append, last_of_unmarked hunmarked, Option.none_or]
  rfl

theorem configured_update (op : NodeOp) (text : String) :
    configured (history ++ [.update op text]) b =
      (mark b op text).getD (configured history b) := by
  change (last (occurrenceMark b) (history ++ [.update op text])).getD false = _
  rw [last_append, last_cons, Option.getD_or]
  rfl

/-- The first waiting command says something only if none of the later ones does. -/
theorem pending_cons (text : String) (queue : List String) (c : Bool) :
    (pending jsonLoads (text :: queue) b).getD c =
      (pending jsonLoads queue b).getD ((commandMark jsonLoads b text).getD c) := by
  change (last (commandMark jsonLoads b) (text :: queue)).getD c = _
  rw [last_cons, Option.getD_or]
  rfl

end

/-- The waiting associations will find their BSSIDs configured: `c` says which are
configured when the first command of the queue is parsed. -/
def QueueSound (jsonLoads : String → Option Json) : (Mac → Bool) → List String → Prop
  | _, [] => True
  | c, text :: queue =>
    (∀ P b m, completionOf jsonLoads text = some P → .associate b m ∈ P.requests → c b = true) ∧
      QueueSound jsonLoads (fun b => (commandMark jsonLoads b text).getD (c b)) queue

def RegisteredConfigured (w : World) : Prop :=
  ∀ (v text : String), w.agent.interfaceBssid[v]? = some text →
    ∃ b, parseMac text = some b ∧ configured w.history b = true

structure Sound (jsonLoads : String → Option Json) (s : State) : Prop where
  associations : AssociationsConfigured s.world.history
  queue : QueueSound jsonLoads (configured s.world.history) s.queue
  registered : s.world.terminated = false → RegisteredConfigured s.world

section
variable {jsonLoads : String → Option Json} {s s' : State}

/-- Commands pushed behind a queue find what the queue leaves. -/
theorem queueSound_append {c : Mac → Bool} {queue more : List String}
    (h : QueueSound jsonLoads c queue)
    (hmore : QueueSound jsonLoads (fun b => (pending jsonLoads queue b).getD (c b)) more) :
    QueueSound jsonLoads c (queue ++ more) := by
  induction queue generalizing c with
  | nil => exact hmore
  | cons text queue ih =>
    simp only [pending_cons] at hmore
    exact ⟨h.1, ih h.2 hmore⟩

/-- Commands that change no configuration. -/
theorem queueSound_of_forall {c : Mac → Bool} {queue : List String}
    (hmark : ∀ text ∈ queue, ∀ b, commandMark jsonLoads b text = none)
    (hsound : ∀ text ∈ queue, ∀ P b m, completionOf jsonLoads text = some P →
      .associate b m ∈ P.requests → c b = true) : QueueSound jsonLoads c queue := by
  induction queue with
  | nil => trivial
  | cons text queue ih =>
    refine ⟨hsound text (by simp), ?_⟩
    simp only [hmark text (by simp), Option.getD_none]
    exact ih (fun t ht => hmark t (by simp [ht])) fun t ht => hsound t (by simp [ht])

theorem parseMac_of_addressOf {root : Json} {key text : String} {b : Mac}
    (h : addressOf root key = some (text, b)) : parseMac text = some b := by
  unfold addressOf at h
  split at h
  · obtain ⟨a, ha, heq⟩ := Option.map_eq_some_iff.mp h
    obtain ⟨rfl, rfl⟩ := Prod.mk.inj heq
    exact ha
  · cases h

/-- The scripts there are. -/
theorem plan_cases {root : Json} {P : Plan} (h : plan root = some P) :
    (∃ b, parseMac P.text = some b ∧ P.op = .bssidAdd ∧
      P.requests = [.macAdd b, .transmissionControl b]) ∨
    (∃ b, parseMac P.text = some b ∧ P.op = .bssidRemove ∧
      P.requests = [.stationClear b, .macRemove b]) ∨
    (isControl root = false ∧ P.op = .bssidMacAssociate ∧
      ∃ b m, P.requests = [.associate b m]) ∨
    (isControl root = false ∧ P.op = .bssidMacDisassociate ∧
      ∃ b m, P.requests = [.disassociate b m]) := by
  obtain ⟨command, hc, ⟨x, hx, ⟨-, rfl⟩ | ⟨-, rfl⟩⟩ | ⟨x, y, -, -, ⟨rfl, rfl⟩ | ⟨rfl, rfl⟩⟩⟩ :=
    plan_inversion h
  · exact .inl ⟨x.2, parseMac_of_addressOf hx, rfl, rfl⟩
  · exact .inr (.inl ⟨x.2, parseMac_of_addressOf hx, rfl, rfl⟩)
  · refine .inr (.inr (.inl ⟨?_, rfl, x.2, y.2, rfl⟩))
    simp only [isControl, hc]
    decide
  · refine .inr (.inr (.inr ⟨?_, rfl, x.2, y.2, rfl⟩))
    simp only [isControl, hc]
    decide

theorem plan_of_completion {root : Json} {P : Plan} (h : completion root = some P) :
    plan root = some P := by
  unfold completion at h
  split_ifs at h
  exact h

/-- The commands of the controller ask for no association. -/
theorem control_no_association {text : String} {P : Plan}
    (hc : (jsonLoads text).any isControl = true) (hP : completionOf jsonLoads text = some P)
    (b m : Mac) : .associate b m ∉ P.requests := by
  obtain ⟨root, hroot, hP⟩ := Option.bind_eq_some_iff.mp hP
  rw [hroot] at hc
  change isControl root = true at hc
  rcases plan_cases (plan_of_completion hP) with
    ⟨_, -, -, h⟩ | ⟨_, -, -, h⟩ | ⟨hfalse, -⟩ | ⟨-, -, _, _, h⟩
  · simp [h]
  · simp [h]
  · rw [hfalse] at hc
    cases hc
  · simp [h]

theorem sound_push {text : String} (h : Sound jsonLoads s)
    (hc : (jsonLoads text).any isControl = true) :
    Sound jsonLoads { s with queue := s.queue ++ [text] } := by
  refine ⟨h.associations, queueSound_append h.queue ⟨?_, trivial⟩, h.registered⟩
  intro P b m hP hmem
  exact absurd hmem (control_no_association hc hP b m)

/-- The text of a station command: it changes no configuration and asks for the BSSID of the
interface. -/
theorem station_text (op : StationOp) (hj : ReadsStations jsonLoads) {bssid station : String}
    (hb : JsonPlain bssid) (hs : JsonPlain station) {P : Plan}
    (hP : completionOf jsonLoads (DpmAgent.stationText op.command bssid station) = some P) :
    P.op = op.nodeOp ∧ ∃ b m, parseMac bssid = some b ∧ P.requests = [op.request b m] := by
  rw [completionOf_station op hj hb hs] at hP
  obtain ⟨b, hparse, hP⟩ := Option.bind_eq_some_iff.mp hP
  obtain ⟨m, -, rfl⟩ := Option.map_eq_some_iff.mp hP
  exact ⟨rfl, b, m, hparse, rfl⟩

/-- Only the two commands of the controller leave a mark. -/
theorem commandMark_eq_none {text : String}
    (h : ∀ P, completionOf jsonLoads text = some P → P.op ≠ .bssidAdd ∧ P.op ≠ .bssidRemove)
    (b : Mac) : commandMark jsonLoads b text = none := by
  unfold commandMark
  cases hP : completionOf jsonLoads text with
  | none => rfl
  | some P =>
    obtain ⟨hadd, hremove⟩ := h P hP
    simp only [Option.bind_some, mark]
    split_ifs <;> rfl

/-- Every text of a pass is one of the two commands, for a station that is new or gone. -/
theorem pass_text_cases (hj : ReadsStations jsonLoads) {known output : TreeSet String}
    {bssid text : String} (hb : JsonPlain bssid)
    (hplain : ∀ station ∈ output.toList ++ known.toList, JsonPlain station)
    (ht : text ∈ (DpmAgent.toAssociate known output).map
        (DpmAgent.stationText macAssociateCmd bssid) ++
      (DpmAgent.toDisassociate known output).map
        (DpmAgent.stationText macDisassociateCmd bssid))
    {P : Plan} (hP : completionOf jsonLoads text = some P) :
    (P.op = .bssidMacAssociate ∧ (∃ station ∈ output.toList, station ∉ known) ∧
      ∃ b m, parseMac bssid = some b ∧ P.requests = [.associate b m]) ∨
    (P.op = .bssidMacDisassociate ∧ ∃ b m, P.requests = [.disassociate b m]) := by
  rcases List.mem_append.mp ht with ht | ht
  · obtain ⟨station, hs, rfl⟩ := List.mem_map.mp ht
    obtain ⟨hout, hnew⟩ := DpmAgent.mem_toAssociate.mp hs
    have hout := TreeSet.mem_toList.mpr hout
    obtain ⟨hop, hrequests⟩ :=
      station_text .associate hj hb (hplain station (List.mem_append_left _ hout)) hP
    exact .inl ⟨hop, ⟨station, hout, hnew⟩, hrequests⟩
  · obtain ⟨station, hs, rfl⟩ := List.mem_map.mp ht
    have hold := TreeSet.mem_toList.mpr (DpmAgent.mem_toDisassociate.mp hs).1
    obtain ⟨hop, b, m, -, hrequests⟩ :=
      station_text .disassociate hj hb (hplain station (List.mem_append_right _ hold)) hP
    exact .inr ⟨hop, b, m, hrequests⟩

theorem sound_check (hj : ReadsStations jsonLoads) {v : String} {output : TreeSet String}
    {agent : DpmAgent} {texts : List String} (h : Sound jsonLoads s)
    (hlive : s.world.terminated = false) (horderly : Orderly jsonLoads s (.check v output))
    (hcheck : s.world.agent.checkInterface v output = some (agent, texts)) :
    Sound jsonLoads ⟨s.queue ++ texts, { s.world with agent := agent }⟩ := by
  obtain ⟨hbssids, known, hknown, htexts⟩ := DpmAgent.checkInterface_cases hcheck
  refine ⟨h.associations, queueSound_append h.queue ?_, fun _ u text hu => ?_⟩
  · rcases htexts with rfl | ⟨bssid, hbssid, rfl⟩
    · trivial
    · obtain ⟨hb, hplain, htimely⟩ := horderly known hknown bssid hbssid
      apply queueSound_of_forall
      · intro t ht
        apply commandMark_eq_none
        intro P hP
        rcases pass_text_cases hj hb hplain ht hP with ⟨hop, -⟩ | ⟨hop, -⟩ <;> simp [hop]
      · intro t ht P b m hP hmem
        rcases pass_text_cases hj hb hplain ht hP with
          ⟨-, hnew, b', m', hparse, hrequests⟩ | ⟨-, b', m', hrequests⟩
        · rw [hrequests, List.mem_singleton] at hmem
          obtain ⟨rfl, rfl⟩ := Request.associate.inj hmem
          obtain ⟨b', hparse', hconfigured⟩ := h.registered hlive v bssid hbssid
          rw [hparse, Option.some.injEq] at hparse'
          subst hparse'
          -- the last command that waits for the BSSID, if there is one, is a radio-set
          have hpending := htimely hnew
          rw [hparse, Option.bind_some] at hpending
          cases hp : pending jsonLoads s.queue b with
          | none => exact hconfigured
          | some x =>
            rw [hp] at hpending
            simpa using hpending
        · simp [hrequests] at hmem
  · change agent.interfaceBssid[u]? = some text at hu
    rw [hbssids] at hu
    exact h.registered hlive u text hu

theorem associations_packets {history : List Occurrence} {packets : List ControlPacket}
    (h : AssociationsConfigured history)
    (hp : ∀ packet ∈ packets, ∀ b, associates packet = some b → configured history b = true) :
    AssociationsConfigured (history ++ packets.map .packet) := by
  intro before packet after b hsplit hb
  rcases List.append_eq_append_iff.mp hsplit with ⟨mid, hbefore, hmid⟩ | ⟨mid, hhistory, hafter⟩
  · subst hbefore
    obtain ⟨earlier, later, rfl, rfl, hlater⟩ := List.map_eq_append_iff.mp hmid
    obtain ⟨p, rest, rfl, hpacket, -⟩ := List.map_eq_cons_iff.mp hlater
    obtain rfl := Occurrence.packet.inj hpacket
    rw [configured_packets]
    exact hp p (by simp) b hb
  · cases mid with
    | nil =>
      rw [List.nil_append] at hafter
      obtain ⟨p, rest, rfl, hpacket, -⟩ := List.map_eq_cons_iff.mp hafter.symm
      obtain rfl := Occurrence.packet.inj hpacket
      rw [List.append_nil] at hhistory
      subst hhistory
      exact hp p (by simp) b hb
    | cons o mid =>
      obtain ⟨rfl, -⟩ := List.cons.inj hafter
      exact h before packet mid b hhistory hb

theorem associations_update {history : List Occurrence} {op : NodeOp} {text : String}
    (h : AssociationsConfigured history) :
    AssociationsConfigured (history ++ [.update op text]) := by
  intro before packet after b hsplit hb
  cases after using List.reverseRecOn with
  | nil =>
    obtain ⟨-, heq⟩ := List.append_inj' hsplit rfl
    cases heq
  | append_singleton after o =>
    rw [← List.cons_append, ← List.append_assoc] at hsplit
    obtain ⟨hhistory, -⟩ := List.append_inj' hsplit rfl
    exact h before packet after b hhistory hb

/-- A radio-set that has been completed keeps the interfaces configured. -/
theorem registered_add {S : Surroundings} {w : World} {text : String} {b : Mac}
    (h : RegisteredConfigured w) (hparse : parseMac text = some b) :
    RegisteredConfigured (w.updateBssids S .bssidAdd text) := by
  intro v t ht
  change (w.agent.register (S.getInterfaceName text) text).interfaceBssid[v]? = some t at ht
  change ∃ b', _ ∧ configured (w.history ++ [.update .bssidAdd text]) b' = true
  rcases DpmAgent.register_interfaceBssid ht with hold | rfl
  · obtain ⟨b', hparse', hconfigured⟩ := h v t hold
    refine ⟨b', hparse', ?_⟩
    rw [configured_update]
    unfold mark
    split_ifs
    · rfl
    · exact hconfigured
  · refine ⟨b, hparse, ?_⟩
    rw [configured_update, mark, if_pos hparse]
    rfl

/-- So does a delete, if no other interface carries its BSSID. -/
theorem registered_remove {S : Surroundings} {w : World} {P : Plan}
    (h : RegisteredConfigured w) (hop : P.op = .bssidRemove)
    (hall : DeletesAll w.agent S.getInterfaceName P)
    (hlive : (w.updateBssids S .bssidRemove P.text).terminated = false) :
    RegisteredConfigured (w.updateBssids S .bssidRemove P.text) := by
  intro v t ht
  change (w.agent.unregister (S.getInterfaceName P.text)).agent.interfaceBssid[v]? = some t at ht
  change ∃ b', _ ∧ configured (w.history ++ [.update .bssidRemove P.text]) b' = true
  have hcompleted : (w.agent.unregister (S.getInterfaceName P.text)).completed = true := by
    change (w.terminated || !(w.agent.unregister (S.getInterfaceName P.text)).completed) = false
      at hlive
    simp only [Bool.or_eq_false_iff, Bool.not_eq_false'] at hlive
    exact hlive.2
  rw [DpmAgent.unregister_interfaceBssid hcompleted, TreeMap.getElem?_erase] at ht
  split_ifs at ht with hv
  obtain ⟨b', hparse', hconfigured⟩ := h v t ht
  refine ⟨b', hparse', ?_⟩
  rw [configured_update]
  unfold mark
  split_ifs with hparse
  · -- the interface that carries the deleted BSSID is the one that was looked up
    have hv' := hall hop (v, t) (TreeMap.mem_toList_iff_getElem?_eq_some.mpr ht)
      (hparse'.trans hparse.symm)
    exact absurd (Std.compare_eq_iff_eq.mpr hv'.symm) hv
  · exact hconfigured

/-- The commands for stations change neither. -/
theorem registered_station {S : Surroundings} {w : World} {op : NodeOp} {text : String}
    (h : RegisteredConfigured w) (hop : op = .bssidMacAssociate ∨ op = .bssidMacDisassociate) :
    RegisteredConfigured (w.updateBssids S op text) := by
  intro v t ht
  have hagent : (w.updateBssids S op text).agent = w.agent := by
    rcases hop with rfl | rfl <;> rfl
  rw [hagent] at ht
  obtain ⟨b, hparse, hconfigured⟩ := h v t ht
  refine ⟨b, hparse, ?_⟩
  change configured (w.history ++ [.update op text]) b = true
  rw [configured_update]
  unfold mark
  rcases hop with rfl | rfl <;> split_ifs <;> exact hconfigured

theorem registered_send {w : World} (h : RegisteredConfigured w) (packets : List ControlPacket) :
    RegisteredConfigured (w.send packets) := by
  intro v text hv
  obtain ⟨b, hparse, hconfigured⟩ := h v text hv
  exact ⟨b, hparse, (configured_packets packets).trans hconfigured⟩

/-- The requests of a completed command find their BSSIDs configured. -/
theorem associations_completed {w : World} {P : Plan} {packets : List ControlPacket}
    (h : AssociationsConfigured w.history)
    (hrequests : packets.map ControlPacket.request = P.requests.map some)
    (hsound : ∀ b m, .associate b m ∈ P.requests → configured w.history b = true) :
    AssociationsConfigured (w.send packets).history := by
  apply associations_packets h
  intro packet hpacket b hb
  have hmem : packet.request ∈ P.requests.map some :=
    hrequests ▸ List.mem_map_of_mem hpacket
  obtain ⟨q, hq, heq⟩ := List.mem_map.mp hmem
  obtain ⟨m, rfl⟩ := associates_of_request heq.symm hb
  exact hsound b m hq

theorem registered_completed {S : Surroundings} {w : World} {root : Json} {P : Plan}
    (h : RegisteredConfigured w) (hP : plan root = some P)
    (hall : DeletesAll w.agent S.getInterfaceName P)
    (hlive : (w.updateBssids S P.op P.text).terminated = false) :
    RegisteredConfigured (w.updateBssids S P.op P.text) := by
  rcases plan_cases hP with ⟨b, hb, hop, -⟩ | ⟨b, -, hop, -⟩ | ⟨-, hop, -⟩ | ⟨-, hop, -⟩
  · rw [hop]
    exact registered_add h hb
  · rw [hop] at hlive ⊢
    exact registered_remove h hop hall hlive
  · exact registered_station h (.inl hop)
  · exact registered_station h (.inr hop)

theorem sound_parse {S : Surroundings} (hS : Confirms S.warp) {text : String} {rest : List String}
    (h : Sound jsonLoads s) (hlive : s.world.terminated = false)
    (hqueue : s.queue = text :: rest)
    (horderly : Orderly jsonLoads s (.parse S.getInterfaceName)) :
    Sound jsonLoads ⟨rest, s.world.after S (parseJson jsonLoads text)⟩ := by
  have hsound := h.queue
  rw [hqueue] at hsound
  obtain ⟨hfront, hrest⟩ := hsound
  have hregistered := h.registered hlive
  have hdoes := parseJson_does (w := s.world) hS jsonLoads text
  cases hP : completionOf jsonLoads text with
  | none =>
    -- a command that is given up half-way has sent no association
    rw [hP] at hdoes
    obtain ⟨packets, hno, hafter⟩ := hdoes
    rw [hafter]
    refine ⟨?_, ?_, fun _ => registered_send hregistered packets⟩
    · apply associations_packets h.associations
      intro packet hpacket b hb
      rw [hno packet hpacket] at hb
      cases hb
    · convert hrest using 2 with b
      simp only [commandMark, hP, Option.bind_none, Option.getD_none]
      exact configured_packets packets
  | some P =>
    rw [hP] at hdoes
    obtain ⟨packets, hrequests, hafter⟩ := hdoes
    obtain ⟨root, -, hcompletion⟩ := Option.bind_eq_some_iff.mp hP
    have hall : DeletesAll s.world.agent S.getInterfaceName P :=
      horderly P (by rw [hqueue]; exact hP)
    rw [hafter]
    refine ⟨?_, ?_, fun hlive' => ?_⟩
    · exact associations_update
        (associations_completed h.associations hrequests fun b m => hfront P b m hP)
    · convert hrest using 2 with b
      simp only [commandMark, hP, Option.bind_some]
      exact (configured_update _ _).trans (congrArg _ (configured_packets packets))
    · exact registered_completed (registered_send hregistered packets)
        (plan_of_completion hcompletion) hall hlive'

theorem sound_step {warp : List Occurrence → TimedReply} {newPort : Bridge → String → Option ℕ}
    {ofctl : Ofctl} (hj : ReadsStations jsonLoads) (hwarp : Confirms warp) {l : Label}
    (h : Sound jsonLoads s) (horderly : Orderly jsonLoads s l)
    (hs : (relay jsonLoads warp newPort ofctl).step s l = some s') : Sound jsonLoads s' := by
  change step jsonLoads warp newPort ofctl s l = some s' at hs
  unfold step at hs
  split_ifs at hs with hterminated
  have hlive : s.world.terminated = false := by simpa using hterminated
  cases l with
  | push text =>
    simp only [Option.ite_none_right_eq_some, Option.some.injEq] at hs
    obtain ⟨hc, rfl⟩ := hs
    exact sound_push h hc
  | check v output =>
    obtain ⟨⟨agent, texts⟩, hcheck, heq⟩ := Option.bind_eq_some_iff.mp hs
    obtain rfl := Option.some.inj heq
    exact sound_check hj h hlive horderly hcheck
  | parse getInterfaceName =>
    dsimp only at hs
    split at hs
    · cases hs
    · rename_i text rest hqueue
      obtain rfl := Option.some.inj hs
      exact sound_parse (S := ⟨warp, getInterfaceName, newPort, ofctl⟩) hwarp h hlive hqueue
        horderly

/-- In every orderly run, whatever the order of pushes, passes and commands, WARP is asked
to associate stations only with BSSIDs that are configured at that moment. -/
theorem associations_name_configured_bssids {warp : List Occurrence → TimedReply}
    {newPort : Bridge → String → Option ℕ} {ofctl : Ofctl} (hj : ReadsStations jsonLoads)
    (hwarp : Confirms warp)
    (h : (relay jsonLoads warp newPort ofctl).ReachableIf (Orderly jsonLoads) s) :
    AssociationsConfigured s.world.history := by
  have hsound : Sound jsonLoads s := by
    apply h.invariant (I := Sound jsonLoads)
    · refine ⟨?_, trivial, ?_⟩
      · intro before packet after b hsplit
        simp [relay, freshWorld] at hsplit
      · intro _ v text hv
        simp [relay, freshWorld] at hv
    · intro s l s' hi horderly hs
      exact sound_step hj hwarp hi horderly hs
  exact hsound.associations

end

def radioSetText : String :=
  "\x7b\"command\":\"_radio_set_command\",\"radio\":\"radio0\",\"changes\":\x7b" ++
    "\"macaddr\":\"02:00:00:00:00:00\",\"channel\":1,\"hwmode\":\"abg\",\"txpower\":20," ++
    "\"disabled\":0\x7d\x7d"

def deleteText : String :=
  "\x7b\"command\":\"_delete_bss_index\",\"radio\":\"radio0\",\"changes\":\x7b" ++
    "\"macaddr\":\"02:00:00:00:00:00\"\x7d\x7d"

def readCommand (text : String) : Option Json :=
  (readStation text).or <|
    if text = radioSetText then
      some (.object [(jsonCommand, .string radioSetCmd), (jsonRadio, .string "radio0"),
        (jsonChanges, .object [(jsonMacAddress, .string "02:00:00:00:00:00"),
          (jsonChannel, .integer 1), (jsonHwMode, .string "abg"), (jsonTxPower, .integer 20),
          (jsonDisabled, .integer 0)])])
    else if text = deleteText then
      some (.object [(jsonCommand, .string uciDeleteBss), (jsonRadio, .string "radio0"),
        (jsonChanges, .object [(jsonMacAddress, .string "02:00:00:00:00:00")])])
    else none

theorem readCommand_reads : ReadsStations readCommand := by
  intro command bssid macAddress hc hb hm
  simp [readCommand, readStation_reads command bssid macAddress hc hb hm]

def wlan0 (text : String) : String := if text = "02:00:00:00:00:00" then "wlan0" else ""

def bssid0 : Mac := #v[2, 0, 0, 0, 0, 0]

def oneStation : TreeSet String := (∅ : TreeSet String).insert "00:0e:8e:00:00:09"

def isAssociation (b : Mac) : Occurrence → Bool
  | .packet packet => associates packet = some b
  | .update _ _ => false

def portNumber (_ : Bridge) (interface : String) : Option ℕ :=
  if interface = "eth1" then some 1 else some 2

/-- A BSSID is set, a station associates, and the BSSID is deleted afterwards. -/
theorem associations_before_the_delete :
    ∃ s, (relay readCommand obligingWarp portNumber fullReader).ReachableIf
        (Orderly readCommand) s ∧
      (s.world.history.any (isAssociation bssid0) && !configured s.world.history bssid0) = true ∧
      AssociationsConfigured s.world.history := by
  obtain ⟨s, hreach, hs⟩ := Machine.exists_reachableIf
    (M := relay readCommand obligingWarp portNumber fullReader) (C := Orderly readCommand)
    (P := fun s => s.world.history.any (isAssociation bssid0) &&
      !configured s.world.history bssid0)
    [.push radioSetText, .parse wlan0, .check "wlan0" oneStation, .push deleteText,
      .parse wlan0, .parse wlan0]
    (by decide +kernel)
  exact ⟨s, hreach, hs,
    associations_name_configured_bssids readCommand_reads obligingWarp_confirms hreach⟩

theorem not_associationsConfigured {history : List Occurrence} {b : Mac} (n : ℕ)
    (hassociation : history[n]?.any (isAssociation b) = true)
    (hconfigured : configured (history.take n) b = false) : ¬AssociationsConfigured history := by
  intro h
  obtain ⟨o, ho, hb⟩ := Option.any_eq_true _ _ |>.mp hassociation
  have hsplit : history = history.take n ++ o :: history.drop (n + 1) := by
    obtain ⟨hn, hget⟩ := List.getElem?_eq_some_iff.mp ho
    rw [← hget, List.cons_getElem_drop_succ, List.take_append_drop]
  cases o with
  | update op text => cases hb
  | packet packet =>
    rw [h _ packet _ b hsplit (of_decide_eq_true hb)] at hconfigured
    cases hconfigured

/-- The delete is waiting when the pass pushes its association behind it. -/
theorem association_behind_the_delete :
    ReadsStations readCommand ∧ Confirms obligingWarp ∧
      ∃ s, (relay readCommand obligingWarp portNumber fullReader).Reachable s ∧
        ¬AssociationsConfigured s.world.history := by
  refine ⟨readCommand_reads, obligingWarp_confirms, ?_⟩
  obtain ⟨s, hreach, hs⟩ := Machine.exists_reachableIf
    (M := relay readCommand obligingWarp portNumber fullReader) (C := fun _ _ => True)
    (P := fun s => s.world.history[6]?.any (isAssociation bssid0) &&
      !configured (s.world.history.take 6) bssid0)
    [.push radioSetText, .parse wlan0, .push deleteText, .check "wlan0" oneStation,
      .parse wlan0, .parse wlan0]
    (by decide +kernel)
  simp only [Bool.and_eq_true, Bool.not_eq_true'] at hs
  exact ⟨s, hreach, not_associationsConfigured 6 hs.1 hs.2⟩

end AuroraRelay.StaleAssociation
