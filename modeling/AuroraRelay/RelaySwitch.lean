import Mathlib.Data.List.MinMax
import AuroraRelay.Forwarding
import AuroraRelay.ShellCommands
import AuroraRelay.StaleAssociation
import AuroraRelay.StationListing

/-!
# The relay and its switch

The commands of the controller and those of `timed_check` reach the switch through
`parse_json` and `DPMAgent::sync`.  Whatever they are and whatever WARP answers, the calls of
the datapath manager that they come to keep the switch a router; and where the packets of the
wire go is decided by what hostapd knows of the stations on the air.
-/

namespace AuroraRelay.RelaySwitch
open CommsAgent Datapath FlowTable Hostapd Interaction StationTable Std Transition WarpProtocol

/-- `ovs-vsctl` makes ports of the interfaces `names`, each with a positive number that is
not in use. -/
structure NumbersPorts (names : Set String) (newPort : Bridge → String → Option ℕ) : Prop where
  named : ∀ bridge i n, newPort bridge i = some n → i ∈ names
  fresh : ∀ bridge, (∀ i n, bridge.ports i = some n → i ∈ names) →
    ∀ i n, newPort bridge i = some n → n ≠ 0 ∧ ∀ j, bridge.ports j ≠ some n

def addOutcome (newPort : Bridge → String → Option ℕ) (bridge : Bridge) (e i : String) :
    Option ℕ :=
  if i = e then (if bridge.index e = 0 then newPort bridge e else none)
  else newPort (wired newPort bridge e) i

section Add

variable {names : Set String} {newPort : Bridge → String → Option ℕ} {ofctl : Ofctl}
  {bridge : Bridge} {e v : String}

theorem wired_addOutcome :
    wired (fun _ i => addOutcome newPort bridge e i) bridge e = wired newPort bridge e := by
  unfold wired
  split_ifs with hzero
  · simp only [addInterface, addOutcome, if_pos hzero, if_true]
  · rfl

theorem add_eq_wired (outcome : Bridge → String → Option ℕ) :
    Datapath.add outcome bridge v e =
      if (wired outcome bridge e).index v ≠ 0 then wired outcome bridge e
      else
        supportedProtocol.foldl (fun b protocol =>
          b.addFlow 1 ⟨(addInterface outcome (wired outcome bridge e) v).index v, none,
            some protocol⟩ ((wired outcome bridge e).index e))
          (addInterface outcome (wired outcome bridge e) v) := rfl

theorem add_eq_pathStep (hv : v ≠ e) :
    Datapath.add newPort bridge v e =
      pathStep ofctl e bridge (.add (addOutcome newPort bridge e) v) := by
  have hbound : addInterface (fun _ i => addOutcome newPort bridge e i) (wired newPort bridge e) v =
      addInterface newPort (wired newPort bridge e) v := by
    simp only [addInterface, addOutcome, if_neg hv]
  rw [pathStep, add_eq_wired, add_eq_wired, wired_addOutcome, hbound]

theorem NumbersPorts.named_wired (hn : NumbersPorts names newPort)
    (h : ∀ i n, bridge.ports i = some n → i ∈ names) :
    ∀ i n, (wired newPort bridge e).ports i = some n → i ∈ names := by
  intro i n hi
  unfold wired at hi
  split_ifs at hi
  · change Function.update bridge.ports e (newPort bridge e) i = some n at hi
    rw [Function.update_apply] at hi
    split_ifs at hi with hie
    · exact hie ▸ hn.named _ _ _ hi
    · exact h i n hi
  · exact h i n hi

theorem NumbersPorts.addOutcome_named (hn : NumbersPorts names newPort) {i : String} {n : ℕ}
    (hi : addOutcome newPort bridge e i = some n) : i ∈ names := by
  unfold addOutcome at hi
  split_ifs at hi with hie
  · exact hie ▸ hn.named _ _ _ hi
  · exact hn.named _ _ _ hi

theorem NumbersPorts.valid_add (hn : NumbersPorts names newPort)
    (h : ∀ i n, bridge.ports i = some n → i ∈ names) (hv : v ≠ e) :
    PathCall.Valid e bridge (.add (addOutcome newPort bridge e) v) := by
  have hwired := hn.fresh _ (hn.named_wired (e := e) h)
  refine ⟨hv, fun i n hi => ?_, fun n he hout => ?_⟩
  · unfold addOutcome at hi
    split_ifs at hi with hie hzero
    · exact hn.fresh bridge h e n hi
    · obtain ⟨hpos, hfree⟩ := hwired i n hi
      refine ⟨hpos, fun j hj => ?_⟩
      unfold wired at hfree
      split_ifs at hfree with hzero
      · -- the wired interface had no port, so that it is another that has the number
        have hje : j ≠ e := by
          rintro rfl
          rw [Bridge.index, hj] at hzero
          exact hpos hzero
        exact hfree j ((Function.update_of_ne hje _ _).trans hj)
      · exact hfree j hj
  · have hzero : bridge.index e = 0 ∧ newPort bridge e = some n := by
      simpa [addOutcome] using he
    rw [addOutcome, if_neg hv] at hout
    refine (hwired v n hout).2 e ?_
    rw [wired, if_pos hzero.1]
    exact (Function.update_self ..).trans hzero.2

end Add

def pathCall (newPort : Bridge → String → Option ℕ) (bridge : Bridge) :
    DatapathCommand → PathCall
  | .add v e => .add (addOutcome newPort bridge e) v
  | .remove v _ => .remove v
  | .associate v _ macAddress => .associate v macAddress
  | .disassociate v _ macAddress => .disassociate v macAddress

/-- A command that the agent gives: for a wireless interface under its name on the switch, and
for the one wired interface. -/
def OfAgent : DatapathCommand → Prop
  | .add v e | .remove v e | .associate v e _ | .disassociate v e _ =>
    v ≠ e ∧ e = DpmAgent.ethernetInterface

theorem createVirtualInterface_ne (interface : String) :
    DpmAgent.createVirtualInterface interface ≠ DpmAgent.ethernetInterface := by
  intro h
  have hlist := congrArg (fun text => text.toList.head?) h
  simp [DpmAgent.createVirtualInterface, DpmAgent.ethernetInterface] at hlist

def AssociatesSender (ofctl : Ofctl) (m : Mac) : DatapathCommand → Prop
  | .associate _ _ text => ofctl.readMac text = some m
  | _ => False

/-- A station is associated only by an update that names it. -/
theorem commands_of_sync (ofctl : Ofctl) (getInterfaceName : String → String) (agent : DpmAgent)
    (op : NodeOp) (msg : String) : ∀ c ∈ (agent.sync getInterfaceName op msg).commands, OfAgent c ∧
      ∀ m, AssociatesSender ofctl m c → op = .bssidMacAssociate ∧
        ofctl.readMac (DpmAgent.afterBar msg) = some m := by
  have hname := createVirtualInterface_ne
  cases op with
  | bssidAdd =>
    simp only [DpmAgent.sync, List.forall_mem_singleton]
    exact ⟨⟨hname _, rfl⟩, fun m h => h.elim⟩
  | bssidRemove =>
    intro c hc
    rw [DpmAgent.sync] at hc
    cases hmac : agent.interfaceMac[getInterfaceName msg]? with
    | none => simp [DpmAgent.unregister, hmac] at hc
    | some stations =>
      have hcases : (∃ m ∈ stations.toList, c = DpmAgent.disassociate m (getInterfaceName msg)) ∨
          c = DpmAgent.remove (getInterfaceName msg) := by
        cases hbssid : agent.interfaceBssid[getInterfaceName msg]? with
        | none =>
          simp only [DpmAgent.unregister, hmac, hbssid, List.mem_map] at hc
          obtain ⟨m, hm, rfl⟩ := hc
          exact .inl ⟨m, hm, rfl⟩
        | some bssid =>
          simp only [DpmAgent.unregister, hmac, hbssid, List.mem_append, List.mem_map,
            List.mem_singleton] at hc
          rcases hc with ⟨m, hm, rfl⟩ | rfl
          · exact .inl ⟨m, hm, rfl⟩
          · exact .inr rfl
      rcases hcases with ⟨m, -, rfl⟩ | rfl
      · exact ⟨⟨hname _, rfl⟩, fun m h => h.elim⟩
      · exact ⟨⟨hname _, rfl⟩, fun m h => h.elim⟩
  | bssidMacAssociate =>
    simp only [DpmAgent.sync, List.forall_mem_singleton]
    exact ⟨⟨hname _, rfl⟩, fun m h => ⟨trivial, h⟩⟩
  | bssidMacDisassociate =>
    simp only [DpmAgent.sync, List.forall_mem_singleton]
    exact ⟨⟨hname _, rfl⟩, fun m h => h.elim⟩
  | _ => simp [DpmAgent.sync]

theorem ports_add {router : Router} {e v i : String} {outcome : String → Option ℕ} {n : ℕ}
    (h : (router.add e outcome v).ports i = some n) :
    router.ports i = some n ∨ outcome i = some n := by
  have hbind (router : Router) (u : String) (h : (router.bind outcome u).ports i = some n) :
      router.ports i = some n ∨ outcome i = some n := by
    by_cases hu : i = u
    · subst hu
      exact .inr (Router.ports_bind.symm.trans h)
    · rw [Router.ports_bind_ne hu] at h
      exact .inl h
  have hwire (h : (router.wire e outcome).ports i = some n) :
      router.ports i = some n ∨ outcome i = some n := by
    rw [Router.wire] at h
    split_ifs at h
    · exact hbind router e h
    · exact .inl h
  rw [Router.add] at h
  split_ifs at h
  · exact hwire h
  · rcases hbind _ v h with hwired | hout
    · exact hwire hwired
    · exact .inr hout

theorem ports_step {ofctl : Ofctl} {router : Router} {e i : String} {call : PathCall} {n : ℕ}
    (h : (router.step ofctl e call).ports i = some n) : router.ports i = some n ∨
      ∃ outcome v, call = .add outcome v ∧ outcome i = some n := by
  cases call with
  | add outcome v => exact (ports_add h).imp id fun hout => ⟨outcome, v, rfl, hout⟩
  | associate v text =>
    left
    cases hm : ofctl.readMac text with
    | none =>
      rw [Router.step, hm] at h
      exact h
    | some m =>
      rw [Router.step, hm, Option.elim_some, Router.associate] at h
      split_ifs at h <;> exact h
  | disassociate v text =>
    left
    cases hm : ofctl.readMac text with
    | none =>
      rw [Router.step, hm] at h
      exact h
    | some m =>
      rw [Router.step, hm] at h
      exact h
  | remove v =>
    left
    change Function.update router.ports v none i = some n at h
    by_cases hiv : i = v
    · subst hiv
      rw [Function.update_self] at h
      cases h
    · rwa [Function.update_of_ne hiv] at h
  | clear => exact .inl h

theorem isSome_setRoute {router : Router} {station m : Mac} {port : Option ℕ}
    (h : ((router.setRoute station port).routes m).isSome) :
    (router.routes m).isSome ∨ m = station ∧ port.isSome := by
  by_cases hm : m = station
  · subst hm
    have hself : (router.setRoute m port).routes m = port := Function.update_self ..
    rw [hself] at h
    exact .inr ⟨rfl, h⟩
  · have hother : (router.setRoute station port).routes m = router.routes m :=
      Function.update_of_ne hm _ _
    rw [hother] at h
    exact .inl h

theorem routes_step {ofctl : Ofctl} {router : Router} {e : String} {call : PathCall} {m : Mac}
    (h : ((router.step ofctl e call).routes m).isSome) : (router.routes m).isSome ∨
      ∃ v text, call = .associate v text ∧ ofctl.readMac text = some m := by
  cases call with
  | add outcome v =>
    left
    rw [Router.step, Router.add, Router.wire] at h
    split_ifs at h <;> exact h
  | associate v text =>
    cases hm : ofctl.readMac text with
    | none =>
      rw [Router.step, hm] at h
      exact .inl h
    | some station =>
      rw [Router.step, hm, Option.elim_some, Router.associate] at h
      split_ifs at h
      · exact .inl h
      · refine (isSome_setRoute h).imp id fun hset => ?_
        exact ⟨v, text, rfl, by rw [hm, hset.1]⟩
  | disassociate v text =>
    left
    cases hm : ofctl.readMac text with
    | none =>
      rw [Router.step, hm] at h
      exact h
    | some station =>
      rw [Router.step, hm, Option.elim_some] at h
      exact (isSome_setRoute h).resolve_right fun hset => by cases hset.2
  | remove v =>
    left
    obtain ⟨o, ho⟩ := Option.isSome_iff_exists.mp h
    exact Option.isSome_iff_exists.mpr ⟨o, (Option.filter_eq_some_iff.mp ho).1⟩
  | clear => cases h

/-- The switch is the router and has ports for the interfaces `names` only. -/
structure Serves (names : Set String) (bridge : Bridge) (router : Router) : Prop where
  realises : Realises DpmAgent.ethernetInterface bridge router
  sound : router.Sound DpmAgent.ethernetInterface
  named : ∀ i n, bridge.ports i = some n → i ∈ names

/-- `ovs-ofctl` has read the station in an update. -/
def ReadIn (history : List Occurrence) (m : Mac) : Prop :=
  ∃ (ofctl : Ofctl) (text : String), .update .bssidMacAssociate text ∈ history ∧
    ofctl.readMac (DpmAgent.afterBar text) = some m

def Kept (names : Set String) (w : World) : Prop :=
  ∃ router, Serves names w.bridge router ∧ ∀ m, (router.routes m).isSome → ReadIn w.history m

section Kept

variable {names : Set String} {newPort : Bridge → String → Option ℕ} {ofctl : Ofctl}
  {bridge : Bridge} {router : Router} {S : Surroundings} {w : World}

theorem executeCommand_eq (hn : NumbersPorts names newPort)
    (h : ∀ i n, bridge.ports i = some n → i ∈ names) {c : DatapathCommand} (hc : OfAgent c) :
    executeCommand newPort ofctl bridge c =
        pathStep ofctl DpmAgent.ethernetInterface bridge (pathCall newPort bridge c) ∧
      (pathCall newPort bridge c).Valid DpmAgent.ethernetInterface bridge := by
  cases c with
  | add v e =>
    obtain ⟨hv, rfl⟩ := hc
    exact ⟨add_eq_pathStep hv, hn.valid_add h hv⟩
  | remove v e =>
    obtain ⟨hv, rfl⟩ := hc
    exact ⟨rfl, hv⟩
  | associate v e text =>
    obtain ⟨hv, rfl⟩ := hc
    exact ⟨rfl, hv⟩
  | disassociate v e text =>
    obtain ⟨-, rfl⟩ := hc
    exact ⟨rfl, trivial⟩

theorem pathCall_eq_add {c : DatapathCommand} {outcome : String → Option ℕ} {v : String}
    (h : pathCall newPort bridge c = .add outcome v) :
    ∃ e, outcome = addOutcome newPort bridge e := by
  cases c with
  | add v e =>
    cases h
    exact ⟨e, rfl⟩
  | remove v e => cases h
  | associate v e text => cases h
  | disassociate v e text => cases h

theorem associatesSender_of_pathCall {c : DatapathCommand} {v text : String} {m : Mac}
    (h : pathCall newPort bridge c = .associate v text) (hm : ofctl.readMac text = some m) :
    AssociatesSender ofctl m c := by
  cases c with
  | associate v e text =>
    cases h
    exact hm
  | add v e => cases h
  | remove v e => cases h
  | disassociate v e text => cases h

theorem Serves.command (hn : NumbersPorts names newPort) (h : Serves names bridge router)
    {c : DatapathCommand} (hc : OfAgent c) :
    ∃ router', Serves names (executeCommand newPort ofctl bridge c) router' ∧
      ∀ m, (router'.routes m).isSome → (router.routes m).isSome ∨ AssociatesSender ofctl m c := by
  obtain ⟨hexec, hvalid⟩ := executeCommand_eq hn h.named hc
  obtain ⟨hrealises, hsound⟩ := realises_pathStep h.realises h.sound hvalid
  rw [hexec]
  refine ⟨_, ⟨hrealises, hsound, fun i n hi => ?_⟩, fun m hm => ?_⟩
  · rw [hrealises.ports] at hi
    rcases ports_step hi with hold | ⟨outcome, v, hcall, hout⟩
    · exact h.named i n (by rw [h.realises.ports, hold])
    · obtain ⟨e, rfl⟩ := pathCall_eq_add hcall
      exact hn.addOutcome_named hout
  · refine (routes_step hm).imp id ?_
    rintro ⟨v, text, hcall, hparse⟩
    exact associatesSender_of_pathCall hcall hparse

theorem Serves.commands (hn : NumbersPorts names newPort) (h : Serves names bridge router)
    {commands : List DatapathCommand} (hcommands : ∀ c ∈ commands, OfAgent c) :
    ∃ router', Serves names (commands.foldl (executeCommand newPort ofctl) bridge) router' ∧
      ∀ m, (router'.routes m).isSome →
        (router.routes m).isSome ∨ ∃ c ∈ commands, AssociatesSender ofctl m c := by
  induction commands generalizing bridge router with
  | nil => exact ⟨router, h, fun m hm => .inl hm⟩
  | cons c commands ih =>
    obtain ⟨hc, hcommands⟩ := List.forall_mem_cons.mp hcommands
    obtain ⟨router₁, h₁, hroutes₁⟩ := h.command hn hc
    obtain ⟨router₂, h₂, hroutes₂⟩ := ih h₁ hcommands
    refine ⟨router₂, h₂, fun m hm => ?_⟩
    rcases hroutes₂ m hm with hm | ⟨c', hc', hm⟩
    · rcases hroutes₁ m hm with hm | hm
      · exact .inl hm
      · exact .inr ⟨c, List.mem_cons_self, hm⟩
    · exact .inr ⟨c', List.mem_cons_of_mem c hc', hm⟩

theorem Kept.mono_history (h : Kept names w) {w' : World} (hbridge : w'.bridge = w.bridge)
    (hhistory : ∀ o ∈ w.history, o ∈ w'.history) : Kept names w' := by
  obtain ⟨router, hserves, hread⟩ := h
  refine ⟨router, hbridge ▸ hserves, fun m hm => ?_⟩
  obtain ⟨ofctl, text, htext, hm⟩ := hread m hm
  exact ⟨ofctl, text, hhistory _ htext, hm⟩

theorem Kept.updateBssids (hn : NumbersPorts names S.newPort) (h : Kept names w) (op : NodeOp)
    (text : String) : Kept names (w.updateBssids S op text) := by
  obtain ⟨router, hserves, hread⟩ := h
  have hcommands := commands_of_sync S.ofctl S.getInterfaceName w.agent op text
  obtain ⟨router', hserves', hroutes⟩ := hserves.commands hn fun c hc => (hcommands c hc).1
  refine ⟨router', hserves', fun m hm => ?_⟩
  rcases hroutes m hm with hold | ⟨c, hc, hsender⟩
  · obtain ⟨ofctl, text', htext', hm'⟩ := hread m hold
    exact ⟨ofctl, text', List.mem_append_left _ htext', hm'⟩
  · obtain ⟨rfl, hm'⟩ := (hcommands c hc).2 m hsender
    exact ⟨S.ofctl, text, List.mem_append_right _ (List.mem_singleton_self _), hm'⟩

/-- Whatever WARP answers. -/
theorem Kept.after {α : Type} (hn : NumbersPorts names S.newPort) (h : Kept names w)
    (p : Relay α) : Kept names (w.after S p) := by
  induction p generalizing w with
  | ret a => exact h
  | call c k ih =>
    refine ih _ ?_
    cases c with
    | sync op packet => exact h.mono_history rfl fun o ho => List.mem_append_left _ ho
    | timedSync op limit => exact h
    | setMessage message => exact h
    | updateBssids op text => exact h.updateBssids hn op text

theorem Kept.process (hn : NumbersPorts names S.newPort) (h : Kept names w)
    (jsonLoads : String → Option Json) (queue : List String) :
    Kept names (w.process S jsonLoads queue) := by
  induction queue generalizing w with
  | nil => exact h
  | cons text queue ih => exact ih (h.after hn _)

end Kept

structure State where
  queue : List String
  world : World

inductive Label
  | push (text : String)
  | check (virtualInterface : String) (output : TreeSet String)
  | parse (S : Surroundings)

def step (jsonLoads : String → Option Json) (s : State) (l : Label) : Option State :=
  if s.world.terminated then none
  else
    match l with
    | .push text => some { s with queue := s.queue ++ [text] }
    | .check virtualInterface output => do
      let (agent, texts) ← s.world.agent.checkInterface virtualInterface output
      return ⟨s.queue ++ texts, { s.world with agent := agent }⟩
    | .parse S =>
      match s.queue with
      | [] => none
      | text :: rest => some ⟨rest, s.world.after S (parseJson jsonLoads text)⟩

def relay (jsonLoads : String → Option Json) : Machine State Label where
  init := ⟨[], freshWorld⟩
  step := step jsonLoads

def Numbered (names : Set String) (_ : State) : Label → Prop
  | .parse S => NumbersPorts names S.newPort
  | _ => True

/-- Interfaces have plain names, hostapd and the commands name addresses, and new ports have
new numbers. -/
def Allowed (jsonLoads : String → Option Json) (names : Set String) (s : State) : Label → Prop
  | .push _ => True
  | .check _ output => ∀ text ∈ output, IsAddressText text
  | .parse S => NumbersPorts names S.newPort ∧ PlainNames S.getInterfaceName ∧
      ∀ command ∈ s.queue.head?, NamesAddresses jsonLoads command

theorem Allowed.numbered {jsonLoads : String → Option Json} {names : Set String} {s : State}
    {l : Label} (h : Allowed jsonLoads names s l) : Numbered names s l := by
  cases l with
  | push text => trivial
  | check v output => trivial
  | parse S => exact h.1

def roundReport (round : String → Listing) : Report := fun v =>
  outputMacAddr (round v).printed.flatten

/-- For each interface a listing of the stations of its hostapd, an open network, while
stations come and go; nobody is on two interfaces when their listings start. -/
structure IsRound (w : World) (round : String → Listing) : Prop where
  listed : ∀ v ∈ w.agent.interfaceMac, ∃ maxNumSta hapd,
    (stations maxNumSta).ReachableIf Hostapd.Call.Valid hapd ∧
    (listing hapd).ReachableIf (fun s event => KeepsPlace s event ∧ Prints (· = []) event)
      (round v)
  finished : ∀ v ∈ w.agent.interfaceMac, (round v).client = .finished
  fits : ∀ v ∈ w.agent.interfaceMac, (round v).start.length ≤ 56
  once : ∀ m, ∀ u ∈ w.agent.interfaceMac, ∀ v ∈ w.agent.interfaceMac,
    m ∈ (round u).start → m ∈ (round v).start → u = v

section Air

variable {w : World} {round : String → Listing} {m : Mac} {v : String}

theorem IsRound.polled (h : IsRound w round) (hv : v ∈ w.agent.interfaceMac) :
    ∃ listed, Covers (round v).start (round v).freed listed ∧
      ∀ text, text ∈ roundReport round v ↔ ∃ m ∈ listed, text = macText m := by
  obtain ⟨maxNumSta, hapd, hreach, hlisting⟩ := h.listed v hv
  obtain ⟨listed, hcovers, -, hpolled⟩ :=
    polled_of_listing hreach hlisting (h.finished v hv) (h.fits v hv)
  exact ⟨listed, hcovers, hpolled⟩

/-- Whoever is reported was there when the listing started. -/
theorem IsRound.start_of_reported (h : IsRound w round)
    (hv : v ∈ reportedAt w m (roundReport round)) : m ∈ (round v).start := by
  obtain ⟨listed, hcovers, hpolled⟩ := h.polled hv.1
  obtain ⟨m', hm', htext⟩ := (hpolled _).mp hv.2
  rw [macText_injective htext]
  exact hcovers.sublist.subset hm'

theorem IsRound.report (h : IsRound w round) : IsReport w (roundReport round) := by
  refine ⟨fun v hv text htext => ?_, fun m u hu v hv hmu hmv => ?_⟩
  · obtain ⟨listed, -, hpolled⟩ := h.polled hv
    obtain ⟨m, -, rfl⟩ := (hpolled text).mp htext
    exact ⟨m, rfl⟩
  · exact h.once m u hu v hv (h.start_of_reported ⟨hu, hmu⟩) (h.start_of_reported ⟨hv, hmv⟩)

variable {S : Surroundings} {jsonLoads : String → Option Json} {names : Set String}
  {rounds : List Report} {w' : World}

theorem Kept.pollThenProcess (hn : NumbersPorts names S.newPort) (h : Kept names w)
    (hw' : pollThenProcess S jsonLoads w rounds = some w') : Kept names w' := by
  obtain ⟨⟨agent, queue⟩, -, hqueue⟩ := Option.bind_eq_some_iff.mp hw'
  obtain rfl := Option.some.inj hqueue
  have hagent : Kept names { w with agent := agent } := h.mono_history rfl fun o ho => ho
  exact hagent.process hn jsonLoads queue

end Air

open StaleAssociation (radioSetText readCommand readCommand_reads)

end AuroraRelay.RelaySwitch
