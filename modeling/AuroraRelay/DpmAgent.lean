import Mathlib.Data.String.Basic
import Mathlib.Tactic.Tauto
import AuroraRelay.Lib.Split
import AuroraRelay.Lib.Transition
import AuroraRelay.Datapath

/-!
# The agent of the datapath manager

`dpm_agent.cpp`: it keeps the interfaces that carry a BSSID with the stations that it last
saw on each of them.  `sync` follows the commands of the controller, `timed_check` asks
hostapd for the stations and queues a command for every difference.
-/

namespace AuroraRelay
open CommsAgent Datapath Std WarpProtocol

structure DpmAgent where
  interfaceMac : TreeMap String (TreeSet String)
  interfaceBssid : TreeMap String String
  bssidInterface : TreeMap String String

/-- The calls of `datapath_manager.py`, the socket and the bridge apart. -/
inductive DatapathCommand
  | add (virtualInterface ethernetInterface : String)
  | remove (virtualInterface ethernetInterface : String)
  | associate (virtualInterface ethernetInterface macAddress : String)
  | disassociate (virtualInterface ethernetInterface macAddress : String)
  deriving DecidableEq

/-- `execute_command`, up to the switch.  The source joins the words to a line for `system`, which
reads them as they are here where they hold nothing that the shell treats in its own way. -/
def executeCommand (newPort : Bridge → String → Option ℕ) (ofctl : Ofctl) (bridge : Bridge) :
    DatapathCommand → Bridge
  | .add v e => Datapath.add newPort bridge v e
  | .remove v e => Datapath.remove bridge v e
  | .associate v e macAddress => Datapath.associate ofctl bridge v e macAddress
  | .disassociate v e macAddress => Datapath.disassociate ofctl bridge v e macAddress

namespace DpmAgent

def createVirtualInterface (interface : String) : String := "v" ++ interface ++ "-dpm"

/-- The default of the four functions below, which no caller changes. -/
abbrev ethernetInterface : String := "eth1"

def add (wlanInterface : String) : DatapathCommand :=
  .add (createVirtualInterface wlanInterface) ethernetInterface

def remove (wlanInterface : String) : DatapathCommand :=
  .remove (createVirtualInterface wlanInterface) ethernetInterface

def associate (macAddress wlanInterface : String) : DatapathCommand :=
  .associate (createVirtualInterface wlanInterface) ethernetInterface macAddress

def disassociate (macAddress wlanInterface : String) : DatapathCommand :=
  .disassociate (createVirtualInterface wlanInterface) ethernetInterface macAddress

/-- `msg.substr(0, msg.find("|"))`. -/
def beforeBar (msg : String) : String := String.ofList (msg.toList.takeWhile (· ≠ '|'))

/-- `msg.substr(msg.find("|") + 1)`, the whole text if there is no bar. -/
def afterBar (msg : String) : String :=
  if '|' ∈ msg.toList then String.ofList ((msg.toList.dropWhile (· ≠ '|')).drop 1) else msg

theorem beforeBar_append {bssid text : String} (h : '|' ∉ bssid.toList) :
    beforeBar (bssid ++ "|" ++ text) = bssid := by
  unfold beforeBar
  rw [String.toList_append, String.toList_append, List.append_assoc,
    List.takeWhile_append_of_pos (Split.forall_ne_of_not_mem h)]
  simp

theorem afterBar_append {bssid text : String} (h : '|' ∉ bssid.toList) :
    afterBar (bssid ++ "|" ++ text) = text := by
  unfold afterBar
  rw [String.toList_append, String.toList_append, List.append_assoc,
    List.dropWhile_append_of_pos (Split.forall_ne_of_not_mem h)]
  simp

/-- What a call of `sync` leaves; it is not completed if `at` did not find its key. -/
structure Synced where
  agent : DpmAgent
  commands : List DatapathCommand
  completed : Bool

def register (agent : DpmAgent) (virtualInterface bssid : String) : DpmAgent :=
  let agent :=
    if virtualInterface ∈ agent.interfaceBssid then agent
    else { agent with
      interfaceBssid := agent.interfaceBssid.insertIfNew virtualInterface bssid
      bssidInterface := agent.bssidInterface.insertIfNew bssid virtualInterface }
  { agent with interfaceMac := agent.interfaceMac.insertIfNew virtualInterface ∅ }

def unregister (agent : DpmAgent) (virtualInterface : String) : Synced :=
  match agent.interfaceMac[virtualInterface]? with
  | none => ⟨agent, [], false⟩
  | some stations =>
    let commands := stations.toList.map (disassociate · virtualInterface)
    let agent := { agent with interfaceMac := agent.interfaceMac.erase virtualInterface }
    match agent.interfaceBssid[virtualInterface]? with
    | none => ⟨agent, commands, false⟩
    | some bssid =>
      ⟨{ agent with
          bssidInterface := agent.bssidInterface.erase bssid
          interfaceBssid := agent.interfaceBssid.erase virtualInterface },
        commands ++ [remove virtualInterface], true⟩

/-- `getInterfaceName` is what `ifconfig` says at the time of the call. -/
def sync (getInterfaceName : String → String) (agent : DpmAgent) (op : NodeOp) (msg : String) :
    Synced :=
  match op with
  | .bssidAdd =>
    let virtualInterface := getInterfaceName msg
    ⟨agent.register virtualInterface msg, [add virtualInterface], true⟩
  | .bssidRemove => agent.unregister (getInterfaceName msg)
  | .bssidMacAssociate =>
    ⟨agent, [associate (afterBar msg) (getInterfaceName (beforeBar msg))], true⟩
  | .bssidMacDisassociate =>
    ⟨agent, [disassociate (afterBar msg) (getInterfaceName (beforeBar msg))], true⟩
  | _ => ⟨agent, [], true⟩

/-- An interface keeps its BSSID when one is registered. -/
theorem register_interfaceBssid {agent : DpmAgent} {v u bssid text : String}
    (h : (agent.register v bssid).interfaceBssid[u]? = some text) :
    agent.interfaceBssid[u]? = some text ∨ text = bssid := by
  by_cases hv : v ∈ agent.interfaceBssid
  · rw [register, if_pos hv] at h
    exact .inl h
  · rw [register, if_neg hv] at h
    change (agent.interfaceBssid.insertIfNew v bssid)[u]? = some text at h
    rw [TreeMap.getElem?_insertIfNew] at h
    split_ifs at h
    · exact .inr (Option.some.inj h).symm
    · exact .inl h

theorem unregister_interfaceBssid {agent : DpmAgent} {v : String}
    (h : (agent.unregister v).completed = true) :
    (agent.unregister v).agent.interfaceBssid = agent.interfaceBssid.erase v := by
  cases hmac : agent.interfaceMac[v]? with
  | none => simp [unregister, hmac] at h
  | some stations =>
    cases hbssid : agent.interfaceBssid[v]? with
    | none => simp [unregister, hmac, hbssid] at h
    | some bssid => simp [unregister, hmac, hbssid]

def call (op : StationOp) (macAddress wlanInterface : String) : DatapathCommand :=
  match op with
  | .associate => associate macAddress wlanInterface
  | .disassociate => disassociate macAddress wlanInterface

theorem sync_station (op : StationOp) (getInterfaceName : String → String) (agent : DpmAgent)
    {bssid text : String} (h : '|' ∉ bssid.toList) :
    agent.sync getInterfaceName op.nodeOp (bssid ++ "|" ++ text) =
      ⟨agent, [call op text (getInterfaceName bssid)], true⟩ := by
  cases op <;>
    simp only [sync, StationOp.nodeOp, call, afterBar_append h, beforeBar_append h]

/-- The text of a command for one station; nothing in it is escaped. -/
def stationText (command bssid macAddress : String) : String :=
  "\x7b\"command\":\"" ++ command ++ "\",\"changes\":\x7b\"bssid\":\"" ++ bssid ++
    "\",\"macaddr\":\"" ++ macAddress ++ "\"\x7d\x7d"

def toAssociate (known output : TreeSet String) : List String := (output \ (known ∩ output)).toList

def toDisassociate (known output : TreeSet String) : List String :=
  (known \ (known ∩ output)).toList

theorem mem_toAssociate {known output : TreeSet String} {text : String} :
    text ∈ toAssociate known output ↔ text ∈ output ∧ text ∉ known := by
  rw [toAssociate, TreeSet.mem_toList, TreeSet.mem_diff_iff, TreeSet.mem_inter_iff]
  tauto

theorem mem_toDisassociate {known output : TreeSet String} {text : String} :
    text ∈ toDisassociate known output ↔ text ∈ known ∧ text ∉ output := by
  rw [toDisassociate, TreeSet.mem_toList, TreeSet.mem_diff_iff, TreeSet.mem_inter_iff]
  tauto

/-- The loop over the stations for one of the two commands; `interface_bssid.at` is called
in the loop, so that an interface without a BSSID fails only if there is a station. -/
def stationTexts (bssid : Option String) (command : String) (stations : List String) :
    Option (List String) :=
  stations.mapM fun macAddress => bssid.map fun b => stationText command b macAddress

@[simp] theorem stationTexts_some (bssid command : String) (stations : List String) :
    stationTexts (some bssid) command stations =
      some (stations.map (stationText command bssid)) := by
  unfold stationTexts
  induction stations with
  | nil => rfl
  | cons station stations ih =>
    rw [List.mapM_cons, ih]
    rfl

theorem stationTexts_none {command : String} {stations texts : List String}
    (h : stationTexts none command stations = some texts) : texts = [] := by
  cases stations with
  | nil => exact (Option.some.inj h).symm
  | cons station stations => cases h

def checkInterface (agent : DpmAgent) (virtualInterface : String) (output : TreeSet String) :
    Option (DpmAgent × List String) := do
  let known ← agent.interfaceMac[virtualInterface]?
  let bssid := agent.interfaceBssid[virtualInterface]?
  let associations ← stationTexts bssid macAssociateCmd (toAssociate known output)
  let disassociations ← stationTexts bssid macDisassociateCmd (toDisassociate known output)
  return ({ agent with interfaceMac := agent.interfaceMac.insert virtualInterface output },
    associations ++ disassociations)

def differenceTexts (bssid : String) (known output : TreeSet String) : List String :=
  (toAssociate known output).map (stationText macAssociateCmd bssid) ++
    (toDisassociate known output).map (stationText macDisassociateCmd bssid)

theorem checkInterface_eq {agent : DpmAgent} {v bssid : String} {known : TreeSet String}
    (hknown : agent.interfaceMac[v]? = some known) (hbssid : agent.interfaceBssid[v]? = some bssid)
    (output : TreeSet String) :
    agent.checkInterface v output =
      some ({ agent with interfaceMac := agent.interfaceMac.insert v output },
        differenceTexts bssid known output) := by
  simp only [checkInterface, hknown, hbssid, stationTexts_some]
  rfl

/-- What a pass leaves and what it pushes. -/
theorem checkInterface_cases {agent agent' : DpmAgent} {v : String} {output : TreeSet String}
    {texts : List String} (h : agent.checkInterface v output = some (agent', texts)) :
    agent'.interfaceBssid = agent.interfaceBssid ∧ ∃ known ∈ agent.interfaceMac[v]?,
      (texts = [] ∨ ∃ bssid ∈ agent.interfaceBssid[v]?,
        texts = (toAssociate known output).map (stationText macAssociateCmd bssid) ++
          (toDisassociate known output).map (stationText macDisassociateCmd bssid)) := by
  unfold checkInterface at h
  simp only [Option.bind_eq_bind, Option.bind_eq_some_iff, Option.pure_def, Option.some.injEq,
    Prod.mk.injEq] at h
  obtain ⟨known, hknown, associations, ha, disassociations, hd, rfl, rfl⟩ := h
  refine ⟨rfl, known, hknown, ?_⟩
  cases hbssid : agent.interfaceBssid[v]? with
  | none =>
    rw [hbssid] at ha hd
    simp [stationTexts_none ha, stationTexts_none hd]
  | some bssid =>
    rw [hbssid, stationTexts_some, Option.some.injEq] at ha hd
    exact .inr ⟨bssid, rfl, by rw [ha, hd]⟩

def checkInterfaces (agent : DpmAgent) (report : String → TreeSet String) :
    List String → Option (DpmAgent × List String)
  | [] => some (agent, [])
  | virtualInterface :: rest => do
    let (agent, texts) ← agent.checkInterface virtualInterface (report virtualInterface)
    let (agent, more) ← agent.checkInterfaces report rest
    return (agent, texts ++ more)

/-- One round of `timed_check`, over the interfaces in the order of the map. -/
def timedCheck (agent : DpmAgent) (report : String → TreeSet String) :
    Option (DpmAgent × List String) :=
  agent.checkInterfaces report agent.interfaceMac.keys

/-- The maps are about the same interfaces, two of them are inverse to each other, and an
interface is registered under the name that its BSSID is looked up with. -/
structure Consistent (getInterfaceName : String → String) (agent : DpmAgent) : Prop where
  keys : ∀ v : String, v ∈ agent.interfaceMac ↔ v ∈ agent.interfaceBssid
  inverse : ∀ v b : String, agent.interfaceBssid[v]? = some b ↔ agent.bssidInterface[b]? = some v
  lookup : ∀ v b : String, agent.interfaceBssid[v]? = some b → getInterfaceName b = v

section Maps

variable {getInterfaceName : String → String} {agent : DpmAgent}

theorem Consistent.register (h : agent.Consistent getInterfaceName) (bssid : String) :
    (agent.register (getInterfaceName bssid) bssid).Consistent getInterfaceName := by
  by_cases hv : getInterfaceName bssid ∈ agent.interfaceBssid
  · have hmac := (h.keys _).mpr hv
    rw [DpmAgent.register, if_pos hv]
    refine ⟨fun v => ?_, h.inverse, h.lookup⟩
    simp only [TreeMap.mem_insertIfNew, LawfulEqCmp.compare_eq_iff_eq]
    rw [← h.keys]
    constructor
    · rintro (rfl | hm)
      · exact hmac
      · exact hm
    · exact .inr
  · -- the BSSID is no key either, its interface would be the one looked up
    have hb : bssid ∉ agent.bssidInterface := by
      intro hb
      obtain ⟨v, hbv⟩ := Option.isSome_iff_exists.mp (TreeMap.mem_iff_isSome_getElem?.mp hb)
      have hvb := (h.inverse v bssid).mpr hbv
      rw [h.lookup v bssid hvb] at hv
      exact hv (TreeMap.mem_iff_isSome_getElem?.mpr (by rw [hvb]; rfl))
    rw [DpmAgent.register, if_neg hv]
    refine ⟨fun v => ?_, fun v b => ?_, fun v b hvb => ?_⟩
    · simp only [TreeMap.mem_insertIfNew, h.keys]
    · simp only [TreeMap.getElem?_insertIfNew, LawfulEqCmp.compare_eq_iff_eq]
      have hnew : agent.interfaceBssid[getInterfaceName bssid]? = none := by simpa using hv
      have hnew' : agent.bssidInterface[bssid]? = none := by simpa using hb
      by_cases hev : getInterfaceName bssid = v
      · subst hev
        by_cases heb : bssid = b
        · subst heb
          simp [hv, hb]
        · have hne : agent.bssidInterface[b]? ≠ some (getInterfaceName bssid) := by
            rw [Ne, ← h.inverse, hnew]
            exact nofun
          simp [hv, heb, hne]
      · by_cases heb : bssid = b
        · subst heb
          have hne : agent.interfaceBssid[v]? ≠ some bssid := by
            rw [Ne, h.inverse, hnew']
            exact nofun
          simp [hb, hev, hne]
        · simp [hev, heb, h.inverse]
    · simp only [TreeMap.getElem?_insertIfNew, LawfulEqCmp.compare_eq_iff_eq] at hvb
      split_ifs at hvb with he
      · rw [← Option.some.inj hvb, he.1]
      · exact h.lookup v b hvb

theorem Consistent.unregister (h : agent.Consistent getInterfaceName) (v : String) :
    (agent.unregister v).agent.Consistent getInterfaceName := by
  cases hmac : agent.interfaceMac[v]? with
  | none => simpa [DpmAgent.unregister, hmac] using h
  | some stations =>
    have hv : v ∈ agent.interfaceBssid := by
      rw [← h.keys, TreeMap.mem_iff_isSome_getElem?, hmac]
      rfl
    obtain ⟨bssid, hbssid⟩ := Option.isSome_iff_exists.mp (TreeMap.mem_iff_isSome_getElem?.mp hv)
    simp only [DpmAgent.unregister, hmac, hbssid]
    refine ⟨fun u => ?_, fun u b => ?_, fun u b hub => ?_⟩
    · simp only [TreeMap.mem_erase, h.keys]
    · simp only [TreeMap.getElem?_erase, LawfulEqCmp.compare_eq_iff_eq]
      -- the interface of the erased BSSID is the erased one
      have hsame : agent.interfaceBssid[u]? = some b → (v = u ↔ bssid = b) := by
        intro hub
        constructor
        · rintro rfl
          exact Option.some.inj (hbssid.symm.trans hub)
        · rintro rfl
          have hu := (h.inverse u bssid).mp hub
          exact Option.some.inj (((h.inverse v bssid).mp hbssid).symm.trans hu)
      constructor
      · intro hub
        split_ifs at hub with hvu
        rw [if_neg (fun he => hvu ((hsame hub).mpr he))]
        exact (h.inverse u b).mp hub
      · intro hbu
        split_ifs at hbu with hbb
        have hub := (h.inverse u b).mpr hbu
        rw [if_neg (fun he => hbb ((hsame hub).mp he))]
        exact hub
    · simp only [TreeMap.getElem?_erase] at hub
      split_ifs at hub
      exact h.lookup u b hub

/-- Any call of `sync`, also one that ends in an exception. -/
theorem Consistent.sync (h : agent.Consistent getInterfaceName) (op : NodeOp) (msg : String) :
    (agent.sync getInterfaceName op msg).agent.Consistent getInterfaceName := by
  cases op with
  | bssidAdd => exact h.register msg
  | bssidRemove => exact h.unregister (getInterfaceName msg)
  | _ => exact h

/-- A pass finds the BSSID of its interface, and changes the stations only. -/
theorem Consistent.checkInterface (h : agent.Consistent getInterfaceName) {v : String}
    (hv : v ∈ agent.interfaceMac) (output : TreeSet String) :
    ∃ agent' texts, agent.checkInterface v output = some (agent', texts) ∧
      agent'.Consistent getInterfaceName ∧
      ∀ u, u ∈ agent'.interfaceMac ↔ u ∈ agent.interfaceMac := by
  obtain ⟨known, hknown⟩ := Option.isSome_iff_exists.mp (TreeMap.mem_iff_isSome_getElem?.mp hv)
  obtain ⟨bssid, hbssid⟩ :=
    Option.isSome_iff_exists.mp (TreeMap.mem_iff_isSome_getElem?.mp ((h.keys v).mp hv))
  have hkeys : ∀ u, u ∈ agent.interfaceMac.insert v output ↔ u ∈ agent.interfaceMac := by
    intro u
    simp only [TreeMap.mem_insert, LawfulEqCmp.compare_eq_iff_eq]
    constructor
    · rintro (rfl | hu)
      · exact hv
      · exact hu
    · exact .inr
  refine ⟨_, _, checkInterface_eq hknown hbssid output, ?_, hkeys⟩
  exact ⟨fun u => (hkeys u).trans (h.keys u), h.inverse, h.lookup⟩

theorem Consistent.checkInterfaces (h : agent.Consistent getInterfaceName)
    (report : String → TreeSet String) {interfaces : List String}
    (hv : ∀ v ∈ interfaces, v ∈ agent.interfaceMac) :
    ∃ agent' texts, agent.checkInterfaces report interfaces = some (agent', texts) ∧
      agent'.Consistent getInterfaceName := by
  induction interfaces generalizing agent with
  | nil => exact ⟨agent, [], rfl, h⟩
  | cons v interfaces ih =>
    obtain ⟨agent₁, texts, hcheck, h₁, hkeys⟩ := h.checkInterface (hv v (by simp)) (report v)
    obtain ⟨agent₂, more, hmore, h₂⟩ := ih h₁ fun u hu => (hkeys u).mpr (hv u (by simp [hu]))
    exact ⟨agent₂, texts ++ more, by simp [DpmAgent.checkInterfaces, hcheck, hmore], h₂⟩

/-- A round of `timed_check` always comes to its end. -/
theorem Consistent.timedCheck (h : agent.Consistent getInterfaceName)
    (report : String → TreeSet String) :
    ∃ agent' texts, agent.timedCheck report = some (agent', texts) ∧
      agent'.Consistent getInterfaceName :=
  h.checkInterfaces report fun _ hv => TreeMap.mem_keys.mp hv

end Maps

inductive Action
  | sync (op : NodeOp) (msg : String)
  | timedCheck (report : String → TreeSet String)

/-- The agent with a fixed lookup of interfaces: a call of `sync` that ends in an exception
leaves what it has done so far, a round that does is a step that cannot be taken. -/
def machine (getInterfaceName : String → String) : Transition.Machine DpmAgent Action where
  init := ⟨∅, ∅, ∅⟩
  step agent
    | .sync op msg => some (agent.sync getInterfaceName op msg).agent
    | .timedCheck report => (agent.timedCheck report).map Prod.fst

theorem consistent_init (getInterfaceName : String → String) :
    (machine getInterfaceName).init.Consistent getInterfaceName := by
  constructor <;> simp [machine]

theorem Consistent.step {getInterfaceName : String → String} {agent : DpmAgent}
    (h : agent.Consistent getInterfaceName) (action : Action) :
    ∃ agent', (machine getInterfaceName).step agent action = some agent' ∧
      agent'.Consistent getInterfaceName := by
  cases action with
  | sync op msg => exact ⟨_, rfl, h.sync op msg⟩
  | timedCheck report =>
    obtain ⟨agent', texts, hcheck, h'⟩ := h.timedCheck report
    exact ⟨agent', by simp [machine, hcheck], h'⟩

theorem Consistent.exec {getInterfaceName : String → String} {agent : DpmAgent}
    (h : agent.Consistent getInterfaceName) (actions : List Action) :
    ∃ agent', (machine getInterfaceName).exec agent actions = some agent' ∧
      agent'.Consistent getInterfaceName := by
  induction actions generalizing agent with
  | nil => exact ⟨agent, rfl, h⟩
  | cons action actions ih =>
    obtain ⟨agent₁, hstep, h₁⟩ := h.step action
    obtain ⟨agent₂, hexec, h₂⟩ := ih h₁
    exact ⟨agent₂, by simp [Transition.Machine.exec, hstep, hexec], h₂⟩

/-- Whatever calls and rounds there were, the maps have the same interfaces, are inverse to
each other, and `interface_bssid.at` finds its key in the next round. -/
theorem dpm_maps_consistent (getInterfaceName : String → String) (actions : List Action) :
    ∃ agent, (machine getInterfaceName).exec (machine getInterfaceName).init actions = some agent ∧
      (∀ v : String, v ∈ agent.interfaceMac ↔ v ∈ agent.interfaceBssid) ∧
      (∀ v b : String, agent.interfaceBssid[v]? = some b ↔ agent.bssidInterface[b]? = some v) ∧
      (∀ v u b : String, agent.interfaceBssid[v]? = some b →
        agent.interfaceBssid[u]? = some b → v = u) ∧
      ∀ report, (agent.timedCheck report).isSome := by
  obtain ⟨agent, hexec, h⟩ := (consistent_init getInterfaceName).exec actions
  refine ⟨agent, hexec, h.keys, h.inverse, fun v u b hv hu => ?_, fun report => ?_⟩
  · rw [← h.lookup v b hv, h.lookup u b hu]
  · obtain ⟨agent', texts, hcheck, -⟩ := h.timedCheck report
    rw [hcheck]
    rfl

end DpmAgent

end AuroraRelay
