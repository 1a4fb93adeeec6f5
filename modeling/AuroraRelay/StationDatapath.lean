import Mathlib.Data.List.Sort
import Mathlib.Tactic.IntervalCases
import AuroraRelay.Lib.Reconciliation
import AuroraRelay.Execution
import AuroraRelay.RemoveFlows

/-!
# Stations and their uplinks

`timed_check` compares what hostapd reports with what it last saw, interface by interface,
and queues a command for every difference; the commands go through `parse_json` and
`DPMAgent::sync` to the switch.  The uplinks of the switch follow the reports, except for a
station that has gone back to an interface with a smaller name: `disassociate` deletes the
uplink of the station, whichever interface it leads to.
-/

namespace AuroraRelay
open CommsAgent Datapath Std WarpProtocol

def lowerHexDigit (n : ℕ) : Char :=
  if n < 10 then Char.ofNat ('0'.toNat + n) else Char.ofNat ('a'.toNat + (n - 10))

/-- `%02x`. -/
def octetText (octet : UInt8) : List Char :=
  [lowerHexDigit (octet.toNat / 16), lowerHexDigit (octet.toNat % 16)]

/-- `MACSTR` of hostapd. -/
def macText (m : Mac) : String :=
  String.ofList (octetText m[0] ++ ':' :: octetText m[1] ++ ':' :: octetText m[2] ++
    ':' :: octetText m[3] ++ ':' :: octetText m[4] ++ ':' :: octetText m[5])

theorem hexDigit_lowerHexDigit (n : Fin 16) :
    hexDigit (lowerHexDigit n) = some (UInt8.ofNat n) := by
  revert n
  decide

theorem exists_digits_of_octet (octet : UInt8) : ∃ c d v w, octetText octet = [c, d] ∧
    hexDigit c = some v ∧ hexDigit d = some w ∧ 16 * v + w = octet := by
  have hbound := octet.toNat_lt
  refine ⟨_, _, _, _, rfl, hexDigit_lowerHexDigit ⟨octet.toNat / 16, by omega⟩,
    hexDigit_lowerHexDigit ⟨octet.toNat % 16, by omega⟩, ?_⟩
  apply UInt8.toNat_inj.mp
  simp
  omega

theorem spells_octetText (octet : UInt8) : Spells (octetText octet) [octet] := by
  obtain ⟨c, d, v, w, htext, hc, hd, rfl⟩ := exists_digits_of_octet octet
  rw [htext]
  exact .last hc hd

theorem spells_octetText_append (octet : UInt8) {text : List Char} {octets : List UInt8}
    (h : Spells text octets) : Spells (octetText octet ++ ':' :: text) (octet :: octets) := by
  obtain ⟨c, d, v, w, htext, hc, hd, rfl⟩ := exists_digits_of_octet octet
  rw [htext]
  exact .more hc hd h

theorem isMacText_macText (m : Mac) : IsMacText (macText m) m := by
  have hm : m.toList = [m[0], m[1], m[2], m[3], m[4], m[5]] := by
    apply List.ext_getElem
    · simp
    · intro i hi hi'
      have : i < 6 := by simpa using hi
      interval_cases i <;> rfl
  rw [IsMacText, macText, String.toList_ofList, hm]
  simp only [List.append_assoc, List.cons_append]
  exact spells_octetText_append _ <| spells_octetText_append _ <| spells_octetText_append _ <|
    spells_octetText_append _ <| spells_octetText_append _ <| spells_octetText _

theorem parseMac_macText (m : Mac) : parseMac (macText m) = some m :=
  parseMac_of_isMacText (isMacText_macText m)

theorem macText_injective : Function.Injective macText := by
  intro m m' h
  have hparse := congrArg parseMac h
  rwa [parseMac_macText, parseMac_macText, Option.some.injEq] at hparse

/-- A character that JSON takes as it is, and not the bar of the messages to `sync`. -/
def PlainChar (c : Char) : Prop := c ∉ ['"', '\\', '|'] ∧ ' ' ≤ c

instance (c : Char) : Decidable (PlainChar c) := inferInstanceAs (Decidable (_ ∧ _))

def PlainText (text : String) : Prop := ∀ c ∈ text.toList, PlainChar c

instance (text : String) : Decidable (PlainText text) := List.decidableBAll _ _

structure PlainAddress (text : String) (b : Mac) : Prop where
  parse : parseMac text = some b
  plain : PlainText text

theorem PlainAddress.json {text : String} {b : Mac} (h : PlainAddress text b) :
    JsonPlain text := by
  intro c hc
  have := h.plain c hc
  simp only [PlainChar, List.mem_cons, not_or] at this
  exact ⟨this.1.1, this.1.2.1, this.2⟩

theorem PlainAddress.no_bar {text : String} {b : Mac} (h : PlainAddress text b) :
    '|' ∉ text.toList :=
  fun hbar => absurd (h.plain _ hbar) (by decide)

theorem lowerHexDigit_plain (n : Fin 16) : PlainChar (lowerHexDigit n) := by
  revert n
  decide

theorem octetText_plain (octet : UInt8) : ∀ c ∈ octetText octet, PlainChar c := by
  have hbound := octet.toNat_lt
  unfold octetText
  rw [List.forall_mem_cons, List.forall_mem_cons]
  exact ⟨lowerHexDigit_plain ⟨octet.toNat / 16, by omega⟩,
    lowerHexDigit_plain ⟨octet.toNat % 16, by omega⟩, by simp⟩

theorem plainAddress_macText (m : Mac) : PlainAddress (macText m) m := by
  refine ⟨parseMac_macText m, ?_⟩
  have hcolon : PlainChar ':' := by decide
  unfold PlainText
  simp only [macText, String.toList_ofList, List.forall_mem_append, List.forall_mem_cons]
  simp only [eq_true (octetText_plain _), eq_true hcolon, and_true]

abbrev Report := String → TreeSet String

def DpmAgent.timedChecks (agent : DpmAgent) : List Report → Option (DpmAgent × List String)
  | [] => some (agent, [])
  | report :: rounds => do
    let (agent, texts) ← agent.timedCheck report
    let (agent, more) ← agent.timedChecks rounds
    return (agent, texts ++ more)

def World.process (S : Surroundings) (jsonLoads : String → Option Json) (w : World)
    (queue : List String) : World :=
  queue.foldl (fun w text => w.after S (parseJson jsonLoads text)) w

/-- All the rounds, then all the commands that they have queued. -/
def pollThenProcess (S : Surroundings) (jsonLoads : String → Option Json) (w : World)
    (rounds : List Report) : Option World := do
  let (agent, queue) ← w.agent.timedChecks rounds
  return ({ w with agent := agent } : World).process S jsonLoads queue

def World.portOf (w : World) (interface : String) : ℕ :=
  w.bridge.index (DpmAgent.createVirtualInterface interface)

def World.ethernetPort (w : World) : ℕ := w.bridge.index DpmAgent.ethernetInterface

/-- The interfaces have been added and no station has been seen yet. -/
structure Registered (S : Surroundings) (w : World) : Prop where
  bssid : ∀ v ∈ w.agent.interfaceMac, ∃ text b, w.agent.interfaceBssid[v]? = some text ∧
    PlainAddress text b ∧ S.getInterfaceName text = v
  unseen : ∀ v ∈ w.agent.interfaceMac, w.agent.interfaceMac[v]? = some ∅
  bound : ∀ v ∈ w.agent.interfaceMac, w.portOf v ≠ 0
  own_port : ∀ u ∈ w.agent.interfaceMac, ∀ v ∈ w.agent.interfaceMac,
    w.portOf u = w.portOf v → u = v
  ethernet : w.ethernetPort ≠ 0
  no_uplinks : ∀ f ∈ w.bridge.flows, ¬IsUplink w.ethernetPort f

/-- Every station is printed as its address and is on one interface at most. -/
structure IsReport (w : World) (report : Report) : Prop where
  printed : ∀ v ∈ w.agent.interfaceMac, ∀ text ∈ report v, ∃ m, text = macText m
  once : ∀ m, ∀ u ∈ w.agent.interfaceMac, ∀ v ∈ w.agent.interfaceMac,
    macText m ∈ report u → macText m ∈ report v → u = v

def lastReport (rounds : List Report) : Report := rounds.getLast?.getD fun _ => ∅

def reportedAt (w : World) (m : Mac) (report : Report) : Set String :=
  {v | v ∈ w.agent.interfaceMac ∧ macText m ∈ report v}

/-- The uplinks of the switch are those of the reported stations, to the right ports. -/
structure FollowsHostapd (w : World) (bridge : Bridge) (report : Report) : Prop where
  reported : ∀ m, ∀ v ∈ reportedAt w m report, ∀ protocol ∈ supportedProtocol,
    uplink w.ethernetPort m protocol (w.portOf v) ∈ bridge.flows
  unreported : ∀ f ∈ bridge.flows, IsUplink w.ethernetPort f →
    ∃ m v, f.pattern.dlSrc = some m ∧ v ∈ reportedAt w m report

section
variable {S : Surroundings} {jsonLoads : String → Option Json} {w w₁ : World}
  {routes : Mac → Option ℕ}

structure Routed (w w₁ : World) (routes : Mac → Option ℕ) : Prop where
  ports : w₁.bridge.ports = w.bridge.ports
  carries : Carries w₁.bridge w.ethernetPort routes

theorem process_append (w : World) (queue more : List String) :
    w.process S jsonLoads (queue ++ more) =
      (w.process S jsonLoads queue).process S jsonLoads more :=
  List.foldl_append

theorem ports_of_index {bridge : Bridge} {interface : String} (h : bridge.index interface ≠ 0) :
    bridge.ports interface = some (bridge.index interface) := by
  unfold Bridge.index at h ⊢
  cases hp : bridge.ports interface with
  | none => simp [hp] at h
  | some n => rfl

/-- A command that is completed reaches the switch through `sync`. -/
theorem process_bridge (hS : Confirms S.warp) {text : String} {P : Plan}
    (hP : completionOf jsonLoads text = some P) :
    (w₁.process S jsonLoads [text]).bridge =
      (w₁.agent.sync S.getInterfaceName P.op P.text).commands.foldl
        (executeCommand S.newPort S.ofctl) w₁.bridge := by
  have hdoes := parseJson_does (w := w₁) hS jsonLoads text
  rw [hP] at hdoes
  obtain ⟨packets, -, hafter⟩ := hdoes
  change (w₁.after S (parseJson jsonLoads text)).bridge = _
  rw [hafter]
  rfl

theorem process_station (op : StationOp) (w₁ : World) (hS : Confirms S.warp)
    (hj : ReadsStations jsonLoads) {text : String} {b : Mac} (htext : PlainAddress text b)
    (m : Mac) : (w₁.process S jsonLoads [DpmAgent.stationText op.command text (macText m)]).bridge =
      executeCommand S.newPort S.ofctl w₁.bridge
        (DpmAgent.call op (macText m) (S.getInterfaceName text)) := by
  have hm := plainAddress_macText m
  have hP := completionOf_station op hj htext.json hm.json
  rw [htext.parse, hm.parse] at hP
  rw [process_bridge hS hP, DpmAgent.sync_station op _ _ htext.no_bar]
  simp only [List.foldl_cons, List.foldl_nil]

theorem routed_associate (hS : Confirms S.warp) (hj : ReadsStations jsonLoads) (hw : Registered S w)
    {v text : String} {b : Mac} (hv : v ∈ w.agent.interfaceMac) (htext : PlainAddress text b)
    (hname : S.getInterfaceName text = v) (h : Routed w w₁ routes) (m : Mac) :
    Routed w (w₁.process S jsonLoads [DpmAgent.stationText macAssociateCmd text (macText m)])
      (Function.update routes m (some (w.portOf v))) := by
  have hvport : w₁.bridge.ports (DpmAgent.createVirtualInterface v) = some (w.portOf v) :=
    h.ports ▸ ports_of_index (hw.bound v hv)
  have heport : w₁.bridge.ports DpmAgent.ethernetInterface = some w.ethernetPort :=
    h.ports ▸ ports_of_index hw.ethernet
  have hbridge : (w₁.process S jsonLoads
      [DpmAgent.stationText macAssociateCmd text (macText m)]).bridge =
      associate S.ofctl w₁.bridge (DpmAgent.createVirtualInterface v) DpmAgent.ethernetInterface
        (macText m) := by
    rw [← hname]
    exact process_station .associate w₁ hS hj htext m
  constructor
  · rw [hbridge, associate_eq hvport (hw.bound v hv) heport hw.ethernet
      (S.ofctl.full _ _ (isMacText_macText m))]
    exact h.ports
  · rw [hbridge]
    exact carries_associate h.carries hvport (hw.bound v hv) heport hw.ethernet
      (S.ofctl.full _ _ (isMacText_macText m))

theorem routed_disassociate (hS : Confirms S.warp) (hj : ReadsStations jsonLoads)
    (hw : Registered S w) {text : String} {b : Mac} (htext : PlainAddress text b)
    (h : Routed w w₁ routes) (m : Mac) :
    Routed w (w₁.process S jsonLoads [DpmAgent.stationText macDisassociateCmd text (macText m)])
      (Function.update routes m none) := by
  have heport : w₁.bridge.ports DpmAgent.ethernetInterface = some w.ethernetPort :=
    h.ports ▸ ports_of_index hw.ethernet
  have hbridge : (w₁.process S jsonLoads
      [DpmAgent.stationText macDisassociateCmd text (macText m)]).bridge =
      disassociate S.ofctl w₁.bridge (DpmAgent.createVirtualInterface (S.getInterfaceName text))
        DpmAgent.ethernetInterface (macText m) :=
    process_station .disassociate w₁ hS hj htext m
  constructor
  · rw [hbridge, disassociate_eq heport (S.ofctl.full _ _ (isMacText_macText m))]
    exact h.ports
  · rw [hbridge]
    exact carries_disassociate h.carries heport (S.ofctl.full _ _ (isMacText_macText m))

/-- One kind of command for several stations: those that are named get the outcome. -/
theorem routed_stations {command text : String} {outcome : Option ℕ}
    (hstep : ∀ w₁ routes m, Routed w w₁ routes →
      Routed w (w₁.process S jsonLoads [DpmAgent.stationText command text (macText m)])
        (Function.update routes m outcome))
    {stations : List String} (hprinted : ∀ station ∈ stations, ∃ m, station = macText m)
    (h : Routed w w₁ routes) :
    Routed w (w₁.process S jsonLoads (stations.map (DpmAgent.stationText command text)))
      fun m => if macText m ∈ stations then outcome else routes m := by
  induction stations generalizing w₁ routes with
  | nil => simpa [World.process] using h
  | cons station stations ih =>
    obtain ⟨m₀, rfl⟩ := hprinted station (by simp)
    have hrest := ih (fun s hs => hprinted s (by simp [hs])) (hstep w₁ routes m₀ h)
    rw [List.map_cons, ← List.singleton_append, process_append]
    convert hrest using 2 with m
    by_cases hm : m = m₀
    · simp [hm]
    · simp [hm, macText_injective.eq_iff]

structure KnowsReport (w : World) (agent : DpmAgent) (known : Report) : Prop where
  bssids : agent.interfaceBssid = w.agent.interfaceBssid
  stations : ∀ v ∈ w.agent.interfaceMac, agent.interfaceMac[v]? = some (known v)
  interfaces : ∀ v, v ∈ agent.interfaceMac ↔ v ∈ w.agent.interfaceMac

/-- One interface's pass: the agent knows the new stations, and the commands, whenever they
are worked off, change the routes as one visit does. -/
theorem checkInterface_routed (hS : Confirms S.warp) (hj : ReadsStations jsonLoads)
    (hw : Registered S w) {old report : Report} (hold : IsReport w old)
    (hreport : IsReport w report) {agent : DpmAgent} {known : Report}
    (hk : KnowsReport w agent known) {v : String} (hv : v ∈ w.agent.interfaceMac)
    (hunvisited : known v = old v) :
    ∃ agent' texts, agent.checkInterface v (report v) = some (agent', texts) ∧
      KnowsReport w agent' (Function.update known v (report v)) ∧
      ∀ w₁ routes, Routed w w₁ routes → Routed w (w₁.process S jsonLoads texts) fun m =>
        Reconciliation.visit w.portOf (reportedAt w m old) (reportedAt w m report)
          (routes m) v := by
  obtain ⟨text, b, hbssid, htext, hname⟩ := hw.bssid v hv
  have hcheck : agent.checkInterface v (report v) =
      some ({ agent with interfaceMac := agent.interfaceMac.insert v (report v) },
        (DpmAgent.toAssociate (old v) (report v)).map
          (DpmAgent.stationText macAssociateCmd text) ++
        (DpmAgent.toDisassociate (old v) (report v)).map
          (DpmAgent.stationText macDisassociateCmd text)) := by
    simp [DpmAgent.checkInterface, hk.stations v hv, hk.bssids, hbssid, hunvisited]
  refine ⟨_, _, hcheck, ⟨hk.bssids, ?_, ?_⟩, ?_⟩
  · intro u hu
    rw [TreeMap.getElem?_insert]
    by_cases huv : u = v
    · simp [huv]
    · rw [if_neg fun h => huv (Std.compare_eq_iff_eq.mp h).symm, Function.update_of_ne huv]
      exact hk.stations u hu
  · intro u
    rw [TreeMap.mem_insert, hk.interfaces]
    constructor
    · rintro (huv | hu)
      · rwa [← Std.compare_eq_iff_eq.mp huv]
      · exact hu
    · exact .inr
  · intro w₁ routes h
    have hnew : ∀ station ∈ DpmAgent.toAssociate (old v) (report v), ∃ m, station = macText m :=
      fun station hs => hreport.printed v hv station (DpmAgent.mem_toAssociate.mp hs).1
    have hgone : ∀ station ∈ DpmAgent.toDisassociate (old v) (report v),
        ∃ m, station = macText m :=
      fun station hs => hold.printed v hv station (DpmAgent.mem_toDisassociate.mp hs).1
    have hassociated := routed_stations
      (fun _ _ m h => routed_associate hS hj hw hv htext hname h m) hnew h
    have hdone := routed_stations
      (fun _ _ m h => routed_disassociate hS hj hw htext h m) hgone hassociated
    rw [process_append]
    convert hdone using 2 with m
    simp only [DpmAgent.mem_toAssociate, DpmAgent.mem_toDisassociate, Reconciliation.visit,
      reportedAt, Set.mem_ofPred_eq, hv, true_and]
    -- a station is not both new and gone
    by_cases hm : macText m ∈ report v <;> simp [hm]

/-- The passes over some of the interfaces, none of which has been visited in the round. -/
theorem checkInterfaces_routed (hS : Confirms S.warp) (hj : ReadsStations jsonLoads)
    (hw : Registered S w) {old report : Report} (hold : IsReport w old)
    (hreport : IsReport w report) {interfaces : List String} (hnodup : interfaces.Nodup)
    (hsub : ∀ v ∈ interfaces, v ∈ w.agent.interfaceMac) {agent : DpmAgent} {known : Report}
    (hk : KnowsReport w agent known) (hunvisited : ∀ v ∈ interfaces, known v = old v) :
    ∃ agent' texts, agent.checkInterfaces report interfaces = some (agent', texts) ∧
      KnowsReport w agent' (fun v => if v ∈ interfaces then report v else known v) ∧
      ∀ w₁ routes, Routed w w₁ routes → Routed w (w₁.process S jsonLoads texts) fun m =>
        Reconciliation.settle w.portOf interfaces (reportedAt w m old) (reportedAt w m report)
          (routes m) := by
  induction interfaces generalizing agent known with
  | nil => exact ⟨agent, [], rfl, by simpa using hk, fun w₁ routes h => h⟩
  | cons v interfaces ih =>
    obtain ⟨hv, hnodup⟩ := List.nodup_cons.mp hnodup
    obtain ⟨agent₁, texts, hcheck, hk₁, hrouted⟩ := checkInterface_routed hS hj hw hold hreport hk
      (hsub v (by simp)) (hunvisited v (by simp))
    -- no interface comes twice, so the others are still known by the old report
    have hrest : ∀ u ∈ interfaces, Function.update known v (report v) u = old u := by
      intro u hu
      have huv : u ≠ v := by
        rintro rfl
        exact hv hu
      rw [Function.update_of_ne huv]
      exact hunvisited u (by simp [hu])
    obtain ⟨agent₂, more, hchecks, hk₂, hrouted₂⟩ :=
      ih hnodup (fun u hu => hsub u (by simp [hu])) hk₁ hrest
    refine ⟨agent₂, texts ++ more, by simp [DpmAgent.checkInterfaces, hcheck, hchecks], ?_, ?_⟩
    · convert hk₂ using 2 with u
      by_cases huv : u = v
      · subst huv
        simp [hv]
      · simp [huv]
    · intro w₁ routes h
      rw [process_append]
      exact hrouted₂ _ _ (hrouted _ _ h)

theorem keys_pairwise (map : TreeMap String (TreeSet String)) : map.keys.Pairwise (· < ·) :=
  TreeMap.ordered_keys.imp compare_lt_iff_lt.mp

theorem KnowsReport.keys {agent : DpmAgent} {known : Report} (hk : KnowsReport w agent known) :
    agent.interfaceMac.keys = w.agent.interfaceMac.keys := by
  apply (keys_pairwise _).eq_of_mem_iff (keys_pairwise _)
  intro v
  rw [TreeMap.mem_keys, TreeMap.mem_keys]
  exact hk.interfaces v

theorem timedCheck_routed (hS : Confirms S.warp) (hj : ReadsStations jsonLoads)
    (hw : Registered S w) {old report : Report} (hold : IsReport w old)
    (hreport : IsReport w report) {agent : DpmAgent} (hk : KnowsReport w agent old) :
    ∃ agent' texts, agent.timedCheck report = some (agent', texts) ∧ KnowsReport w agent' report ∧
      ∀ w₁ routes, Routed w w₁ routes → Routed w (w₁.process S jsonLoads texts) fun m =>
        Reconciliation.settle w.portOf w.agent.interfaceMac.keys (reportedAt w m old)
          (reportedAt w m report) (routes m) := by
  have hnodup : w.agent.interfaceMac.keys.Nodup := (keys_pairwise _).imp fun h => h.ne
  obtain ⟨agent', texts, hcheck, hk', hrouted⟩ := checkInterfaces_routed hS hj hw hold hreport
    hnodup (fun v => TreeMap.mem_keys.mp) hk fun _ _ => rfl
  refine ⟨agent', texts, ?_, ⟨hk'.bssids, ?_, hk'.interfaces⟩, hrouted⟩
  · rw [DpmAgent.timedCheck, hk.keys]
    exact hcheck
  · intro v hv
    rw [hk'.stations v hv, if_pos (TreeMap.mem_keys.mpr hv)]

theorem timedChecks_routed (hS : Confirms S.warp) (hj : ReadsStations jsonLoads)
    (hw : Registered S w) {rounds : List Report}
    (hrounds : ∀ report ∈ rounds, IsReport w report) {old : Report} (hold : IsReport w old)
    {agent : DpmAgent} (hk : KnowsReport w agent old) :
    ∃ agent' queue, agent.timedChecks rounds = some (agent', queue) ∧
      ∀ w₁ routes, Routed w w₁ routes → Routed w (w₁.process S jsonLoads queue) fun m =>
        ((rounds.map (reportedAt w m)).foldl (fun s new => (new,
          Reconciliation.settle w.portOf w.agent.interfaceMac.keys s.1 new s.2))
          (reportedAt w m old, routes m)).2 := by
  induction rounds generalizing agent old with
  | nil => exact ⟨agent, [], rfl, fun w₁ routes h => h⟩
  | cons report rounds ih =>
    have hreport := hrounds report (by simp)
    obtain ⟨agent₁, texts, hcheck, hk₁, hrouted⟩ := timedCheck_routed hS hj hw hold hreport hk
    obtain ⟨agent₂, more, hchecks, hrouted₂⟩ :=
      ih (fun r hr => hrounds r (by simp [hr])) hreport hk₁
    refine ⟨agent₂, texts ++ more, by simp [DpmAgent.timedChecks, hcheck, hchecks], ?_⟩
    intro w₁ routes h
    rw [process_append]
    exact hrouted₂ _ _ (hrouted _ _ h)

theorem reportedAt_empty (m : Mac) : reportedAt w m (fun _ => ∅) = ∅ := by
  ext v
  simp [reportedAt]

theorem current_reports (rounds : List Report) (m : Mac) :
    Reconciliation.current (rounds.map (reportedAt w m)) = reportedAt w m (lastReport rounds) := by
  unfold Reconciliation.current lastReport
  rw [List.getLast?_map]
  cases rounds.getLast? with
  | none => exact (reportedAt_empty m).symm
  | some report => rfl

/-- The uplinks after any rounds, station by station. -/
theorem pollThenProcess_tracks (hS : Confirms S.warp) (hj : ReadsStations jsonLoads)
    (hw : Registered S w) (rounds : List Report) (hrounds : ∀ report ∈ rounds, IsReport w report) :
    ∃ w' routes, pollThenProcess S jsonLoads w rounds = some w' ∧
      Carries w'.bridge w.ethernetPort routes ∧
      ∀ m, Reconciliation.Tracks w.portOf (rounds.map (reportedAt w m)) (routes m) := by
  have hnone : IsReport w fun _ => ∅ := by
    constructor <;> simp
  have hk : KnowsReport w w.agent fun _ => ∅ := ⟨rfl, hw.unseen, fun _ => Iff.rfl⟩
  obtain ⟨agent, queue, hchecks, hrouted⟩ := timedChecks_routed hS hj hw hrounds hnone hk
  have hstart : Routed w { w with agent := agent } fun _ => none := by
    refine ⟨rfl, fun f => ?_⟩
    simp only [reduceCtorEq, false_and, and_false, exists_false, iff_false, not_and]
    exact hw.no_uplinks f
  refine ⟨_, _, by simp [pollThenProcess, hchecks], (hrouted _ _ hstart).carries, fun m => ?_⟩
  rw [reportedAt_empty]
  apply Reconciliation.tracks_follow (keys_pairwise _)
  · intro r hr
    obtain ⟨report, hmem, rfl⟩ := List.mem_map.mp hr
    intro u hu v hv
    exact (hrounds report hmem).once m u hu.1 v hv.1 hu.2 hv.2
  · intro r hr v hv
    obtain ⟨report, -, rfl⟩ := List.mem_map.mp hr
    exact TreeMap.mem_keys.mpr hv.1

/-- A station that has been left behind has no uplink. -/
theorem not_follows_of_leftBehind {bridge : Bridge} {rounds : List Report} {m : Mac} {v : String}
    (hcarries : Carries bridge w.ethernetPort routes)
    (htracks : Reconciliation.Tracks w.portOf (rounds.map (reportedAt w m)) (routes m))
    (hbehind : Reconciliation.LeftBehind (rounds.map (reportedAt w m)) v) :
    ¬FollowsHostapd w bridge (lastReport rounds) := by
  intro hfollows
  have hv := hbehind.mem_current
  have hroute := htracks.behind v hv hbehind
  rw [current_reports] at hv
  have hflow := hfollows.reported m v hv 0x0800 (by decide)
  obtain ⟨m', protocol, output, -, hr, heq⟩ := (hcarries _).mp ⟨hflow, isUplink_uplink ..⟩
  have hm : m = m' := by simpa [uplink] using (congrArg (fun f => f.pattern.dlSrc) heq)
  rw [← hm, hroute] at hr
  cases hr

/-- The uplinks follow hostapd exactly if no station has been left behind: if none has come,
in one round, to its present interface from one that sorts after it. -/
theorem uplinks_follow_hostapd_iff (hS : Confirms S.warp) (hj : ReadsStations jsonLoads)
    (hw : Registered S w) (rounds : List Report) (hrounds : ∀ report ∈ rounds, IsReport w report) :
    ∃ w', pollThenProcess S jsonLoads w rounds = some w' ∧
      (FollowsHostapd w w'.bridge (lastReport rounds) ↔
        ∀ m v, ¬Reconciliation.LeftBehind (rounds.map (reportedAt w m)) v) := by
  obtain ⟨w', routes, hw', hcarries, htracks⟩ := pollThenProcess_tracks hS hj hw rounds hrounds
  refine ⟨w', hw', fun hfollows m v hbehind => ?_, fun hnone => ⟨?_, ?_⟩⟩
  · exact not_follows_of_leftBehind hcarries (htracks m) hbehind hfollows
  · intro m v hv protocol hp
    rw [← current_reports] at hv
    exact ((hcarries _).mpr ⟨m, protocol, _, hp, (htracks m).followed v hv (hnone m v), rfl⟩).1
  · intro f hf hup
    obtain ⟨m, protocol, output, -, hr, rfl⟩ := (hcarries f).mp ⟨hf, hup⟩
    have hsomewhere : (Reconciliation.current (rounds.map (reportedAt w m))).Nonempty := by
      rw [Set.nonempty_iff_ne_empty]
      intro hempty
      rw [(htracks m).nowhere hempty] at hr
      cases hr
    obtain ⟨v, hv⟩ := hsomewhere
    rw [current_reports] at hv
    exact ⟨m, v, rfl, hv⟩

end

def twoInterfaces : Surroundings where
  warp := obligingWarp
  getInterfaceName text :=
    if text = "02:00:00:00:00:00" then "wlan0"
    else if text = "02:00:00:00:01:00" then "wlan1" else ""
  newPort _ interface :=
    if interface = "eth1" then some 1
    else if interface = "vwlan0-dpm" then some 2
    else if interface = "vwlan1-dpm" then some 3 else none
  ofctl := fullReader

def twoInterfacesAdded : World :=
  (freshWorld.updateBssids twoInterfaces .bssidAdd "02:00:00:00:00:00").updateBssids
    twoInterfaces .bssidAdd "02:00:00:00:01:00"

def oneStation (m : Mac) (v : String) : Report :=
  fun u => if u = v then (∅ : TreeSet String).insert (macText m) else ∅

theorem registered_twoInterfacesAdded : Registered twoInterfaces twoInterfacesAdded := by
  have hkeys : ∀ v ∈ twoInterfacesAdded.agent.interfaceMac, v = "wlan0" ∨ v = "wlan1" := by
    have h : twoInterfacesAdded.agent.interfaceMac.keys = ["wlan0", "wlan1"] := by decide +kernel
    intro v hv
    simpa [h] using TreeMap.mem_keys.mpr hv
  refine ⟨?_, ?_, ?_, ?_, by decide +kernel, ?_⟩
  · intro v hv
    rcases hkeys v hv with rfl | rfl
    · exact ⟨"02:00:00:00:00:00", #v[2, 0, 0, 0, 0, 0], by decide +kernel,
        ⟨by decide +kernel, by decide +kernel⟩, by decide +kernel⟩
    · exact ⟨"02:00:00:00:01:00", #v[2, 0, 0, 0, 1, 0], by decide +kernel,
        ⟨by decide +kernel, by decide +kernel⟩, by decide +kernel⟩
  · have hmap : twoInterfacesAdded.agent.interfaceMac =
        ((∅ : TreeMap String (TreeSet String)).insertIfNew "wlan0" ∅).insertIfNew "wlan1" ∅ := rfl
    intro v hv
    rw [hmap, TreeMap.getElem?_insertIfNew, TreeMap.getElem?_insertIfNew]
    rcases hkeys v hv with rfl | rfl <;> simp
  · intro v hv
    rcases hkeys v hv with rfl | rfl <;> decide +kernel
  · intro u hu v hv
    rcases hkeys u hu with rfl | rfl <;> rcases hkeys v hv with rfl | rfl <;> decide +kernel
  · unfold IsUplink
    decide +kernel

theorem mem_oneStation {m : Mac} {u v text : String} :
    text ∈ oneStation m v u ↔ u = v ∧ text = macText m := by
  unfold oneStation
  split_ifs with huv
  · rw [TreeSet.mem_insert, Std.compare_eq_iff_eq]
    simp [huv, eq_comm]
  · simp [huv]

theorem isReport_oneStation (w : World) (m : Mac) (v : String) : IsReport w (oneStation m v) := by
  constructor
  · intro u _ text htext
    exact ⟨m, (mem_oneStation.mp htext).2⟩
  · intro m' u _ u' _ hu hu'
    rw [(mem_oneStation.mp hu).1, (mem_oneStation.mp hu').1]

def station : Mac := Datapath.stationMac

/-- The station goes to the interface with the greater name. -/
theorem uplinks_follow_wlan0_to_wlan1 :
    ∃ w', pollThenProcess twoInterfaces readStation twoInterfacesAdded
        [oneStation station "wlan0", oneStation station "wlan1"] = some w' ∧
      FollowsHostapd twoInterfacesAdded w'.bridge (oneStation station "wlan1") := by
  obtain ⟨w', hw', hiff⟩ := uplinks_follow_hostapd_iff obligingWarp_confirms readStation_reads
    registered_twoInterfacesAdded [oneStation station "wlan0", oneStation station "wlan1"]
    (by simp [isReport_oneStation])
  refine ⟨w', hw', hiff.mpr ?_⟩
  rintro m v ⟨before, new, after, u, hsplit, hu, hv, hlt, -⟩
  match before, hsplit with
  | [], _ => exact hu
  | [_], hsplit =>
    simp only [List.map_cons, List.map_nil, List.singleton_append, List.cons.injEq] at hsplit
    obtain ⟨rfl, rfl, -⟩ := hsplit
    obtain ⟨rfl, -⟩ := mem_oneStation.mp hu.2
    obtain ⟨rfl, -⟩ := mem_oneStation.mp hv.2
    revert hlt
    decide
  | _ :: _ :: _, hsplit => simp at hsplit

/-- The station goes to the interface with the smaller name, and its uplink is deleted. -/
theorem uplink_lost_wlan1_to_wlan0 :
    Confirms twoInterfaces.warp ∧ ReadsStations readStation ∧
      Registered twoInterfaces twoInterfacesAdded ∧
      IsReport twoInterfacesAdded (oneStation station "wlan1") ∧
      IsReport twoInterfacesAdded (oneStation station "wlan0") ∧
      ∃ w', pollThenProcess twoInterfaces readStation twoInterfacesAdded
          [oneStation station "wlan1", oneStation station "wlan0"] = some w' ∧
        ¬FollowsHostapd twoInterfacesAdded w'.bridge (oneStation station "wlan0") := by
  refine ⟨obligingWarp_confirms, readStation_reads, registered_twoInterfacesAdded,
    isReport_oneStation .., isReport_oneStation .., ?_⟩
  obtain ⟨w', routes, hw', hcarries, htracks⟩ := pollThenProcess_tracks obligingWarp_confirms
    readStation_reads registered_twoInterfacesAdded
    [oneStation station "wlan1", oneStation station "wlan0"] (by simp [isReport_oneStation])
  refine ⟨w', hw', not_follows_of_leftBehind hcarries (htracks station) (v := "wlan0") ?_⟩
  exact ⟨[_], _, [], "wlan1", rfl, ⟨by decide +kernel, mem_oneStation.mpr ⟨rfl, rfl⟩⟩,
    ⟨by decide +kernel, mem_oneStation.mpr ⟨rfl, rfl⟩⟩, by decide, by simp⟩

end AuroraRelay
