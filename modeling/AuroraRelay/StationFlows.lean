import AuroraRelay.Datapath

namespace AuroraRelay.Datapath
open CommsAgent FlowTable WarpProtocol

def stationRun (ofctl : Ofctl) (op : StationOp) (bridge : Bridge)
    (virtualInterface ethernetInterface macAddress : String) : Bridge :=
  match op with
  | .associate => associate ofctl bridge virtualInterface ethernetInterface macAddress
  | .disassociate => disassociate ofctl bridge virtualInterface ethernetInterface macAddress

def uplinks (e : ℕ) (station : Mac) (v : ℕ) : List PortFlow :=
  supportedProtocol.map fun p => uplink e station p v

def uplinkPatterns (e : ℕ) (station : Mac) : List Pattern :=
  supportedProtocol.map fun p => ⟨some e, some station, some p⟩

def stationUpdate (op : StationOp) (bridge : Bridge)
    (virtualInterface ethernetInterface : String) (station : Mac) : Update Pattern ℕ :=
  let v := bridge.index virtualInterface
  let e := bridge.index ethernetInterface
  match op with
  | .associate => if v = 0 ∨ e = 0 then ⟨fun _ => false, []⟩ else .add (uplinks e station v)
  | .disassociate => .delete (uplinkPatterns e station)

section

variable {ofctl : Ofctl} {bridge : Bridge} {virtualInterface ethernetInterface text : String}
  {station : Mac}

theorem stationRun_eq (op : StationOp) (bridge : Bridge)
    (virtualInterface ethernetInterface : String) (hm : ofctl.readMac text = some station) :
    stationRun ofctl op bridge virtualInterface ethernetInterface text =
      { bridge with
        flows := (stationUpdate op bridge virtualInterface ethernetInterface station).apply
          bridge.flows } := by
  cases op with
  | associate =>
    unfold stationRun stationUpdate Datapath.associate
    dsimp only
    by_cases hv : bridge.index virtualInterface = 0
    · simp [hv, Update.apply]
    · by_cases he : bridge.index ethernetInterface = 0
      · simp [he, Update.apply]
      · have hpairwise := uplinks_pairwise (bridge.index ethernetInterface) station
          (bridge.index virtualInterface)
        rw [if_neg hv, if_neg he, if_neg (by tauto), uplinks, ← foldl_addFlow hpairwise]
        simp [supportedProtocol, Bridge.addFlow, FlowSpec.pattern, hm, uplink]
  | disassociate =>
    unfold stationRun stationUpdate Datapath.disassociate
    dsimp only
    rw [← foldl_delFlows]
    simp [uplinkPatterns, supportedProtocol, Bridge.removeFlow, FlowSpec.pattern, hm]

/-- An update removes and adds flows of its own station. -/
theorem stationUpdate_adds (op : StationOp) {f : PortFlow}
    (h : f ∈ (stationUpdate op bridge virtualInterface ethernetInterface station).adds) :
    f.pattern.dlSrc = some station := by
  cases op with
  | associate =>
    unfold stationUpdate at h
    dsimp only at h
    split_ifs at h
    · cases h
    · obtain ⟨p, -, rfl⟩ := List.mem_map.mp h
      rfl
  | disassociate => cases h

theorem stationUpdate_removes (op : StationOp) {f : PortFlow}
    (h : (stationUpdate op bridge virtualInterface ethernetInterface station).removes f = true) :
    f.pattern.inPort = some (bridge.index ethernetInterface) ∧
      f.pattern.dlSrc = some station := by
  cases op with
  | associate =>
    unfold stationUpdate at h
    dsimp only at h
    split_ifs at h
    · obtain ⟨flow, hflow, hclash⟩ := List.any_eq_true.mp h
      obtain ⟨p, -, rfl⟩ := List.mem_map.mp hflow
      rw [(of_decide_eq_true hclash).1]
      exact ⟨rfl, rfl⟩
  | disassociate =>
    obtain ⟨pattern, hpattern, hle⟩ := List.any_eq_true.mp h
    obtain ⟨p, -, rfl⟩ := List.mem_map.mp hpattern
    obtain ⟨hport, hsrc, -⟩ := of_decide_eq_true hle
    exact ⟨hport.resolve_left (by simp), hsrc.resolve_left (by simp)⟩

/-- Nothing is removed for a station without flows from the wired side. -/
theorem stationUpdate_keeps (op : StationOp)
    (hfree : ∀ f ∈ bridge.flows, ¬(f.pattern.inPort = some (bridge.index ethernetInterface) ∧
      f.pattern.dlSrc = some station)) :
    ∀ f ∈ bridge.flows,
      (stationUpdate op bridge virtualInterface ethernetInterface station).removes f = false := by
  intro f hf
  by_contra hremoves
  exact hfree f hf (stationUpdate_removes op (Bool.of_not_eq_false hremoves))

theorem delete_uplinks (e : ℕ) (station : Mac) (v : ℕ) :
    ∀ f ∈ uplinks e station v,
      (Update.delete (uplinkPatterns e station) : Update Pattern ℕ).removes f = true := by
  intro f hf
  obtain ⟨p, hp, rfl⟩ := List.mem_map.mp hf
  refine List.any_eq_true.mpr ⟨⟨some e, some station, some p⟩, List.mem_map.mpr ⟨p, hp, rfl⟩, ?_⟩
  exact decide_eq_true ⟨.inr rfl, .inr rfl, .inr rfl⟩

theorem disassociate_associate (hm : ofctl.readMac text = some station)
    (hv : bridge.index virtualInterface ≠ 0) (he : bridge.index ethernetInterface ≠ 0)
    (hfree : ∀ f ∈ bridge.flows, ¬(f.pattern.inPort = some (bridge.index ethernetInterface) ∧
      f.pattern.dlSrc = some station)) :
    disassociate ofctl (associate ofctl bridge virtualInterface ethernetInterface text)
      virtualInterface ethernetInterface text = bridge := by
  let u := stationUpdate .associate bridge virtualInterface ethernetInterface station
  let w := stationUpdate .disassociate bridge virtualInterface ethernetInterface station
  have hadds : u.adds =
      uplinks (bridge.index ethernetInterface) station (bridge.index virtualInterface) := by
    simp [u, stationUpdate, hv, he, Update.add]
  have hundo : w.apply (u.apply bridge.flows) = bridge.flows := by
    refine Update.apply_undo (stationUpdate_keeps .associate hfree)
      (stationUpdate_keeps .disassociate hfree) ?_ rfl
    rw [hadds]
    exact delete_uplinks _ _ _
  change stationRun ofctl .disassociate (stationRun ofctl .associate bridge virtualInterface
    ethernetInterface text) virtualInterface ethernetInterface text = bridge
  rw [stationRun_eq _ _ _ _ hm, stationRun_eq _ _ _ _ hm]
  change ({ bridge with flows := w.apply (u.apply bridge.flows) } : Bridge) = bridge
  rw [hundo]

theorem stationRun_frame (op : StationOp) (bridge : Bridge)
    (virtualInterface ethernetInterface : String) (hm : ofctl.readMac text = some station) :
    (stationRun ofctl op bridge virtualInterface ethernetInterface text).ports = bridge.ports ∧
    (stationRun ofctl op bridge virtualInterface ethernetInterface text).flows.filter
        (fun f => f.pattern.dlSrc ≠ some station) =
      bridge.flows.filter fun f => f.pattern.dlSrc ≠ some station := by
  rw [stationRun_eq op _ _ _ hm]
  refine ⟨rfl, Update.filter_apply (fun f hf => ?_) (fun f hf => ?_) _⟩
  · simp [(stationUpdate_removes op hf).2]
  · simp [stationUpdate_adds op hf]

end

/-- The same ports and the same flows, in whatever order the switch keeps them. -/
def SameTable (b b' : Bridge) : Prop := b.ports = b'.ports ∧ b.flows.Perm b'.flows

theorem stationRun_comm {ofctl : Ofctl} (op op' : StationOp) (bridge : Bridge) (v e v' e' : String)
    {text text' : String} {station station' : Mac} (hm : ofctl.readMac text = some station)
    (hm' : ofctl.readMac text' = some station') (hne : station ≠ station') :
    SameTable (stationRun ofctl op (stationRun ofctl op' bridge v' e' text') v e text)
      (stationRun ofctl op' (stationRun ofctl op bridge v e text) v' e' text') := by
  -- an update removes flows of its own station, and adds none of the other
  have hapart {x y : StationOp} {v e v' e' : String} {m m' : Mac} (hmm : m ≠ m') :
      ∀ f ∈ (stationUpdate y bridge v' e' m').adds,
        (stationUpdate x bridge v e m).removes f = false := by
    intro f hf
    by_contra hremoves
    have hsrc := (stationUpdate_removes x (Bool.of_not_eq_false hremoves)).2
    rw [stationUpdate_adds y hf] at hsrc
    exact hmm (Option.some.inj hsrc).symm
  rw [stationRun_eq op _ _ _ hm, stationRun_eq op' bridge _ _ hm', stationRun_eq op' _ _ _ hm',
    stationRun_eq op bridge _ _ hm]
  exact ⟨rfl, Update.apply_comm (hapart hne) (hapart (Ne.symm hne)) bridge.flows⟩

/-- Every bridge: a disassociation takes back the association of a station that had no flow
from the wired interface; the commands for a station change no flow without its address,
the downlinks among them; and the commands for two stations commute. -/
theorem station_flow_operations (ofctl : Ofctl) (bridge : Bridge) :
    (∀ v e text station, ofctl.readMac text = some station →
      bridge.index v ≠ 0 → bridge.index e ≠ 0 →
      (∀ f ∈ bridge.flows, ¬(f.pattern.inPort = some (bridge.index e) ∧
        f.pattern.dlSrc = some station)) →
      disassociate ofctl (associate ofctl bridge v e text) v e text = bridge) ∧
    (∀ (op : StationOp) (v e text : String) (station : Mac), ofctl.readMac text = some station →
      (stationRun ofctl op bridge v e text).ports = bridge.ports ∧
      (stationRun ofctl op bridge v e text).flows.filter (fun f => f.pattern.dlSrc ≠ some station) =
        bridge.flows.filter fun f => f.pattern.dlSrc ≠ some station) ∧
    ∀ (op op' : StationOp) (v e v' e' text text' : String) (station station' : Mac),
      ofctl.readMac text = some station → ofctl.readMac text' = some station' → station ≠ station' →
      SameTable (stationRun ofctl op (stationRun ofctl op' bridge v' e' text') v e text)
        (stationRun ofctl op' (stationRun ofctl op bridge v e text) v' e' text') := by
  refine ⟨fun v e text station hm hv he hfree => disassociate_associate hm hv he hfree,
    fun op v e text station hm => stationRun_frame op bridge v e hm, ?_⟩
  intro op op' v e v' e' text text' station station' hm hm' hne
  exact stationRun_comm op op' bridge v e v' e' hm hm' hne

def smallBridge : Bridge where
  ports interface := if interface = "eth1" then some 1 else some 2
  flows := [⟨1, ⟨some 2, none, some 0x0800⟩, 1⟩, uplink 1 #v[0, 0x0e, 0x8e, 0, 0, 8] 0x0800 2]

theorem station_flow_operations_small :
    disassociate fullReader
        (associate fullReader smallBridge "vwlan0-dpm" "eth1" "00:0e:8e:00:00:09")
        "vwlan0-dpm" "eth1" "00:0e:8e:00:00:09" = smallBridge ∧
    SameTable
      (stationRun fullReader .disassociate (stationRun fullReader .associate smallBridge
        "vwlan0-dpm" "eth1" "00:0e:8e:00:00:09") "vwlan0-dpm" "eth1" "00:0e:8e:00:00:08")
      (stationRun fullReader .associate (stationRun fullReader .disassociate smallBridge
        "vwlan0-dpm" "eth1" "00:0e:8e:00:00:08") "vwlan0-dpm" "eth1" "00:0e:8e:00:00:09") := by
  have hm : fullReader.readMac "00:0e:8e:00:00:09" = some #v[0, 0x0e, 0x8e, 0, 0, 9] := by decide
  have hm' : fullReader.readMac "00:0e:8e:00:00:08" = some #v[0, 0x0e, 0x8e, 0, 0, 8] := by decide
  have h := station_flow_operations fullReader smallBridge
  refine ⟨h.1 _ _ _ _ hm (by decide) (by decide) ?_, ?_⟩
  · simp [smallBridge, uplink, Bridge.index]
  · exact h.2.2 .disassociate .associate _ _ _ _ _ _ _ _ hm' hm (by decide)

end AuroraRelay.Datapath
