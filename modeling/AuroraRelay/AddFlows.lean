import AuroraRelay.RemoveFlows

namespace AuroraRelay.Datapath
open FlowTable

section

variable (newPort : Bridge → String → Option ℕ) (bridge : Bridge)
  (virtualInterface ethernetInterface : String)

/-- The bridge on which `add` binds the wireless interface. -/
def wired : Bridge :=
  if bridge.index ethernetInterface = 0 then addInterface newPort bridge ethernetInterface
  else bridge

def addedFlows : List PortFlow :=
  if (wired newPort bridge ethernetInterface).index virtualInterface ≠ 0 then []
  else
    supportedProtocol.map <| downlink
      ((addInterface newPort (wired newPort bridge ethernetInterface) virtualInterface).index
        virtualInterface)
      ((wired newPort bridge ethernetInterface).index ethernetInterface)

theorem add_eq :
    add newPort bridge virtualInterface ethernetInterface =
      { ports :=
          if (wired newPort bridge ethernetInterface).index virtualInterface ≠ 0 then
            (wired newPort bridge ethernetInterface).ports
          else
            (addInterface newPort (wired newPort bridge ethernetInterface) virtualInterface).ports
        flows := (addedFlows newPort bridge virtualInterface ethernetInterface).foldl
          (fun t flow => FlowTable.addFlow flow t) bridge.flows } := by
  have hflows : (wired newPort bridge ethernetInterface).flows = bridge.flows := by
    unfold wired
    split_ifs <;> rfl
  have hadd : add newPort bridge virtualInterface ethernetInterface =
      if (wired newPort bridge ethernetInterface).index virtualInterface ≠ 0 then
        wired newPort bridge ethernetInterface
      else
        supportedProtocol.foldl (fun b protocol => b.addFlow 1
          ⟨(addInterface newPort (wired newPort bridge ethernetInterface) virtualInterface).index
            virtualInterface, none, some protocol⟩
          ((wired newPort bridge ethernetInterface).index ethernetInterface))
          (addInterface newPort (wired newPort bridge ethernetInterface) virtualInterface) := rfl
  rw [hadd]
  unfold addedFlows
  split_ifs with hv
  · rw [← hflows]
    rfl
  · rw [addDownlinks_eq, ← hflows]
    rfl

/-- Every flow that `add` has added goes from the port of the one interface to that of the
other, and none is added unless both are ports. -/
def AddsBetweenPorts : Prop :=
  let after := add newPort bridge virtualInterface ethernetInterface
  let added := addedFlows newPort bridge virtualInterface ethernetInterface
  (∀ f ∈ added, f.pattern.inPort = after.ports virtualInterface ∧
    some f.action = after.ports ethernetInterface) ∧
  (after.ports virtualInterface = none ∨ after.ports ethernetInterface = none → added = [])

/-- The wireless interface is a port before the call, or the wired one is or becomes a port
and then the wireless one does. -/
def PortsMade : Prop :=
  (bridge.ports virtualInterface).isSome ∨
    ((bridge.ports ethernetInterface).isSome ∨ (newPort bridge ethernetInterface).isSome) ∧
      (virtualInterface = ethernetInterface ∨
        (newPort (wired newPort bridge ethernetInterface) virtualInterface).isSome)

end

variable {newPort : Bridge → String → Option ℕ} {bridge : Bridge} {v e : String}

theorem Bridge.index_eq_zero_iff (h : ∀ i, bridge.ports i ≠ some 0) (i : String) :
    bridge.index i = 0 ↔ bridge.ports i = none := by
  unfold Bridge.index
  cases hi : bridge.ports i with
  | none => simp
  | some n =>
    have hn : n ≠ 0 := fun hn => h i (by rw [hi, hn])
    simp [hn]

section

variable (hports : ∀ i, bridge.ports i ≠ some 0) (hnew : ∀ b i, newPort b i ≠ some 0)
include hports

theorem ports_wired :
    (wired newPort bridge e).ports =
      Function.update bridge.ports e ((bridge.ports e).or (newPort bridge e)) := by
  unfold wired
  split_ifs with h0
  · rw [Bridge.index_eq_zero_iff hports] at h0
    simp [addInterface, h0]
  · rw [Bridge.index_eq_zero_iff hports] at h0
    obtain ⟨n, hn⟩ := Option.ne_none_iff_exists'.mp h0
    have hor : (bridge.ports e).or (newPort bridge e) = bridge.ports e := by simp [hn]
    rw [hor, Function.update_eq_self]

theorem portsMade_iff :
    PortsMade newPort bridge v e ↔ (wired newPort bridge e).ports v ≠ none ∨
      (newPort (wired newPort bridge e) v).isSome ∧ ((wired newPort bridge e).ports e).isSome := by
  have hwe : ((wired newPort bridge e).ports e).isSome ↔
      (bridge.ports e).isSome ∨ (newPort bridge e).isSome := by
    rw [ports_wired hports, Function.update_self]
    cases bridge.ports e <;> simp
  unfold PortsMade
  rw [← hwe, ← Option.isSome_iff_ne_none]
  by_cases hve : v = e
  · subst hve
    rw [hwe]
    tauto
  · have hwv : (wired newPort bridge e).ports v = bridge.ports v := by
      rw [ports_wired hports, Function.update_of_ne hve]
    rw [hwv]
    tauto

include hnew

theorem ports_wired_ne (i : String) : (wired newPort bridge e).ports i ≠ some 0 := by
  rw [ports_wired hports]
  by_cases hi : i = e
  · subst hi
    rw [Function.update_self]
    cases h : bridge.ports i with
    | none => simpa using hnew bridge i
    | some n => simpa [h] using hports i
  · rw [Function.update_of_ne hi]
    exact hports i

/-- If the wireless interface is a port by the time that `add` looks for it, nothing is added. -/
theorem addsBetweenPorts_of_bound (hv : (wired newPort bridge e).ports v ≠ none) :
    AddsBetweenPorts newPort bridge v e := by
  have hindex : (wired newPort bridge e).index v ≠ 0 := fun h0 =>
    hv ((Bridge.index_eq_zero_iff (ports_wired_ne hports hnew) v).mp h0)
  have hnone : addedFlows newPort bridge v e = [] := if_pos hindex
  unfold AddsBetweenPorts
  dsimp only
  rw [hnone]
  exact ⟨nofun, fun _ => rfl⟩

end

/-- Otherwise the flows are the downlinks between what has been made of the two. -/
theorem addsBetweenPorts_of_new (hnew : ∀ b i, newPort b i ≠ some 0)
    (hv : (wired newPort bridge e).ports v = none) :
    AddsBetweenPorts newPort bridge v e ↔
      (newPort (wired newPort bridge e) v).isSome ∧ ((wired newPort bridge e).ports e).isSome := by
  have hindex : (wired newPort bridge e).index v = 0 := by simp [Bridge.index, hv]
  have hadded : addedFlows newPort bridge v e = supportedProtocol.map (downlink
      ((newPort (wired newPort bridge e) v).getD 0) ((wired newPort bridge e).index e)) := by
    unfold addedFlows
    rw [if_neg (not_not.mpr hindex)]
    simp [Bridge.index, addInterface]
  have hafter : (add newPort bridge v e).ports = Function.update (wired newPort bridge e).ports v
      (newPort (wired newPort bridge e) v) := by
    rw [add_eq]
    exact if_neg (not_not.mpr hindex)
  have hsome : (add newPort bridge v e).ports v = newPort (wired newPort bridge e) v := by
    rw [hafter, Function.update_self]
  have hfirst : downlink ((newPort (wired newPort bridge e) v).getD 0)
      ((wired newPort bridge e).index e) 0x0800 ∈ addedFlows newPort bridge v e := by
    rw [hadded]
    exact List.mem_map_of_mem (by decide)
  constructor
  · rintro ⟨hbetween, -⟩
    obtain ⟨hin, hout⟩ := hbetween _ hfirst
    have hnewPort : some ((newPort (wired newPort bridge e) v).getD 0) =
        newPort (wired newPort bridge e) v := hin.trans hsome
    refine ⟨by rw [← hnewPort]; rfl, ?_⟩
    by_contra hnone
    have h0 : (wired newPort bridge e).index e = 0 := by
      simp [Bridge.index, Option.not_isSome_iff_eq_none.mp hnone]
    have hzero : some 0 = (add newPort bridge v e).ports e := by
      rw [← hout, ← h0]
      rfl
    -- the wired interface has no port, unless it is the wireless one itself
    by_cases hve : e = v
    · subst hve
      exact hnew _ _ (hzero.trans hsome).symm
    · rw [hafter, Function.update_of_ne hve] at hzero
      rw [← hzero] at hnone
      exact hnone rfl
  · rintro ⟨hmade, hbound⟩
    obtain ⟨n, hn⟩ := Option.isSome_iff_exists.mp hmade
    obtain ⟨k, hk⟩ := Option.isSome_iff_exists.mp hbound
    have hve : e ≠ v := by
      rintro rfl
      rw [hv] at hk
      cases hk
    have hpe : (add newPort bridge v e).ports e = some k := by
      rw [hafter, Function.update_of_ne hve, hk]
    have hpv : (add newPort bridge v e).ports v = some n := hsome.trans hn
    refine ⟨fun f hf => ?_, fun hnone => ?_⟩
    · rw [hadded] at hf
      obtain ⟨p, -, rfl⟩ := List.mem_map.mp hf
      rw [hpv, hpe]
      simp [downlink, Bridge.index, hn, hk]
    · rw [hpv, hpe] at hnone
      simp at hnone

/-- Every bridge, and every outcome of the calls that make ports: `add` installs its flows
between ports of the bridge if and only if those calls succeed as far as they are made. -/
theorem add_between_ports_iff (newPort : Bridge → String → Option ℕ) (bridge : Bridge)
    (v e : String) (hports : ∀ i, bridge.ports i ≠ some 0)
    (hnew : ∀ b i, newPort b i ≠ some 0) :
    (add newPort bridge v e).flows = (addedFlows newPort bridge v e).foldl
        (fun t flow => FlowTable.addFlow flow t) bridge.flows ∧
      (AddsBetweenPorts newPort bridge v e ↔ PortsMade newPort bridge v e) := by
  refine ⟨by rw [add_eq], ?_⟩
  rw [portsMade_iff hports]
  by_cases hv : (wired newPort bridge e).ports v = none
  · rw [addsBetweenPorts_of_new hnew hv]
    simp [hv]
  · exact iff_of_true (addsBetweenPorts_of_bound hports hnew hv) (.inl hv)

/-- `ovs-vsctl` gives the numbers from two on, and one to the wired interface if that is there. -/
def outcome (ethernet : Option ℕ) (_ : Bridge) (interface : String) : Option ℕ :=
  if interface = "eth1" then ethernet else some 2

theorem outcome_ne (ethernet : Option ℕ) (h : ethernet ≠ some 0) (b : Bridge) (i : String) :
    outcome ethernet b i ≠ some 0 := by
  unfold outcome
  split_ifs
  · exact h
  · simp

theorem add_between_ports_both_made :
    AddsBetweenPorts (outcome (some 1)) ⟨fun _ => none, []⟩ "vwlan0-dpm" "eth1" := by
  have hmade : PortsMade (outcome (some 1)) ⟨fun _ => none, []⟩ "vwlan0-dpm" "eth1" :=
    .inr ⟨.inr rfl, .inr rfl⟩
  exact (add_between_ports_iff _ _ _ _ (by simp) (outcome_ne (some 1) (by simp))).2.mpr hmade

/-- The wired interface does not become a port, and the flows of the wireless one go to port
zero. -/
theorem add_without_ethernet_port :
    ¬∀ (newPort : Bridge → String → Option ℕ) (bridge : Bridge) (v e : String),
      (∀ i, bridge.ports i ≠ some 0) → (∀ b i, newPort b i ≠ some 0) →
        AddsBetweenPorts newPort bridge v e := by
  intro h
  have hbetween := h (outcome none) ⟨fun _ => none, []⟩ "vwlan0-dpm" "eth1" (by simp)
    (outcome_ne none (by simp))
  have hadded : addedFlows (outcome none) ⟨fun _ => none, []⟩ "vwlan0-dpm" "eth1" =
      supportedProtocol.map (downlink 2 0) := by decide
  have hnone := hbetween.2 (.inr rfl)
  rw [hadded] at hnone
  cases hnone

end AuroraRelay.Datapath
