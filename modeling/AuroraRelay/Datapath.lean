import Mathlib.Data.List.Dedup
import Mathlib.Logic.Function.Basic
import AuroraRelay.Lib.FlowTable
import AuroraRelay.MacText

/-!
# The datapath manager

`datapath_manager.py` and the part of `ovs_ofctl.py` that it goes through.  A wireless
interface reaches the wired one by downlink flows, set up once for the interface, and is
reached by uplink flows, set up for each station.
-/

namespace AuroraRelay.Datapath
open CommsAgent FlowTable WarpProtocol

/-- A field that is left out matches everything. -/
structure Pattern where
  inPort : Option ℕ
  dlSrc : Option Mac
  dlType : Option ℕ
  deriving DecidableEq

def fieldLe {β : Type} (a b : Option β) : Prop := b = none ∨ a = b

instance {β : Type} [DecidableEq β] (a b : Option β) : Decidable (fieldLe a b) :=
  inferInstanceAs (Decidable (_ ∨ _))

instance : LE Pattern where
  le p q := fieldLe p.inPort q.inPort ∧ fieldLe p.dlSrc q.dlSrc ∧ fieldLe p.dlType q.dlType

instance : DecidableLE Pattern := fun p q =>
  inferInstanceAs (Decidable (fieldLe p.inPort q.inPort ∧ _ ∧ _))

abbrev PortFlow := Flow Pattern ℕ

structure Bridge where
  ports : String → Option ℕ
  flows : List PortFlow

/-- How `ovs-ofctl` reads the address in a match: an address in full for what it is, any other
text for an address or for none. -/
structure Ofctl where
  readMac : String → Option Mac
  full : ∀ text m, IsMacText text m → readMac text = some m

def fullReader : Ofctl where
  readMac := parseMac
  full _ _ := parseMac_of_isMacText

/-- `dlSrc` is what `ovs-ofctl` reads for the address, where one is given. -/
structure FlowSpec where
  inPort : ℕ
  dlSrc : Option (Option Mac)
  dlType : Option ℕ

/-- `none` if `ovs-ofctl` cannot read the match. -/
def FlowSpec.pattern (spec : FlowSpec) : Option Pattern :=
  match spec.dlSrc with
  | none => some ⟨some spec.inPort, none, spec.dlType⟩
  | some source => source.map fun address => ⟨some spec.inPort, some address, spec.dlType⟩

namespace Bridge

/-- `get_port(interface) + 1`, which is zero for an interface that is not bound. -/
def index (bridge : Bridge) (interface : String) : ℕ := (bridge.ports interface).getD 0

/-- A call that `ovs-ofctl` refuses is printed and forgotten. -/
def addFlow (bridge : Bridge) (priority : ℕ) (spec : FlowSpec) (output : ℕ) : Bridge :=
  match spec.pattern with
  | none => bridge
  | some pattern =>
    { bridge with flows := FlowTable.addFlow ⟨priority, pattern, output⟩ bridge.flows }

def removeFlow (bridge : Bridge) (spec : FlowSpec) : Bridge :=
  match spec.pattern with
  | none => bridge
  | some pattern => { bridge with flows := FlowTable.delFlows pattern bridge.flows }

end Bridge

/-- IP, ARP and IPv6. -/
def supportedProtocol : List ℕ := [0x0800, 0x0806, 0x86dd]

/-- `_add_interface`; `newPort` is the number under which `ovs-vsctl` makes the interface
a port, if it does. -/
def addInterface (newPort : Bridge → String → Option ℕ) (bridge : Bridge) (interface : String) :
    Bridge :=
  { bridge with ports := Function.update bridge.ports interface (newPort bridge interface) }

def removeInterface (bridge : Bridge) (interface : String) : Bridge :=
  { bridge with ports := Function.update bridge.ports interface none }

def add (newPort : Bridge → String → Option ℕ) (bridge : Bridge)
    (virtualInterface ethernetInterface : String) : Bridge :=
  let bridge :=
    if bridge.index ethernetInterface = 0 then addInterface newPort bridge ethernetInterface
    else bridge
  let ethernetIndex := bridge.index ethernetInterface
  if bridge.index virtualInterface ≠ 0 then bridge
  else
    let bridge := addInterface newPort bridge virtualInterface
    let virtualIndex := bridge.index virtualInterface
    supportedProtocol.foldl
      (fun b protocol => b.addFlow 1 ⟨virtualIndex, none, some protocol⟩ ethernetIndex) bridge

def associate (ofctl : Ofctl) (bridge : Bridge)
    (virtualInterface ethernetInterface macAddress : String) : Bridge :=
  let virtualIndex := bridge.index virtualInterface
  let ethernetIndex := bridge.index ethernetInterface
  if virtualIndex = 0 then bridge
  else if ethernetIndex = 0 then bridge
  else
    supportedProtocol.foldl
      (fun b protocol =>
        b.addFlow 1 ⟨ethernetIndex, some (ofctl.readMac macAddress), some protocol⟩ virtualIndex)
      bridge

/-- The virtual interface does not enter the match: only a message is printed when it is
not bound. -/
def disassociate (ofctl : Ofctl) (bridge : Bridge)
    (_virtualInterface ethernetInterface macAddress : String) : Bridge :=
  let ethernetIndex := bridge.index ethernetInterface
  supportedProtocol.foldl
    (fun b protocol =>
      b.removeFlow ⟨ethernetIndex, some (ofctl.readMac macAddress), some protocol⟩) bridge

/-- The one character that `remove` takes from a printed port number. -/
def firstDigit (port : ℕ) : String := String.ofList ((toString port).toList.take 1)

/-- The stations for which `remove` finds a flow between the two ports in the dump. -/
def dumpedStations (bridge : Bridge) (virtualIndex ethernetIndex : ℕ) : List Mac :=
  (bridge.flows.filterMap fun f =>
    match f.pattern.inPort, f.pattern.dlSrc with
    | some inPort, some mac =>
      if firstDigit inPort = toString ethernetIndex ∧ firstDigit f.action = toString virtualIndex
      then some mac else none
    | _, _ => none).dedup

def remove (bridge : Bridge) (virtualInterface ethernetInterface : String) : Bridge :=
  let virtualIndex := bridge.index virtualInterface
  let ethernetIndex := bridge.index ethernetInterface
  let cleared := (dumpedStations bridge virtualIndex ethernetIndex).foldl
    (fun b mac => { b with
      flows := FlowTable.delFlows ⟨some ethernetIndex, some mac, none⟩ b.flows }) bridge
  let closed := supportedProtocol.foldl
    (fun b protocol => b.removeFlow ⟨virtualIndex, none, some protocol⟩) cleared
  removeInterface closed virtualInterface

def uplink (ethernetPort : ℕ) (station : Mac) (protocol output : ℕ) : PortFlow :=
  ⟨1, ⟨some ethernetPort, some station, some protocol⟩, output⟩

def IsUplink (ethernetPort : ℕ) (f : PortFlow) : Prop :=
  f.pattern.inPort = some ethernetPort ∧ f.pattern.dlSrc.isSome

/-- The uplink flows are exactly those of the routes: a port for some of the stations. -/
def Carries (bridge : Bridge) (ethernetPort : ℕ) (routes : Mac → Option ℕ) : Prop :=
  ∀ f, f ∈ bridge.flows ∧ IsUplink ethernetPort f ↔
    ∃ station protocol output, protocol ∈ supportedProtocol ∧ routes station = some output ∧
      f = uplink ethernetPort station protocol output

variable {ofctl : Ofctl} {bridge : Bridge}
  {virtualInterface ethernetInterface text : String} {station : Mac} {v e : ℕ}
  {routes : Mac → Option ℕ}

/-- What `associate` does for a bound interface and a text that is an address. -/
theorem associate_eq (hv : bridge.ports virtualInterface = some v) (hv0 : v ≠ 0)
    (he : bridge.ports ethernetInterface = some e) (he0 : e ≠ 0)
    (hm : ofctl.readMac text = some station) :
    associate ofctl bridge virtualInterface ethernetInterface text =
      { bridge with
        flows := (supportedProtocol.map fun p => uplink e station p v).foldl
          (fun t flow => FlowTable.addFlow flow t) bridge.flows } := by
  simp [associate, Bridge.index, hv, he, hv0, he0, supportedProtocol, Bridge.addFlow,
    FlowSpec.pattern, hm, uplink]

theorem disassociate_eq (he : bridge.ports ethernetInterface = some e)
    (hm : ofctl.readMac text = some station) :
    disassociate ofctl bridge virtualInterface ethernetInterface text =
      { bridge with
        flows := (supportedProtocol.map fun p => (⟨some e, some station, some p⟩ : Pattern)).foldl
          (fun t pattern => FlowTable.delFlows pattern t) bridge.flows } := by
  simp [disassociate, Bridge.index, he, supportedProtocol, Bridge.removeFlow,
    FlowSpec.pattern, hm]

theorem isUplink_uplink (e : ℕ) (station : Mac) (p v : ℕ) : IsUplink e (uplink e station p v) :=
  ⟨rfl, rfl⟩

theorem uplink_clashes {e : ℕ} {m m' : Mac} {p p' v v' : ℕ} :
    (uplink e m p v).Clashes (uplink e m' p' v') ↔ m = m' ∧ p = p' := by
  simp [Flow.Clashes, uplink]

theorem uplinks_pairwise (e : ℕ) (station : Mac) (v : ℕ) :
    (supportedProtocol.map fun p => uplink e station p v).Pairwise fun f g => ¬f.Clashes g := by
  rw [List.pairwise_map]
  simp only [uplink_clashes, true_and]
  decide

theorem carries_associate (h : Carries bridge e routes)
    (hv : bridge.ports virtualInterface = some v) (hv0 : v ≠ 0)
    (he : bridge.ports ethernetInterface = some e) (he0 : e ≠ 0)
    (hm : ofctl.readMac text = some station) :
    Carries (associate ofctl bridge virtualInterface ethernetInterface text) e
      (Function.update routes station (some v)) := by
  intro f
  rw [associate_eq hv hv0 he he0 hm]
  simp only [mem_foldl_addFlow (uplinks_pairwise e station v), List.mem_map,
    forall_exists_index, and_imp, forall_apply_eq_imp_iff₂]
  constructor
  · rintro ⟨⟨hf, hclash⟩ | ⟨p, hp, rfl⟩, hup⟩
    · -- a flow that was there and has not been replaced is of another station
      obtain ⟨m, p, out, hp, hr, rfl⟩ := (h f).mp ⟨hf, hup⟩
      have hne : m ≠ station := by
        rintro rfl
        exact hclash p hp (uplink_clashes.mpr ⟨rfl, rfl⟩)
      exact ⟨m, p, out, hp, by rwa [Function.update_of_ne hne], rfl⟩
    · exact ⟨station, p, v, hp, Function.update_self .., rfl⟩
  · rintro ⟨m, p, out, hp, hr, rfl⟩
    refine ⟨?_, isUplink_uplink ..⟩
    by_cases hne : m = station
    · subst hne
      rw [Function.update_self, Option.some.injEq] at hr
      exact .inr ⟨p, hp, by rw [hr]⟩
    · rw [Function.update_of_ne hne] at hr
      refine .inl ⟨((h _).mpr ⟨m, p, out, hp, hr, rfl⟩).1, fun q _ hc => ?_⟩
      exact hne (uplink_clashes.mp hc).1

theorem carries_disassociate (h : Carries bridge e routes)
    (he : bridge.ports ethernetInterface = some e) (hm : ofctl.readMac text = some station) :
    Carries (disassociate ofctl bridge virtualInterface ethernetInterface text) e
      (Function.update routes station none) := by
  intro f
  rw [disassociate_eq he hm]
  simp only [mem_foldl_delFlows, List.mem_map, forall_exists_index, and_imp,
    forall_apply_eq_imp_iff₂]
  constructor
  · rintro ⟨⟨hf, hdel⟩, hup⟩
    obtain ⟨m, p, out, hp, hr, rfl⟩ := (h f).mp ⟨hf, hup⟩
    have hne : m ≠ station := by
      rintro rfl
      exact hdel p hp ⟨.inr rfl, .inr rfl, .inr rfl⟩
    exact ⟨m, p, out, hp, by rwa [Function.update_of_ne hne], rfl⟩
  · rintro ⟨m, p, out, hp, hr, rfl⟩
    have hne : m ≠ station := by
      rintro rfl
      simp at hr
    rw [Function.update_of_ne hne] at hr
    refine ⟨⟨((h _).mpr ⟨m, p, out, hp, hr, rfl⟩).1, ?_⟩, isUplink_uplink ..⟩
    -- the deletion names the other station in its match
    rintro q _ ⟨-, hsrc, -⟩
    rcases hsrc with hsrc | hsrc
    · cases hsrc
    · exact hne (Option.some.inj hsrc)

end AuroraRelay.Datapath
