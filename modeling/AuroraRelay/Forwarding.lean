import AuroraRelay.Lib.Transition
import AuroraRelay.AddFlows
import AuroraRelay.StationFlows

/-!
# Forwarding

What the flows do to packets while interfaces and stations come and go.  The calls of the
datapath manager keep the table of the switch in the shape of a router: one line from each
wireless port, and for each station that is associated a route from the wired one.
-/

namespace AuroraRelay.Datapath
open CommsAgent FlowTable Transition WarpProtocol

structure Packet where
  inPort : ℕ
  dlSrc : Mac
  dlType : ℕ

def Pattern.Covers (pattern : Pattern) (packet : Packet) : Prop :=
  fieldLe (some packet.inPort) pattern.inPort ∧ fieldLe (some packet.dlSrc) pattern.dlSrc ∧
    fieldLe (some packet.dlType) pattern.dlType

/-- The switch may send the packet out by the port. -/
def Outputs (bridge : Bridge) (packet : Packet) (port : ℕ) : Prop :=
  ∃ f, Applies Pattern.Covers bridge.flows packet f ∧ f.action = port

/-- The calls of the datapath manager, with the wired interface fixed.  `outcome` are the
numbers under which `ovs-vsctl` makes interfaces ports. -/
inductive PathCall
  | add (outcome : String → Option ℕ) (virtualInterface : String)
  | associate (virtualInterface macAddress : String)
  | disassociate (virtualInterface macAddress : String)
  | remove (virtualInterface : String)
  | clear

/-- `remove_flow` without a match. -/
def clear (bridge : Bridge) : Bridge := { bridge with flows := [] }

section

variable (ofctl : Ofctl) (e : String)

def pathStep (bridge : Bridge) : PathCall → Bridge
  | .add outcome v => add (fun _ i => outcome i) bridge v e
  | .associate v macAddress => associate ofctl bridge v e macAddress
  | .disassociate v macAddress => disassociate ofctl bridge v e macAddress
  | .remove v => remove bridge v e
  | .clear => clear bridge

def datapath : Machine Bridge PathCall where
  init := ⟨fun _ => none, []⟩
  step bridge call := some (pathStep ofctl e bridge call)

/-- A new port gets a positive number that no other port has, and the wired interface is not
used for a wireless one. -/
def PathCall.Valid (bridge : Bridge) : PathCall → Prop
  | .add outcome v => v ≠ e ∧
      (∀ i n, outcome i = some n → n ≠ 0 ∧ ∀ j, bridge.ports j ≠ some n) ∧
      ∀ n, outcome e = some n → outcome v ≠ some n
  | .associate v _ => v ≠ e
  | .remove v => v ≠ e
  | _ => True

/-- `lines` leads from port to port, `routes` from the source of a packet to a port. -/
structure Router where
  ports : String → Option ℕ
  lines : ℕ → Option ℕ
  routes : Mac → Option ℕ

namespace Router

def empty : Router := ⟨fun _ => none, fun _ => none, fun _ => none⟩

def index (router : Router) (interface : String) : ℕ := (router.ports interface).getD 0

def forward (router : Router) (packet : Packet) : Option ℕ :=
  if packet.dlType ∈ supportedProtocol then
    (router.lines packet.inPort).or
      (if packet.inPort = router.index e then router.routes packet.dlSrc else none)
  else none

def bind (router : Router) (outcome : String → Option ℕ) (interface : String) : Router :=
  { router with ports := Function.update router.ports interface (outcome interface) }

def setLine (router : Router) (x y : ℕ) : Router :=
  { router with lines := Function.update router.lines x (some y) }

def setRoute (router : Router) (station : Mac) (port : Option ℕ) : Router :=
  { router with routes := Function.update router.routes station port }

def wire (router : Router) (outcome : String → Option ℕ) : Router :=
  if router.index e = 0 then router.bind outcome e else router

def add (router : Router) (outcome : String → Option ℕ) (v : String) : Router :=
  let wired := router.wire e outcome
  if wired.index v ≠ 0 then wired
  else
    let bound := wired.bind outcome v
    bound.setLine (bound.index v) (bound.index e)

def associate (router : Router) (v : String) (station : Mac) : Router :=
  if router.index v = 0 ∨ router.index e = 0 then router
  else router.setRoute station (some (router.index v))

/-- `remove` takes a port for that of the interface. -/
def Mistakes (router : Router) (v : String) (port : ℕ) : Prop :=
  firstDigit (router.index e) = toString (router.index e) ∧
    firstDigit port = toString (router.index v)

instance (router : Router) (v : String) (port : ℕ) : Decidable (router.Mistakes e v port) :=
  inferInstanceAs (Decidable (_ ∧ _))

def remove (router : Router) (v : String) : Router where
  ports := Function.update router.ports v none
  lines := Function.update router.lines (router.index v) none
  routes station := (router.routes station).filter fun port => ¬router.Mistakes e v port

def step (router : Router) : PathCall → Router
  | .add outcome v => router.add e outcome v
  | .associate v macAddress => (ofctl.readMac macAddress).elim router (router.associate e v)
  | .disassociate _ macAddress => (ofctl.readMac macAddress).elim router (router.setRoute · none)
  | .remove v => router.remove e v
  | .clear => { router with lines := fun _ => none, routes := fun _ => none }

end Router

structure Router.Sound (router : Router) : Prop where
  positive : ∀ i, router.ports i ≠ some 0
  distinct : ∀ i j n, router.ports i = some n → router.ports j = some n → i = j
  from_wireless : ∀ x y, router.lines x = some y → x = 0 ∨ ∃ v, v ≠ e ∧ router.ports v = some x
  to_wired : ∀ x y, router.lines x = some y → y = 0 ∨ y = router.index e
  routed : ∀ m o, router.routes m = some o → router.index e ≠ 0 ∧ o ≠ router.index e

/-- The flows of the switch are the lines and the routes, each for every protocol. -/
structure Realises (bridge : Bridge) (router : Router) : Prop where
  ports : bridge.ports = router.ports
  flows : ∀ f, f ∈ bridge.flows ↔ ∃ p ∈ supportedProtocol,
    (∃ x y, router.lines x = some y ∧ f = downlink x y p) ∨
      ∃ m o, router.routes m = some o ∧ f = uplink (router.index e) m p o

end

variable {ofctl : Ofctl} {e v : String} {bridge : Bridge} {router : Router}

theorem covers_downlink {x y p : ℕ} {packet : Packet} :
    (downlink x y p).pattern.Covers packet ↔ packet.inPort = x ∧ packet.dlType = p := by
  simp [downlink, Pattern.Covers, fieldLe]

theorem covers_uplink {n p o : ℕ} {m : Mac} {packet : Packet} :
    (uplink n m p o).pattern.Covers packet ↔
      packet.inPort = n ∧ packet.dlSrc = m ∧ packet.dlType = p := by
  simp [uplink, Pattern.Covers, fieldLe]

theorem Router.ports_of_index {i : String} (h : router.index i ≠ 0) :
    router.ports i = some (router.index i) := by
  unfold Router.index at h ⊢
  cases hports : router.ports i with
  | none => simp [hports] at h
  | some n => rfl

theorem Router.index_of_ports {i : String} {n : ℕ} (h : router.ports i = some n) :
    router.index i = n := by
  rw [Router.index, h]
  rfl

/-- No line begins at the wired port. -/
theorem Router.Sound.lines_wired (h : router.Sound e) (he : router.index e ≠ 0) :
    router.lines (router.index e) = none := by
  cases hline : router.lines (router.index e) with
  | none => rfl
  | some y =>
    rcases h.from_wireless _ _ hline with hzero | ⟨v, hv, hport⟩
    · exact absurd hzero he
    · exact absurd (h.distinct _ _ _ hport (Router.ports_of_index he)) hv

theorem Router.forward_eq_some (hsound : router.Sound e) {packet : Packet} {o : ℕ} :
    router.forward e packet = some o ↔ packet.dlType ∈ supportedProtocol ∧
      (router.lines packet.inPort = some o ∨
        packet.inPort = router.index e ∧ router.routes packet.dlSrc = some o) := by
  unfold Router.forward
  constructor
  · intro hforward
    split_ifs at hforward with hp hin
    · rcases Option.or_eq_some_iff.mp hforward with hline | ⟨-, hroute⟩
      · exact ⟨hp, .inl hline⟩
      · exact ⟨hp, .inr ⟨hin, hroute⟩⟩
    · rw [Option.or_none] at hforward
      exact ⟨hp, .inl hforward⟩
  · rintro ⟨hp, hline | ⟨hin, hroute⟩⟩
    · rw [if_pos hp, hline]
      rfl
    · rw [if_pos hp, if_pos hin, hin, hsound.lines_wired (hsound.routed _ _ hroute).1, hroute]
      rfl

theorem Realises.forward_iff (h : Realises e bridge router) (hsound : router.Sound e)
    {packet : Packet} {o : ℕ} : router.forward e packet = some o ↔
      ∃ f ∈ bridge.flows, f.pattern.Covers packet ∧ f.action = o := by
  rw [Router.forward_eq_some hsound]
  constructor
  · rintro ⟨hp, hline | ⟨hin, hroute⟩⟩
    · exact ⟨_, (h.flows _).mpr ⟨_, hp, .inl ⟨_, _, hline, rfl⟩⟩,
        covers_downlink.mpr ⟨rfl, rfl⟩, rfl⟩
    · exact ⟨_, (h.flows _).mpr ⟨_, hp, .inr ⟨_, _, hroute, rfl⟩⟩,
        covers_uplink.mpr ⟨hin, rfl, rfl⟩, rfl⟩
  · rintro ⟨f, hf, hcovers, rfl⟩
    obtain ⟨p, hp, ⟨x, y, hline, rfl⟩ | ⟨m, o, hroute, rfl⟩⟩ := (h.flows f).mp hf
    · obtain ⟨rfl, rfl⟩ := covers_downlink.mp hcovers
      exact ⟨hp, .inl hline⟩
    · obtain ⟨hin, rfl, rfl⟩ := covers_uplink.mp hcovers
      exact ⟨hp, .inr ⟨hin, hroute⟩⟩

theorem Realises.priority (h : Realises e bridge router) {f : PortFlow} (hf : f ∈ bridge.flows) :
    f.priority = 1 := by
  obtain ⟨p, -, ⟨x, y, -, rfl⟩ | ⟨m, o, -, rfl⟩⟩ := (h.flows f).mp hf <;> rfl

theorem Realises.outputs_iff (h : Realises e bridge router) (hsound : router.Sound e)
    {packet : Packet} {o : ℕ} : Outputs bridge packet o ↔ router.forward e packet = some o := by
  rw [h.forward_iff hsound]
  constructor
  · rintro ⟨f, happlies, rfl⟩
    exact ⟨f, happlies.mem, happlies.covered, rfl⟩
  · rintro ⟨f, hf, hcovers, rfl⟩
    refine ⟨f, ⟨hf, hcovers, fun g hg _ => ?_⟩, rfl⟩
    rw [h.priority hf, h.priority hg]

theorem Router.index_eq_zero (h : router.Sound e) {i : String} :
    router.index i = 0 ↔ router.ports i = none := by
  unfold Router.index
  cases hports : router.ports i with
  | none => simp
  | some n =>
    have hn : n ≠ 0 := by
      rintro rfl
      exact h.positive i hports
    simpa using hn

section Bind

variable {outcome : String → Option ℕ} {i : String}

theorem Router.ports_bind_ne {j : String} (h : j ≠ i) :
    (router.bind outcome i).ports j = router.ports j :=
  Function.update_of_ne h _ _

theorem Router.ports_bind : (router.bind outcome i).ports i = outcome i :=
  Function.update_self ..

theorem Router.index_bind_ne {j : String} (h : j ≠ i) :
    (router.bind outcome i).index j = router.index j := by
  rw [Router.index, Router.ports_bind_ne h]
  rfl

theorem Router.Sound.bind (h : router.Sound e) (hnew : router.index i = 0)
    (hfresh : ∀ n, outcome i = some n → n ≠ 0 ∧ ∀ j, router.ports j ≠ some n) :
    (router.bind outcome i).Sound e := by
  have hnone : router.ports i = none := (Router.index_eq_zero h).mp hnew
  refine ⟨fun j => ?_, fun j k n hj hk => ?_, fun x y hline => ?_, fun x y hline => ?_,
    fun m o hroute => ?_⟩
  · by_cases hji : j = i
    · subst hji
      rw [Router.ports_bind]
      exact fun hzero => (hfresh 0 hzero).1 rfl
    · rw [Router.ports_bind_ne hji]
      exact h.positive j
  · by_cases hji : j = i
    · by_cases hki : k = i
      · rw [hji, hki]
      · rw [Router.ports_bind_ne hki] at hk
        rw [hji, Router.ports_bind] at hj
        exact absurd hk ((hfresh n hj).2 k)
    · by_cases hki : k = i
      · rw [Router.ports_bind_ne hji] at hj
        rw [hki, Router.ports_bind] at hk
        exact absurd hj ((hfresh n hk).2 j)
      · rw [Router.ports_bind_ne hji] at hj
        rw [Router.ports_bind_ne hki] at hk
        exact h.distinct j k n hj hk
  · rcases h.from_wireless x y hline with hzero | ⟨v, hv, hport⟩
    · exact .inl hzero
    · have hvi : v ≠ i := by
        rintro rfl
        rw [hnone] at hport
        cases hport
      exact .inr ⟨v, hv, by rwa [Router.ports_bind_ne hvi]⟩
  · by_cases hie : e = i
    · -- lines that were set up without a wired port go nowhere
      rcases h.to_wired x y hline with hzero | hwired
      · exact .inl hzero
      · exact .inl (by rw [hwired, hie, hnew])
    · rw [Router.index_bind_ne hie]
      exact h.to_wired x y hline
  · have hrouted := h.routed m o hroute
    have hie : e ≠ i := by
      rintro rfl
      exact hrouted.1 hnew
    rwa [Router.index_bind_ne hie]

theorem Realises.bind (h : Realises e bridge router) (hsound : router.Sound e)
    (hnew : router.index i = 0) :
    Realises e (addInterface (fun _ i => outcome i) bridge i) (router.bind outcome i) := by
  refine ⟨by rw [addInterface, h.ports]; rfl, fun f => ?_⟩
  refine (h.flows f).trans (exists_congr fun p => and_congr_right fun _ => ?_)
  refine or_congr Iff.rfl (exists_congr fun m => exists_congr fun o => ?_)
  refine and_congr_right fun hroute => ?_
  have hie : e ≠ i := by
    rintro rfl
    exact (hsound.routed m o hroute).1 hnew
  rw [Router.index_bind_ne hie]

end Bind

theorem Realises.index_eq (h : Realises e bridge router) (i : String) :
    bridge.index i = router.index i := by
  rw [Bridge.index, h.ports]
  rfl

theorem Router.lines_setLine {x y : ℕ} : (router.setLine x y).lines x = some y :=
  Function.update_self ..

theorem Router.lines_setLine_ne {x y x' : ℕ} (h : x' ≠ x) :
    (router.setLine x y).lines x' = router.lines x' :=
  Function.update_of_ne h _ _

/-- A new line for the port of a wireless interface. -/
theorem Router.Sound.line (h : router.Sound e) {v : String} (hv : v ≠ e) :
    (router.setLine (router.index v) (router.index e)).Sound e := by
  refine ⟨h.positive, h.distinct, fun x y hline => ?_, fun x y hline => ?_, h.routed⟩
  · by_cases hx : x = router.index v
    · by_cases hzero : x = 0
      · exact .inl hzero
      · refine .inr ⟨v, hv, ?_⟩
        rw [hx] at hzero ⊢
        exact Router.ports_of_index hzero
    · rw [Router.lines_setLine_ne hx] at hline
      exact h.from_wireless x y hline
  · by_cases hx : x = router.index v
    · subst hx
      rw [Router.lines_setLine, Option.some.injEq] at hline
      exact .inr hline.symm
    · rw [Router.lines_setLine_ne hx] at hline
      exact h.to_wired x y hline

theorem Realises.line (h : Realises e bridge router) (x y : ℕ) :
    Realises e
      { bridge with
        flows := (supportedProtocol.map fun p => downlink x y p).foldl
          (fun t flow => FlowTable.addFlow flow t) bridge.flows }
      (router.setLine x y) := by
  refine ⟨h.ports, fun f => ?_⟩
  rw [mem_foldl_addFlow (downlinks_pairwise x y), h.flows]
  constructor
  · rintro (⟨⟨p, hp, ⟨x', y', hline, rfl⟩ | hroute⟩, hkept⟩ | hnew)
    · have hx : x' ≠ x := by
        rintro rfl
        exact hkept _ (List.mem_map_of_mem hp) ⟨rfl, rfl⟩
      exact ⟨p, hp, .inl ⟨x', y', (Router.lines_setLine_ne hx).trans hline, rfl⟩⟩
    · exact ⟨p, hp, .inr hroute⟩
    · obtain ⟨p, hp, rfl⟩ := List.mem_map.mp hnew
      exact ⟨p, hp, .inl ⟨x, y, Router.lines_setLine, rfl⟩⟩
  · rintro ⟨p, hp, ⟨x', y', hline, rfl⟩ | ⟨m, o, hroute, rfl⟩⟩
    · by_cases hx : x' = x
      · subst hx
        rw [Router.lines_setLine, Option.some.injEq] at hline
        exact .inr (List.mem_map.mpr ⟨p, hp, by rw [hline]⟩)
      · rw [Router.lines_setLine_ne hx] at hline
        refine .inl ⟨⟨p, hp, .inl ⟨x', y', hline, rfl⟩⟩, fun g hg hclash => ?_⟩
        obtain ⟨q, -, rfl⟩ := List.mem_map.mp hg
        exact hx (Option.some.inj (congrArg Pattern.inPort hclash.1))
    · refine .inl ⟨⟨p, hp, .inr ⟨m, o, hroute, rfl⟩⟩, fun g hg hclash => ?_⟩
      obtain ⟨q, -, rfl⟩ := List.mem_map.mp hg
      cases congrArg Pattern.dlSrc hclash.1

theorem Router.routes_setRoute {m : Mac} {port : Option ℕ} :
    (router.setRoute m port).routes m = port :=
  Function.update_self ..

theorem Router.routes_setRoute_ne {m m' : Mac} {port : Option ℕ} (h : m' ≠ m) :
    (router.setRoute m port).routes m' = router.routes m' :=
  Function.update_of_ne h _ _

theorem Router.Sound.setRoute (h : router.Sound e) {m : Mac} {port : Option ℕ}
    (hport : ∀ o ∈ port, router.index e ≠ 0 ∧ o ≠ router.index e) :
    (router.setRoute m port).Sound e := by
  refine ⟨h.positive, h.distinct, h.from_wireless, h.to_wired, fun m' o hroute => ?_⟩
  by_cases hm : m' = m
  · subst hm
    rw [Router.routes_setRoute] at hroute
    exact hport o hroute
  · rw [Router.routes_setRoute_ne hm] at hroute
    exact h.routed m' o hroute

theorem Realises.setRoute (h : Realises e bridge router) (m : Mac) (o : ℕ) :
    Realises e
      { bridge with
        flows := (supportedProtocol.map fun p => uplink (router.index e) m p o).foldl
          (fun t flow => FlowTable.addFlow flow t) bridge.flows }
      (router.setRoute m (some o)) := by
  refine ⟨h.ports, fun f => ?_⟩
  rw [mem_foldl_addFlow (uplinks_pairwise (router.index e) m o), h.flows]
  constructor
  · rintro (⟨⟨p, hp, hline | ⟨m', o', hroute, rfl⟩⟩, hkept⟩ | hnew)
    · exact ⟨p, hp, .inl hline⟩
    · have hm : m' ≠ m := by
        rintro rfl
        exact hkept _ (List.mem_map_of_mem hp) (uplink_clashes.mpr ⟨rfl, rfl⟩)
      exact ⟨p, hp, .inr ⟨m', o', (Router.routes_setRoute_ne hm).trans hroute, rfl⟩⟩
    · obtain ⟨p, hp, rfl⟩ := List.mem_map.mp hnew
      exact ⟨p, hp, .inr ⟨m, o, Router.routes_setRoute, rfl⟩⟩
  · rintro ⟨p, hp, ⟨x, y, hline, rfl⟩ | ⟨m', o', hroute, rfl⟩⟩
    · refine .inl ⟨⟨p, hp, .inl ⟨x, y, hline, rfl⟩⟩, fun g hg hclash => ?_⟩
      obtain ⟨q, -, rfl⟩ := List.mem_map.mp hg
      cases congrArg Pattern.dlSrc hclash.1
    · by_cases hm : m' = m
      · subst hm
        rw [Router.routes_setRoute, Option.some.injEq] at hroute
        exact .inr (List.mem_map.mpr ⟨p, hp, by rw [hroute]; rfl⟩)
      · rw [Router.routes_setRoute_ne hm] at hroute
        refine .inl ⟨⟨p, hp, .inr ⟨m', o', hroute, rfl⟩⟩, fun g hg hclash => ?_⟩
        obtain ⟨q, -, rfl⟩ := List.mem_map.mp hg
        exact hm (uplink_clashes.mp hclash).1

/-- A pattern with a source covers no downlink. -/
theorem not_downlink_le {x y p n : ℕ} {m : Mac} {protocol : Option ℕ} :
    ¬(downlink x y p).pattern ≤ ⟨some n, some m, protocol⟩ := by
  rintro ⟨-, hsource | hsource, -⟩ <;> cases hsource

theorem uplink_le_iff {n p o : ℕ} {m m' : Mac} {protocol : Option ℕ} :
    (uplink n m p o).pattern ≤ ⟨some n, some m', protocol⟩ ↔
      m = m' ∧ (protocol = none ∨ protocol = some p) := by
  change fieldLe _ _ ∧ fieldLe _ _ ∧ fieldLe _ _ ↔ _
  simp [fieldLe, uplink, eq_comm]

theorem Realises.clearRoute (h : Realises e bridge router) (m : Mac) :
    Realises e
      { bridge with
        flows := (uplinkPatterns (router.index e) m).foldl
          (fun t pattern => FlowTable.delFlows pattern t) bridge.flows }
      (router.setRoute m none) := by
  refine ⟨h.ports, fun f => ?_⟩
  rw [mem_foldl_delFlows, h.flows, uplinkPatterns, List.forall_mem_map]
  constructor
  · rintro ⟨⟨p, hp, hline | ⟨m', o, hroute, rfl⟩⟩, hkept⟩
    · exact ⟨p, hp, .inl hline⟩
    · have hm : m' ≠ m := by
        rintro rfl
        exact hkept p hp (uplink_le_iff.mpr ⟨rfl, .inr rfl⟩)
      exact ⟨p, hp, .inr ⟨m', o, (Router.routes_setRoute_ne hm).trans hroute, rfl⟩⟩
  · rintro ⟨p, hp, ⟨x, y, hline, rfl⟩ | ⟨m', o, hroute, rfl⟩⟩
    · exact ⟨⟨p, hp, .inl ⟨x, y, hline, rfl⟩⟩, fun _ _ => not_downlink_le⟩
    · have hm : m' ≠ m := by
        rintro rfl
        rw [Router.routes_setRoute] at hroute
        cases hroute
      rw [Router.routes_setRoute_ne hm] at hroute
      exact ⟨⟨p, hp, .inr ⟨m', o, hroute, rfl⟩⟩, fun _ _ hle => hm (uplink_le_iff.mp hle).1⟩

theorem Router.ports_remove {i : String} {n : ℕ} :
    (router.remove e v).ports i = some n ↔ i ≠ v ∧ router.ports i = some n := by
  by_cases hi : i = v
  · subst hi
    simp [Router.remove]
  · simp [Router.remove, hi]

theorem Router.lines_remove {x y : ℕ} :
    (router.remove e v).lines x = some y ↔ x ≠ router.index v ∧ router.lines x = some y := by
  by_cases hx : x = router.index v
  · subst hx
    simp [Router.remove]
  · simp [Router.remove, hx]

theorem Router.index_remove_ne {i : String} (h : i ≠ v) :
    (router.remove e v).index i = router.index i := by
  simp [Router.index, Router.remove, Function.update_of_ne h]

theorem Router.Sound.remove (h : router.Sound e) (hv : v ≠ e) : (router.remove e v).Sound e := by
  refine ⟨fun i hi => h.positive i (Router.ports_remove.mp hi).2, fun i j n hi hj => ?_,
    fun x y hline => ?_, fun x y hline => ?_, fun m o hroute => ?_⟩
  · exact h.distinct i j n (Router.ports_remove.mp hi).2 (Router.ports_remove.mp hj).2
  · obtain ⟨hx, hold⟩ := Router.lines_remove.mp hline
    rcases h.from_wireless x y hold with hzero | ⟨u, hu, hport⟩
    · exact .inl hzero
    · have huv : u ≠ v := by
        rintro rfl
        exact hx (Router.index_of_ports hport).symm
      exact .inr ⟨u, hu, Router.ports_remove.mpr ⟨huv, hport⟩⟩
  · rw [Router.index_remove_ne hv.symm]
    exact h.to_wired x y (Router.lines_remove.mp hline).2
  · rw [Router.index_remove_ne hv.symm]
    exact h.routed m o (Option.filter_eq_some_iff.mp hroute).1

theorem Realises.mem_dumpedStations (h : Realises e bridge router) {m : Mac} :
    m ∈ dumpedStations bridge (router.index v) (router.index e) ↔
      ∃ o, router.routes m = some o ∧ router.Mistakes e v o := by
  rw [Datapath.mem_dumpedStations]
  constructor
  · rintro ⟨f, hf, n, hn, hm, he, hv⟩
    obtain ⟨p, -, ⟨x, y, -, rfl⟩ | ⟨m', o, hroute, rfl⟩⟩ := (h.flows f).mp hf
    · cases hm
    · obtain rfl := Option.some.inj hn
      obtain rfl := Option.some.inj hm
      exact ⟨o, hroute, he, hv⟩
  · rintro ⟨o, hroute, he, hv⟩
    refine ⟨uplink (router.index e) m 0x0800 o, (h.flows _).mpr ⟨0x0800, ?_, ?_⟩, ?_⟩
    · exact List.mem_cons_self
    · exact .inr ⟨m, o, hroute, rfl⟩
    · exact ⟨_, rfl, rfl, he, hv⟩

theorem downlink_le_iff {x y p n q : ℕ} :
    (downlink x y p).pattern ≤ ⟨some n, none, some q⟩ ↔ x = n ∧ p = q := by
  change fieldLe _ _ ∧ fieldLe _ _ ∧ fieldLe _ _ ↔ _
  simp [fieldLe, downlink]

theorem Router.Sound.index_ne (h : router.Sound e) (hv : v ≠ e) (he : router.index e ≠ 0) :
    router.index v ≠ router.index e := by
  intro heq
  have hv0 : router.index v ≠ 0 := by rwa [heq]
  have hport := Router.ports_of_index hv0
  rw [heq] at hport
  exact hv (h.distinct _ _ _ hport (Router.ports_of_index he))

theorem ports_foldl {ι : Type} {f : Bridge → ι → Bridge} (hf : ∀ b i, (f b i).ports = b.ports)
    (is : List ι) (b : Bridge) : (is.foldl f b).ports = b.ports := by
  induction is generalizing b with
  | nil => rfl
  | cons i is ih => rw [List.foldl_cons, ih, hf]

theorem ports_removeFlow (b : Bridge) (spec : FlowSpec) : (b.removeFlow spec).ports = b.ports := by
  unfold Bridge.removeFlow
  split <;> rfl

theorem ports_remove (bridge : Bridge) (v e : String) :
    (remove bridge v e).ports = Function.update bridge.ports v none := by
  unfold remove removeInterface
  dsimp only
  rw [ports_foldl fun b protocol => ports_removeFlow b _]
  congr 1
  apply ports_foldl
  intro b mac
  rfl

theorem Realises.remove (h : Realises e bridge router) (hsound : router.Sound e) (hv : v ≠ e) :
    Realises e (Datapath.remove bridge v e) (router.remove e v) := by
  refine ⟨by rw [ports_remove, h.ports]; rfl, fun f => ?_⟩
  rw [mem_remove, Left, h.index_eq, h.index_eq, h.flows, Router.index_remove_ne hv.symm]
  simp only [h.mem_dumpedStations]
  constructor
  · rintro ⟨⟨p, hp, ⟨x, y, hline, rfl⟩ | ⟨m, o, hroute, rfl⟩⟩, hstations, hlines⟩
    · have hx : x ≠ router.index v := fun hx => hlines p hp (downlink_le_iff.mpr ⟨hx, rfl⟩)
      exact ⟨p, hp, .inl ⟨x, y, Router.lines_remove.mpr ⟨hx, hline⟩, rfl⟩⟩
    · refine ⟨p, hp, .inr ⟨m, o, Option.filter_eq_some_iff.mpr ⟨hroute, ?_⟩, rfl⟩⟩
      refine decide_eq_true fun hmistakes => ?_
      exact hstations m ⟨o, hroute, hmistakes⟩ (uplink_le_iff.mpr ⟨rfl, .inl rfl⟩)
  · rintro ⟨p, hp, ⟨x, y, hline, rfl⟩ | ⟨m, o, hroute, rfl⟩⟩
    · obtain ⟨hx, hold⟩ := Router.lines_remove.mp hline
      exact ⟨⟨p, hp, .inl ⟨x, y, hold, rfl⟩⟩, fun _ _ => not_downlink_le,
        fun q _ hle => hx (downlink_le_iff.mp hle).1⟩
    · obtain ⟨hroute, hkept⟩ := Option.filter_eq_some_iff.mp hroute
      refine ⟨⟨p, hp, .inr ⟨m, o, hroute, rfl⟩⟩, ?_, ?_⟩
      · rintro m' ⟨o', hroute', hmistakes⟩ hle
        obtain rfl := (uplink_le_iff.mp hle).1
        rw [hroute, Option.some.injEq] at hroute'
        rw [hroute'] at hkept
        exact of_decide_eq_true hkept hmistakes
      · -- the deletion of the downlinks names another port than the wired one
        rintro q - ⟨hin | hin, -⟩
        · cases hin
        · exact hsound.index_ne hv (hsound.routed m o hroute).1 (Option.some.inj hin).symm

section Add

variable {outcome : String → Option ℕ} (h : Realises e bridge router) (hsound : router.Sound e)
  (hfresh : ∀ i n, outcome i = some n → n ≠ 0 ∧ ∀ j, router.ports j ≠ some n)
  (hdistinct : ∀ n, outcome e = some n → outcome v ≠ some n)
include h hsound hfresh hdistinct

/-- The wired interface first. -/
theorem Realises.wire :
    Realises e (wired (fun _ i => outcome i) bridge e) (router.wire e outcome) ∧
      (router.wire e outcome).Sound e ∧
      ∀ n, outcome v = some n → n ≠ 0 ∧ ∀ j, (router.wire e outcome).ports j ≠ some n := by
  unfold wired Router.wire
  rw [h.index_eq]
  split_ifs with hzero
  · refine ⟨h.bind hsound hzero, hsound.bind hzero (hfresh e), fun n hn => ⟨(hfresh v n hn).1, ?_⟩⟩
    intro j hj
    by_cases hje : j = e
    · subst hje
      exact hdistinct n (Router.ports_bind.symm.trans hj) hn
    · rw [Router.ports_bind_ne hje] at hj
      exact (hfresh v n hn).2 j hj
  · exact ⟨h, hsound, hfresh v⟩

theorem Realises.add (hv : v ≠ e) :
    Realises e (Datapath.add (fun _ i => outcome i) bridge v e) (router.add e outcome v) ∧
      (router.add e outcome v).Sound e := by
  obtain ⟨hwired, hwsound, hwfresh⟩ := h.wire hsound hfresh hdistinct
  have hadd : Datapath.add (fun _ i => outcome i) bridge v e =
      if (wired (fun _ i => outcome i) bridge e).index v ≠ 0 then
        wired (fun _ i => outcome i) bridge e
      else
        supportedProtocol.foldl (fun b protocol => b.addFlow 1
          ⟨(addInterface (fun _ i => outcome i) (wired (fun _ i => outcome i) bridge e) v).index v,
            none, some protocol⟩
          ((wired (fun _ i => outcome i) bridge e).index e))
          (addInterface (fun _ i => outcome i) (wired (fun _ i => outcome i) bridge e) v) := rfl
  rw [hadd, Router.add]
  dsimp only
  rw [hwired.index_eq, hwired.index_eq]
  split_ifs with hbound
  · exact ⟨hwired, hwsound⟩
  · have hnew : (router.wire e outcome).index v = 0 := not_not.mp hbound
    have hvirtual : Realises e
        (addInterface (fun _ i => outcome i) (wired (fun _ i => outcome i) bridge e) v)
        ((router.wire e outcome).bind outcome v) := hwired.bind hwsound hnew
    have he : ((router.wire e outcome).bind outcome v).index e = (router.wire e outcome).index e :=
      Router.index_bind_ne hv.symm
    refine ⟨?_, (hwsound.bind hnew hwfresh).line hv⟩
    rw [addDownlinks_eq, hvirtual.index_eq, he]
    exact hvirtual.line _ _

end Add

theorem Realises.associate (h : Realises e bridge router) (hsound : router.Sound e) (hv : v ≠ e)
    (text : String) :
    Realises e (Datapath.associate ofctl bridge v e text)
        ((ofctl.readMac text).elim router (router.associate e v)) ∧
      ((ofctl.readMac text).elim router (router.associate e v)).Sound e := by
  cases hm : ofctl.readMac text with
  | none =>
    have hkept : Datapath.associate ofctl bridge v e text = bridge := by
      simp [Datapath.associate, supportedProtocol, Bridge.addFlow, FlowSpec.pattern, hm]
    rw [hkept]
    exact ⟨h, hsound⟩
  | some m =>
    rw [Option.elim_some, Router.associate]
    split_ifs with hzero
    · have hkept : Datapath.associate ofctl bridge v e text = bridge := by
        rcases hzero with hzero | hzero
        · simp [Datapath.associate, h.index_eq, hzero]
        · simp [Datapath.associate, h.index_eq, hzero]
      rw [hkept]
      exact ⟨h, hsound⟩
    · obtain ⟨hv0, he0⟩ := not_or.mp hzero
      have hpv := Router.ports_of_index hv0
      have hpe := Router.ports_of_index he0
      rw [← h.ports] at hpv hpe
      rw [associate_eq hpv hv0 hpe he0 hm]
      refine ⟨h.setRoute m _, hsound.setRoute fun o ho => ⟨he0, ?_⟩⟩
      rw [← Option.mem_some_iff.mp ho]
      exact hsound.index_ne hv he0

theorem Realises.disassociate (h : Realises e bridge router) (hsound : router.Sound e)
    (v text : String) :
    Realises e (Datapath.disassociate ofctl bridge v e text)
        ((ofctl.readMac text).elim router (router.setRoute · none)) ∧
      ((ofctl.readMac text).elim router (router.setRoute · none)).Sound e := by
  cases hm : ofctl.readMac text with
  | none =>
    have hkept : Datapath.disassociate ofctl bridge v e text = bridge := by
      simp [Datapath.disassociate, supportedProtocol, Bridge.removeFlow, FlowSpec.pattern, hm]
    rw [hkept]
    exact ⟨h, hsound⟩
  | some m =>
    have hrun := stationRun_eq .disassociate bridge v e hm
    rw [stationRun, stationUpdate, ← foldl_delFlows, h.index_eq] at hrun
    rw [hrun]
    exact ⟨h.clearRoute m, hsound.setRoute fun o ho => absurd ho (Option.not_mem_none o)⟩

theorem realises_pathStep (h : Realises e bridge router) (hsound : router.Sound e)
    {call : PathCall} (hvalid : call.Valid e bridge) :
    Realises e (pathStep ofctl e bridge call) (router.step ofctl e call) ∧
      (router.step ofctl e call).Sound e := by
  cases call with
  | add outcome v =>
    obtain ⟨hv, hfresh, hdistinct⟩ := hvalid
    rw [h.ports] at hfresh
    exact h.add hsound hfresh hdistinct hv
  | associate v text => exact h.associate hsound hvalid text
  | disassociate v text => exact h.disassociate hsound v text
  | remove v => exact ⟨h.remove hsound hvalid, hsound.remove hvalid⟩
  | clear =>
    refine ⟨⟨h.ports, fun f => ?_⟩, hsound.positive, hsound.distinct, ?_, ?_, ?_⟩
    · simp [pathStep, clear, Router.step]
    all_goals
      intro _ _ hnone
      cases hnone

theorem sound_empty (e : String) : Router.empty.Sound e := by
  refine ⟨?_, ?_, ?_, ?_, ?_⟩
  · intro _ hnone
    cases hnone
  all_goals
    intros
    contradiction

theorem realises_empty (ofctl : Ofctl) (e : String) :
    Realises e (datapath ofctl e).init Router.empty :=
  ⟨rfl, fun f => by simp [datapath, Router.empty]⟩

theorem exec_realises (h : Realises e bridge router) (hsound : router.Sound e)
    {calls : List PathCall} (hvalid : (datapath ofctl e).Meets (PathCall.Valid e) bridge calls) :
    ∃ bridge', (datapath ofctl e).exec bridge calls = some bridge' ∧
      Realises e bridge' (calls.foldl (Router.step ofctl e) router) ∧
      (calls.foldl (Router.step ofctl e) router).Sound e := by
  induction calls generalizing bridge router with
  | nil => exact ⟨bridge, rfl, h, hsound⟩
  | cons call calls ih =>
    obtain ⟨hcall, hcalls⟩ := hvalid
    obtain ⟨hstep, hsound'⟩ := realises_pathStep h hsound hcall
    exact ih hstep hsound' hcalls

/-- Whatever interfaces and stations come and go, the switch sends every packet where the
router does. -/
theorem datapath_refines_router (ofctl : Ofctl) (e : String) (calls : List PathCall)
    (hvalid : (datapath ofctl e).Meets (PathCall.Valid e) (datapath ofctl e).init calls) :
    ∃ bridge, (datapath ofctl e).exec (datapath ofctl e).init calls = some bridge ∧
      bridge.ports = (calls.foldl (Router.step ofctl e) Router.empty).ports ∧
      ∀ packet o, Outputs bridge packet o ↔
        (calls.foldl (Router.step ofctl e) Router.empty).forward e packet = some o := by
  obtain ⟨bridge, hexec, h, hsound⟩ :=
    exec_realises (realises_empty ofctl e) (sound_empty e) hvalid
  exact ⟨bridge, hexec, h.ports, fun packet o => h.outputs_iff hsound⟩

def madePorts (ethernet wireless : ℕ) (interface : String) : Option ℕ :=
  if interface = "eth0" then some ethernet else some wireless

theorem eq_of_madePorts {ethernet wireless n : ℕ} {i : String}
    (h : madePorts ethernet wireless i = some n) : n = ethernet ∨ n = wireless := by
  unfold madePorts at h
  split_ifs at h
  · exact .inl (Option.some.inj h).symm
  · exact .inr (Option.some.inj h).symm

def roaming : List PathCall :=
  [.add (madePorts 1 2) "wlan0", .add (madePorts 4 3) "wlan1",
    .associate "wlan0" "00:0e:8e:00:00:09", .associate "wlan1" "00:0e:8e:00:00:09"]

theorem valid_roaming :
    (datapath fullReader "eth0").Meets (PathCall.Valid "eth0")
      (datapath fullReader "eth0").init roaming := by
  have hports (j : String) :
      (pathStep fullReader "eth0" (datapath fullReader "eth0").init
          (.add (madePorts 1 2) "wlan0")).ports j =
        if j = "wlan0" then some 2 else if j = "eth0" then some 1 else none := by
    change Function.update (Function.update (fun _ => none) "eth0" (some 1)) "wlan0" (some 2) j = _
    simp [Function.update_apply]
  have hwlan : "wlan0" ≠ "eth0" ∧ "wlan1" ≠ "eth0" := by decide
  refine ⟨⟨hwlan.1, fun i n hn => ?_, fun n hn => ?_⟩,
    ⟨hwlan.2, fun i n hn => ?_, fun n hn => ?_⟩, hwlan.1, hwlan.2, trivial⟩
  · refine ⟨?_, fun j hj => by cases hj⟩
    have := eq_of_madePorts hn
    omega
  · obtain rfl := Option.some.inj hn
    decide
  · have hn := eq_of_madePorts hn
    refine ⟨by omega, fun j hj => ?_⟩
    rw [hports] at hj
    split_ifs at hj
    all_goals
      have := Option.some.inj hj
      omega
  · obtain rfl := Option.some.inj hn
    decide

theorem datapath_refines_router_roaming : ∃ bridge,
    (datapath fullReader "eth0").exec (datapath fullReader "eth0").init roaming = some bridge ∧
    Outputs bridge ⟨1, stationMac, 0x0800⟩ 3 ∧ ¬Outputs bridge ⟨1, stationMac, 0x0800⟩ 2 ∧
    Outputs bridge ⟨2, stationMac, 0x0800⟩ 1 := by
  obtain ⟨bridge, hexec, -, hout⟩ := datapath_refines_router fullReader "eth0" roaming valid_roaming
  refine ⟨bridge, hexec, (hout _ _).mpr ?_, (hout _ _).not.mpr ?_, (hout _ _).mpr ?_⟩
  · decide +kernel
  · decide +kernel
  · decide +kernel

theorem realises_of_reachable (h : (datapath ofctl e).ReachableIf (PathCall.Valid e) bridge) :
    ∃ router : Router, Realises e bridge router ∧ router.Sound e := by
  apply h.invariant (I := fun bridge => ∃ router : Router,
    Realises e bridge router ∧ router.Sound e)
  · exact ⟨_, realises_empty ofctl e, sound_empty e⟩
  · rintro bridge call bridge' ⟨router, hrealises, hsound⟩ hvalid hstep
    obtain rfl : pathStep ofctl e bridge call = bridge' := Option.some.inj hstep
    exact ⟨_, realises_pathStep hrealises hsound hvalid⟩

/-- Lines lead from the wireless ports to the wired one, and routes the other way. -/
theorem Realises.crosses_sides (h : Realises e bridge router) (hsound : router.Sound e)
    {packet : Packet} {o : ℕ} (hout : Outputs bridge packet o) {i u : String}
    (hi : bridge.ports i = some packet.inPort) (hu : bridge.ports u = some o) :
    i = e ↔ u ≠ e := by
  rw [h.outputs_iff hsound, Router.forward_eq_some hsound] at hout
  rw [h.ports] at hi hu
  obtain ⟨-, hline | ⟨hin, hroute⟩⟩ := hout
  · have hwireless : i ≠ e := by
      rcases hsound.from_wireless _ _ hline with hzero | ⟨v, hv, hport⟩
      · rw [hzero] at hi
        exact absurd hi (hsound.positive i)
      · rwa [hsound.distinct _ _ _ hi hport]
    have hwired : u = e := by
      have ho : o ≠ 0 := by
        rintro rfl
        exact hsound.positive u hu
      have hindex := (hsound.to_wired _ _ hline).resolve_left ho
      rw [hindex] at ho hu
      exact hsound.distinct _ _ _ hu (Router.ports_of_index ho)
    simp [hwireless, hwired]
  · obtain ⟨he, hother⟩ := hsound.routed _ _ hroute
    have hwired : i = e := by
      rw [hin] at hi
      exact hsound.distinct _ _ _ hi (Router.ports_of_index he)
    have hwireless : u ≠ e := by
      rintro rfl
      exact hother (Router.index_of_ports hu).symm
    simp [hwireless, hwired]

/-- No packet goes from one wireless interface to another, nor back to the wire: between two
ports of the switch it only ever crosses from the one side to the other. -/
theorem packets_cross_sides (h : (datapath ofctl e).ReachableIf (PathCall.Valid e) bridge)
    {packet : Packet} {o : ℕ} (hout : Outputs bridge packet o) {i u : String}
    (hi : bridge.ports i = some packet.inPort) (hu : bridge.ports u = some o) :
    i = e ↔ u ≠ e := by
  obtain ⟨router, hrealises, hsound⟩ := realises_of_reachable h
  exact hrealises.crosses_sides hsound hout hi hu

theorem packets_cross_sides_roaming : ∃ bridge,
    (datapath fullReader "eth0").ReachableIf (PathCall.Valid "eth0") bridge ∧
    Outputs bridge ⟨2, stationMac, 0x0800⟩ 1 ∧ ("wlan0" = "eth0" ↔ "eth0" ≠ "eth0") := by
  obtain ⟨bridge, hexec, h, hsound⟩ :=
    exec_realises (realises_empty fullReader "eth0") (sound_empty "eth0") valid_roaming
  have hreach := Machine.ReachableIf.exec .init roaming valid_roaming hexec
  have hout : Outputs bridge ⟨2, stationMac, 0x0800⟩ 1 :=
    (h.outputs_iff hsound).mpr (by decide +kernel)
  refine ⟨bridge, hreach, hout, packets_cross_sides hreach hout ?_ ?_⟩
  · rw [h.ports]
    decide +kernel
  · rw [h.ports]
    decide +kernel

end AuroraRelay.Datapath
