import AuroraRelay.ManagementDelivery

/-!
# The two agents hear each other

Both agents listen where the other one sends: `WarpToWlanAgent` on the wire to WARP, which
carries what `MonToWarpAgent` sends as well, and `MonToWarpAgent` on `hwsim0`, which carries
whatever is sent on a monitor interface.  A frame of a station goes up to hostapd and is not
sent back to WARP unless it claims to come from an access point, and nothing goes round for
ever.
-/

namespace AuroraRelay.RelayCascade
open MonToWarp MonitorInterfaces Transition WarpProtocol WarpToWlan

inductive Origin
  | hostapd
  | warp
  deriving DecidableEq

/-- `ethernet` and `air` are the frames that the agents have not yet heard; `received` counts
the frames of WARP, `toWarp` records what was sent to it, and `configured` the addresses that
were ever in the list. -/
structure Relay where
  bssidList : List Mac
  ethernet : List EthernetFrame
  air : List (Origin × List UInt8)
  received : ℕ
  toWarp : List (Origin × List UInt8)
  configured : List Mac

inductive Label
  | bssids (bssidList : List Mac)
  | fromWarp (buffer : List UInt8)
  | hostapd (frame : List UInt8)
  | warpToWlan (lines : List (List UInt8))
  | monToWarp

/-- `WARP_ProtocolSender::send` of a transmit packet; the padding is that of Ethernet. -/
def send (malloc : ℕ → UInt8) (frame : List UInt8) (subtype : UInt8) (info : Transmit) :
    EthernetFrame :=
  let layer := (createTransmit info subtype).buffer malloc ++ frame
  ⟨pcEngine, WarpToWlan.warp, layer ++ List.replicate (46 - layer.length) 0⟩

section Machine

-- the frame as libtins reads it, on its way up and on its way down
variable (libtins : Dot11Constructor) (parse : List UInt8 → MonToWarp.Dot11)
  (hostapd : Mac) (left : Leftover) (malloc malloced : ℕ → UInt8)

/-- `lines` is what `ifconfig` prints at this time. -/
def warpToWlan (s : Relay) (lines : List (List UInt8)) : Option Relay :=
  match s.ethernet with
  | [] => none
  | frame :: rest =>
    match WarpToWlan.process libtins left frame with
    | .error _ => none
    | .ok effect =>
      (sent interfacesSize (shell lines) malloced libtins effect).map fun packets =>
        { s with
          ethernet := rest
          air := s.air ++ packets.map fun packet => (.warp, packet.frame) }

def monToWarp (s : Relay) : Option Relay :=
  match s.air with
  | [] => none
  | (origin, frame) :: rest =>
    match MonToWarp.process hostapd s.bssidList (.radioTap (parse frame)) with
    | .sent subtype info _ =>
      some { s with
        air := rest
        ethernet := s.ethernet ++ [send malloc frame subtype info]
        toWarp := s.toWarp ++ [(origin, frame)] }
    | _ => some { s with air := rest }

def relay : Machine Relay Label where
  init := ⟨[], [], [], 0, [], []⟩
  step s
    | .bssids bssidList =>
      some { s with bssidList := bssidList, configured := s.configured ++ bssidList }
    | .fromWarp buffer =>
      some { s with ethernet := s.ethernet ++ [fromWarp buffer], received := s.received + 1 }
    | .hostapd frame => some { s with air := s.air ++ [(.hostapd, frame)] }
    | .warpToWlan lines => warpToWlan libtins left malloced s lines
    | .monToWarp => monToWarp parse hostapd malloc s

end Machine

def IsManagement (libtins : Dot11Constructor) (frame : List UInt8) : Prop :=
  ∃ header, libtins.dot11 frame = some header ∧ header.management = true

/-- The two readings of a management frame go together. -/
def Reads (libtins : Dot11Constructor) (parse : List UInt8 → MonToWarp.Dot11) : Prop :=
  ∀ frame, IsManagement libtins frame →
    (parse frame).pduType.layer = some .management ∨ (parse frame).pduType = .dot11

/-- A listing of at most `m` monitor interfaces, with names that fit their blocks. -/
structure Listing (m : ℕ) (lines : List (List UInt8)) : Prop where
  text : ∀ line ∈ lines, Util.newline ∉ line ∧ 0 ∉ line
  names : ∀ line ∈ lines, (line.takeWhile (· ≠ Util.blank)).length < 60
  monitors : ∃ monitors : List InterfaceLine, grep monPattern lines =
    monitors.map InterfaceLine.text ∧ monitors.length ≤ m ∧
    (printLines true (monitors.map InterfaceLine.name)).length < interfacesSize

theorem length_monitorOf_le (lines : List (List UInt8)) (addr : Mac) :
    (monitorOf lines addr).length ≤ 1 := by
  rw [monitorOf_eq]
  split_ifs
  · exact Nat.zero_le 1
  · exact le_rfl

section Agents

variable {libtins : Dot11Constructor} {parse : List UInt8 → MonToWarp.Dot11} {hostapd : Mac}
  {left : Leftover} {malloc malloced : ℕ → UInt8} {m : ℕ} {s s' : Relay}
  {lines : List (List UInt8)}

variable (libtins malloced) in
/-- A frame is sent up to one interface more often than there are. -/
theorem sent_of_listing (h : Listing m lines) (effect : Effect) :
    ∃ packets, sent interfacesSize (shell lines) malloced libtins effect = some packets ∧
      packets.length ≤ m + 1 ∧ ∀ packet ∈ packets, effect = .payload packet.frame := by
  obtain ⟨monitors, hmonitors, hm, hsize⟩ := h.monitors
  have hifconfig := ifconfig_shell h.text h.names
  cases effect with
  | payload frame =>
    cases hheader : libtins.dot11 frame with
    | some header =>
      have hnames : ∃ names, interfaceNames interfacesSize (shell lines) malloced
          header.addr1 = some names ∧ names.length ≤ m + 1 := by
        by_cases hbroadcast : header.addr1 = broadcast
        · refine ⟨monitors.map InterfaceLine.name, ?_, ?_⟩
          · rw [hbroadcast]
            exact interfaceNames_broadcast (hifconfig.monitors.trans (by rw [hmonitors])) malloced
              hsize le_rfl
          · rw [List.length_map]
            exact hm.trans (Nat.le_succ m)
        · exact ⟨_, interfaceNames_unicast hifconfig hbroadcast malloced (by decide),
            (length_monitorOf_le lines _).trans (Nat.le_add_left 1 m)⟩
      obtain ⟨names, hnames, hlength⟩ := hnames
      refine ⟨names.map fun name => ⟨name, frame⟩, ?_, ?_, ?_⟩
      · simp only [sent, hheader, hnames]
        rfl
      · rwa [List.length_map]
      · intro packet hpacket
        obtain ⟨name, -, rfl⟩ := List.mem_map.mp hpacket
        rfl
    | none =>
      refine ⟨[], ?_, Nat.zero_le _, fun _ h => by cases h⟩
      simp only [sent, hheader]
  | ignored => exact ⟨[], rfl, Nat.zero_le _, fun _ h => by cases h⟩
  | dropped => exact ⟨[], rfl, Nat.zero_le _, fun _ h => by cases h⟩
  | response kind code => exact ⟨[], rfl, Nat.zero_le _, fun _ h => by cases h⟩

/-- A frame on the wire that did not come from WARP goes no further. -/
theorem process_of_src_ne {frame : EthernetFrame} (h : frame.srcAddr ≠ WarpToWlan.warp) :
    WarpToWlan.process libtins left frame = .ok .ignored := if_neg fun hboth => h hboth.1

theorem warpToWlan_outcome (hl : Listing m lines)
    (hs : warpToWlan libtins left malloced s lines = some s') :
    ∃ frame packets, s.ethernet = frame :: s'.ethernet ∧
      s'.air = s.air ++ packets.map (fun packet : Sent => (Origin.warp, packet.frame)) ∧
      s'.toWarp = s.toWarp ∧ s'.bssidList = s.bssidList ∧ s'.configured = s.configured ∧
      s'.received = s.received ∧ packets.length ≤ m + 1 ∧
      (frame.srcAddr ≠ WarpToWlan.warp → packets = []) ∧
      ∀ packet ∈ packets, IsManagement libtins packet.frame := by
  unfold warpToWlan at hs
  cases hethernet : s.ethernet with
  | nil =>
    rw [hethernet] at hs
    cases hs
  | cons frame rest =>
    rw [hethernet] at hs
    cases hprocess : WarpToWlan.process libtins left frame with
    | error e =>
      simp only [hprocess] at hs
      cases hs
    | ok effect =>
      simp only [hprocess] at hs
      obtain ⟨packets, hpackets, rfl⟩ := Option.map_eq_some_iff.mp hs
      obtain ⟨packets', hpackets', hlength, hframes⟩ := sent_of_listing libtins malloced hl effect
      obtain rfl := Option.some.inj (hpackets.symm.trans hpackets')
      refine ⟨frame, packets, rfl, rfl, rfl, rfl, rfl, rfl, hlength, fun hsrc => ?_,
        fun packet hpacket => process_payload (hprocess.trans (by rw [hframes packet hpacket]))⟩
      have hignored : effect = .ignored :=
        Except.ok.inj (hprocess.symm.trans (process_of_src_ne hsrc))
      rw [hignored] at hpackets
      exact (Option.some.inj hpackets).symm

theorem monToWarp_outcome (hs : monToWarp parse hostapd malloc s = some s') :
    ∃ origin frame, s.air = (origin, frame) :: s'.air ∧ s'.bssidList = s.bssidList ∧
      s'.configured = s.configured ∧ s'.received = s.received ∧
      ((s'.ethernet = s.ethernet ∧ s'.toWarp = s.toWarp) ∨
        ∃ subtype info sentFrame,
          MonToWarp.process hostapd s.bssidList (.radioTap (parse frame)) =
            .sent subtype info sentFrame ∧
          s'.ethernet = s.ethernet ++ [send malloc frame subtype info] ∧
          s'.toWarp = s.toWarp ++ [(origin, frame)]) := by
  unfold monToWarp at hs
  cases hair : s.air with
  | nil =>
    rw [hair] at hs
    cases hs
  | cons entry rest =>
    obtain ⟨origin, frame⟩ := entry
    rw [hair] at hs
    cases hprocess : MonToWarp.process hostapd s.bssidList (.radioTap (parse frame)) with
    | sent subtype info sentFrame =>
      simp only [hprocess] at hs
      obtain rfl := Option.some.inj hs
      exact ⟨origin, frame, rfl, rfl, rfl, rfl, .inr ⟨subtype, info, sentFrame, hprocess, rfl, rfl⟩⟩
    | skipped =>
      simp only [hprocess] at hs
      obtain rfl := Option.some.inj hs
      exact ⟨origin, frame, rfl, rfl, rfl, rfl, .inl ⟨rfl, rfl⟩⟩
    | thrown =>
      simp only [hprocess] at hs
      obtain rfl := Option.some.inj hs
      exact ⟨origin, frame, rfl, rfl, rfl, rfl, .inl ⟨rfl, rfl⟩⟩

end Agents

/-- WARP keeps to the length that its frames announce, and `ifconfig` lists at most `m`
monitor interfaces. -/
def Allowed (libtins : Dot11Constructor) (m : ℕ) (_ : Relay) : Label → Prop
  | .fromWarp buffer => ReadsOnlyReceived libtins buffer
  | .warpToWlan lines => Listing m lines
  | _ => True

def Hears (m : ℕ) (_ : Relay) : Label → Prop
  | .warpToWlan lines => Listing m lines
  | .monToWarp => True
  | _ => False

def frameWeight (m : ℕ) (frame : EthernetFrame) : ℕ :=
  if frame.srcAddr = WarpToWlan.warp then 2 * (m + 1) + 1 else 1

def weight (m : ℕ) (s : Relay) : ℕ := (s.ethernet.map (frameWeight m)).sum + 2 * s.air.length

def fromWarpCount (l : List (Origin × List UInt8)) : ℕ := l.countP fun entry => entry.1 = .warp

def ethernetCount (l : List EthernetFrame) : ℕ :=
  l.countP fun frame => frame.srcAddr = WarpToWlan.warp

structure Contained (libtins : Dot11Constructor) (parse : List UInt8 → MonToWarp.Dot11) (m : ℕ)
    (s : Relay) : Prop where
  listed : ∀ a ∈ s.bssidList, a ∈ s.configured
  air : ∀ entry ∈ s.air, entry.1 = .warp → IsManagement libtins entry.2
  toWarp : ∀ entry ∈ s.toWarp, entry.1 = .warp → (parse entry.2).addr2 ∈ s.configured
  count : fromWarpCount s.toWarp + fromWarpCount s.air + (m + 1) * ethernetCount s.ethernet ≤
    (m + 1) * s.received
  wire : ∀ frame ∈ s.ethernet, frame.srcAddr = pcEngine ∨
    ∃ buffer, frame = fromWarp buffer ∧ ReadsOnlyReceived libtins buffer

section Runs

variable {libtins : Dot11Constructor} {parse : List UInt8 → MonToWarp.Dot11} {hostapd : Mac}
  {left : Leftover} {malloc malloced : ℕ → UInt8} {m : ℕ} {s s' : Relay}

/-- A management frame is sent on only for a source in the list. -/
theorem addr2_mem_of_sent {bssidList : List Mac} {frame : MonToWarp.Dot11} {subtype : UInt8}
    {info : Transmit} {sentFrame : MonToWarp.Dot11}
    (hlayer : frame.pduType.layer = some .management ∨ frame.pduType = .dot11)
    (h : MonToWarp.process hostapd bssidList (.radioTap frame) = .sent subtype info sentFrame) :
    frame.addr2 ∈ bssidList := by
  rcases hlayer with hlayer | hdot11
  · have htype : isManagementFrame frame.pduType = true := by
      revert hlayer
      cases frame.pduType <;> decide
    simp only [MonToWarp.process, htype, hlayer, if_true] at h
    by_contra hmem
    rw [if_neg hmem] at h
    cases h
  · simp only [MonToWarp.process, hdot11, isManagementFrame, PduType.layer, if_true] at h
    cases h

theorem Contained.warpToWlan (h : Contained libtins parse m s) {lines : List (List UInt8)}
    (hl : Listing m lines) (hs : warpToWlan libtins left malloced s lines = some s') :
    Contained libtins parse m s' := by
  obtain ⟨frame, packets, hethernet, hair, htoWarp, hlist, hconfigured, hreceived, hlength,
    hown, hmanagement⟩ := warpToWlan_outcome hl hs
  have hcountAir : fromWarpCount s'.air = fromWarpCount s.air + packets.length := by
    rw [hair, fromWarpCount, fromWarpCount, List.countP_append, List.countP_map]
    congr 1
    exact List.countP_eq_length.mpr fun _ _ => rfl
  have hcountEthernet : packets.length + (m + 1) * ethernetCount s'.ethernet ≤
      (m + 1) * ethernetCount s.ethernet := by
    rw [hethernet, ethernetCount, ethernetCount, List.countP_cons]
    by_cases hsrc : frame.srcAddr = WarpToWlan.warp
    · rw [if_pos (decide_eq_true hsrc), Nat.mul_succ]
      omega
    · rw [hown hsrc, List.length_nil, Nat.zero_add]
      exact Nat.mul_le_mul_left _ (Nat.le_add_right _ _)
  refine ⟨?_, ?_, ?_, ?_, ?_⟩
  · rw [hlist, hconfigured]
    exact h.listed
  · rw [hair]
    intro entry hentry horigin
    rcases List.mem_append.mp hentry with hold | hnew
    · exact h.air entry hold horigin
    · obtain ⟨packet, hpacket, rfl⟩ := List.mem_map.mp hnew
      exact hmanagement packet hpacket
  · rw [htoWarp, hconfigured]
    exact h.toWarp
  · have hcount := h.count
    rw [htoWarp, hcountAir, hreceived]
    omega
  · intro frame' hframe'
    exact h.wire frame' (by rw [hethernet]; exact List.mem_cons_of_mem _ hframe')

theorem Contained.monToWarp (hreads : Reads libtins parse) (h : Contained libtins parse m s)
    (hs : monToWarp parse hostapd malloc s = some s') : Contained libtins parse m s' := by
  obtain ⟨origin, frame, hair, hlist, hconfigured, hreceived, hsent⟩ := monToWarp_outcome hs
  have hcountAir : fromWarpCount s.air =
      fromWarpCount s'.air + if origin = .warp then 1 else 0 := by
    rw [hair, fromWarpCount, List.countP_cons]
    simp only [decide_eq_true_eq]
    rfl
  have hairs : ∀ entry ∈ s'.air, entry.1 = .warp → IsManagement libtins entry.2 :=
    fun entry hentry => h.air entry (by rw [hair]; exact List.mem_cons_of_mem _ hentry)
  have hcount := h.count
  rw [hcountAir] at hcount
  rcases hsent with ⟨hethernet, htoWarp⟩ | ⟨subtype, info, sentFrame, hprocess, hethernet, htoWarp⟩
  · refine ⟨?_, hairs, ?_, ?_, ?_⟩
    · rw [hlist, hconfigured]
      exact h.listed
    · rw [htoWarp, hconfigured]
      exact h.toWarp
    · rw [htoWarp, hethernet, hreceived]
      omega
    · rw [hethernet]
      exact h.wire
  · refine ⟨?_, hairs, ?_, ?_, ?_⟩
    · rw [hlist, hconfigured]
      exact h.listed
    · rw [htoWarp, hconfigured]
      intro entry hentry horigin
      rcases List.mem_append.mp hentry with hold | hnew
      · exact h.toWarp entry hold horigin
      · -- a frame of WARP is a management frame, which needs a source in the list
        obtain rfl := List.mem_singleton.mp hnew
        have hmanagement := h.air (origin, frame) (by rw [hair]; exact List.mem_cons_self) horigin
        exact h.listed _ (addr2_mem_of_sent (hreads frame hmanagement) hprocess)
    · have hcountToWarp : fromWarpCount s'.toWarp =
          fromWarpCount s.toWarp + if origin = .warp then 1 else 0 := by
        rw [htoWarp, fromWarpCount, List.countP_append, List.countP_singleton]
        simp only [decide_eq_true_eq]
        rfl
      have hcountEthernet : ethernetCount s'.ethernet = ethernetCount s.ethernet := by
        rw [hethernet, ethernetCount, List.countP_append, List.countP_singleton]
        exact Nat.add_zero _
      rw [hcountToWarp, hcountEthernet, hreceived]
      omega
    · rw [hethernet]
      intro frame' hframe'
      rcases List.mem_append.mp hframe' with hold | hnew
      · exact h.wire frame' hold
      · rw [List.mem_singleton.mp hnew]
        exact .inl rfl

theorem contained_of_reachable (hreads : Reads libtins parse)
    (h : (relay libtins parse hostapd left malloc malloced).ReachableIf (Allowed libtins m) s) :
    Contained libtins parse m s := by
  apply h.invariant (I := Contained libtins parse m)
  · refine ⟨?_, ?_, ?_, Nat.zero_le _, ?_⟩
    · exact fun a ha => by cases ha
    · exact fun entry hentry => by cases hentry
    · exact fun entry hentry => by cases hentry
    · exact fun frame hframe => by cases hframe
  · intro s l s' hi hallowed hs
    cases l with
    | bssids bssidList =>
      obtain rfl := Option.some.inj hs
      refine ⟨fun a ha => List.mem_append_right _ ha, hi.air, ?_, hi.count, hi.wire⟩
      exact fun entry hentry horigin => List.mem_append_left _ (hi.toWarp entry hentry horigin)
    | fromWarp buffer =>
      obtain rfl := Option.some.inj hs
      refine ⟨hi.listed, hi.air, hi.toWarp, ?_, ?_⟩
      · have hcount := hi.count
        have hmore : ethernetCount (s.ethernet ++ [fromWarp buffer]) =
            ethernetCount s.ethernet + 1 := by
          rw [ethernetCount, List.countP_append, List.countP_singleton]
          rfl
        change _ + (m + 1) * ethernetCount (s.ethernet ++ [fromWarp buffer]) ≤
          (m + 1) * (s.received + 1)
        rw [hmore, Nat.mul_succ, Nat.mul_succ, ← Nat.add_assoc]
        exact Nat.add_le_add_right hcount (m + 1)
      · intro frame hframe
        rcases List.mem_append.mp hframe with hold | hnew
        · exact hi.wire frame hold
        · exact .inr ⟨buffer, List.mem_singleton.mp hnew, hallowed⟩
    | hostapd frame =>
      obtain rfl := Option.some.inj hs
      refine ⟨hi.listed, ?_, hi.toWarp, ?_, hi.wire⟩
      · intro entry hentry horigin
        rcases List.mem_append.mp hentry with hold | hnew
        · exact hi.air entry hold horigin
        · rw [List.mem_singleton.mp hnew] at horigin
          cases horigin
      · have hcount := hi.count
        have hsame : fromWarpCount (s.air ++ [(Origin.hostapd, frame)]) = fromWarpCount s.air := by
          rw [fromWarpCount, List.countP_append, List.countP_singleton]
          exact Nat.add_zero _
        change fromWarpCount s.toWarp + fromWarpCount (s.air ++ [(Origin.hostapd, frame)]) + _ ≤ _
        rw [hsame]
        exact hcount
    | warpToWlan lines => exact hi.warpToWlan hallowed hs
    | monToWarp => exact hi.monToWarp hreads hs

/-- Every step of an agent uses something up. -/
theorem weight_lt {l : Label} (hc : Hears m s l)
    (hs : (relay libtins parse hostapd left malloc malloced).step s l = some s') :
    weight m s' < weight m s := by
  cases l with
  | warpToWlan lines =>
    obtain ⟨frame, packets, hethernet, hair, -, -, -, -, hlength, hown, -⟩ :=
      warpToWlan_outcome hc hs
    rw [weight, weight, hethernet, hair, List.map_cons, List.sum_cons, List.length_append,
      List.length_map, frameWeight]
    split_ifs with hsrc
    · omega
    · rw [hown hsrc, List.length_nil]
      omega
  | monToWarp =>
    obtain ⟨origin, frame, hair, -, -, -, hsent⟩ := monToWarp_outcome hs
    rw [weight, weight, hair, List.length_cons]
    rcases hsent with ⟨hethernet, -⟩ | ⟨subtype, info, sentFrame, -, hethernet, -⟩
    · rw [hethernet]
      omega
    · rw [hethernet, List.map_append, List.sum_append, List.map_singleton, List.sum_singleton]
      have hone : frameWeight m (send malloc frame subtype info) = 1 :=
        if_neg (show ¬pcEngine = WarpToWlan.warp by decide)
      omega
  | bssids bssidList => exact hc.elim
  | fromWarp buffer => exact hc.elim
  | hostapd frame => exact hc.elim

end Runs

namespace Claimed

def ap : Mac := #v[2, 0, 0, 0, 0, 0x0b]

/-- A deauthentication to one access point that names another as its source. -/
def deauth : List UInt8 :=
  [0xc0, 0x00, 0x00, 0x00, 0x02, 0x00, 0x00, 0x00, 0x00, 0x0a] ++ ap.toList ++ ap.toList ++
    [0x30, 0x00, 0x07, 0x00]

def parse (frame : List UInt8) : MonToWarp.Dot11 :=
  ⟨if frame.head? = some 0xc0 then .deauth else .dot11, addressAt 4 frame, addressAt 10 frame,
    frame.length⟩

def machine : Machine Relay Label :=
  relay ieee80211 parse broadcast noLeftover (fun _ => 0) (fun _ => 0)

def buffer : List UInt8 := [typeTransmit, 0, 0, 26] ++ deauth

def onWire : Relay := ⟨[ap], [fromWarp buffer], [], 1, [], [ap]⟩

def onAir : Relay := ⟨[ap], [], [(.warp, deauth)], 1, [], [ap]⟩

def back : Relay :=
  ⟨[ap], [send (fun _ => 0) deauth subtypeManagementTransmit
    { defaultTransmit broadcast with retry := maxRetry, payloadSize := 26 }], [], 1,
    [(.warp, deauth)], [ap]⟩

theorem reads : Reads ieee80211 parse := by
  intro frame _
  simp only [parse]
  split_ifs
  · exact .inl rfl
  · exact .inr rfl

theorem listing : Listing 1 apLines :=
  ⟨apLines_text, apLines_names, [firstInterface], by decide, le_rfl, by decide⟩

theorem step_onWire : machine.step onWire (.warpToWlan apLines) = some onAir := by
  have hprocess : WarpToWlan.process ieee80211 noLeftover (fromWarp buffer) =
      .ok (.payload deauth) := by decide
  have hsent : sent interfacesSize (shell apLines) (fun _ => 0) ieee80211 (.payload deauth) =
      some [⟨bytes "mon.wlan0", deauth⟩] := by decide
  simp only [machine, relay, warpToWlan, onWire, hprocess, hsent]
  rfl

theorem step_onAir : machine.step onAir .monToWarp = some back := rfl

theorem reachable_onWire : machine.ReachableIf (Allowed ieee80211 1) onWire := by
  refine .step (.step .init (l := .bssids [ap]) trivial rfl) (l := .fromWarp buffer) ?_ rfl
  exact (readsOnlyReceived_transmit rfl).mpr
    ⟨26, by decide, fun _ => ⟨by decide, fun _ => by decide⟩⟩

theorem reachable_back : machine.ReachableIf (Allowed ieee80211 1) back := by
  have hheard : Allowed ieee80211 1 onWire (.warpToWlan apLines) := listing
  exact (reachable_onWire.step hheard step_onWire).step (l := .monToWarp) trivial step_onAir

end Claimed

/-- Whatever WARP and hostapd send and however the list changes: of the frames that came from
WARP only those that name an access point as their source go back to it, and no more than one
for each monitor interface. -/
theorem no_echo {libtins : Dot11Constructor}
    {parse : List UInt8 → MonToWarp.Dot11} {hostapd : Mac} {left : Leftover}
    {malloc malloced : ℕ → UInt8} {m : ℕ} {s : Relay} (hreads : Reads libtins parse)
    (h : (relay libtins parse hostapd left malloc malloced).ReachableIf (Allowed libtins m) s) :
    (∀ frame, (Origin.warp, frame) ∈ s.toWarp → (parse frame).addr2 ∈ s.configured) ∧
      fromWarpCount s.toWarp ≤ (m + 1) * s.received := by
  have hcontained := contained_of_reachable hreads h
  refine ⟨fun frame hframe => hcontained.toWarp _ hframe rfl, ?_⟩
  have hcount := hcontained.count
  omega

theorem no_echo_claimed :
    (∀ frame, (Origin.warp, frame) ∈ Claimed.back.toWarp →
      (Claimed.parse frame).addr2 ∈ Claimed.back.configured) ∧
      fromWarpCount Claimed.back.toWarp ≤ (1 + 1) * Claimed.back.received :=
  no_echo Claimed.reads Claimed.reachable_back

/-- Left alone, the agents come to rest: they take a bounded number of steps, and as long as
there is a frame that one of them has not heard, that one can go on. -/
theorem relay_settles {libtins : Dot11Constructor}
    {parse : List UInt8 → MonToWarp.Dot11} {hostapd : Mac} {left : Leftover}
    {malloc malloced : ℕ → UInt8} {m : ℕ} {s t : Relay} (hreads : Reads libtins parse)
    (h : (relay libtins parse hostapd left malloc malloced).ReachableIf (Allowed libtins m) s)
    {ls : List Label}
    (hhears : (relay libtins parse hostapd left malloc malloced).Meets (Hears m) s ls)
    (hexec : (relay libtins parse hostapd left malloc malloced).exec s ls = some t) :
    ls.length ≤ weight m s ∧
      (t.ethernet ≠ [] → ∀ lines, Listing m lines →
        (warpToWlan libtins left malloced t lines).isSome) ∧
      (t.air ≠ [] → (monToWarp parse hostapd malloc t).isSome) := by
  have hsteps := hhears.length_le (f := weight m) (fun _ _ _ => weight_lt) hexec
  have ht : (relay libtins parse hostapd left malloc malloced).ReachableIf
      (Allowed libtins m) t := by
    refine h.exec ls (hhears.mono fun s l hl => ?_) hexec
    cases l with
    | warpToWlan lines => exact hl
    | monToWarp => trivial
    | bssids bssidList => exact hl.elim
    | fromWarp buffer => exact hl.elim
    | hostapd frame => exact hl.elim
  refine ⟨by omega, fun hethernet lines hlines => ?_, fun hair => ?_⟩
  · obtain ⟨frame, rest, hcons⟩ := List.exists_cons_of_ne_nil hethernet
    have hprocess : ∃ effect, WarpToWlan.process libtins left frame = .ok effect := by
      rcases (contained_of_reachable hreads ht).wire frame (by rw [hcons]; exact List.mem_cons_self)
        with hown | ⟨buffer, rfl, hreceived⟩
      · exact ⟨.ignored, process_of_src_ne (by rw [hown]; decide)⟩
      · obtain ⟨effect, heffect, -⟩ := hreceived left
        exact ⟨effect, heffect⟩
    obtain ⟨effect, heffect⟩ := hprocess
    obtain ⟨packets, hpackets, -⟩ := sent_of_listing libtins malloced hlines effect
    simp only [warpToWlan, hcons, heffect, hpackets]
    rfl
  · obtain ⟨⟨origin, frame⟩, rest, hcons⟩ := List.exists_cons_of_ne_nil hair
    simp only [monToWarp, hcons]
    split <;> rfl

theorem relay_settles_claimed :
    [Label.warpToWlan apLines, .monToWarp].length ≤ weight 1 Claimed.onWire ∧
      (Claimed.back.ethernet ≠ [] → ∀ lines, Listing 1 lines →
        (warpToWlan ieee80211 noLeftover (fun _ => 0) Claimed.back lines).isSome) ∧
      (Claimed.back.air ≠ [] →
        (monToWarp Claimed.parse broadcast (fun _ => 0) Claimed.back).isSome) := by
  apply relay_settles Claimed.reads Claimed.reachable_onWire
  · refine ⟨Claimed.listing, ?_⟩
    rw [← Claimed.machine, Claimed.step_onWire]
    exact ⟨trivial, trivial⟩
  · rw [← Claimed.machine, Machine.exec, Claimed.step_onWire]
    rfl

end AuroraRelay.RelayCascade
