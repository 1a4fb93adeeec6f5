import Mathlib.Data.List.Count
import AuroraRelay.Lib.Counter
import AuroraRelay.MacText
import AuroraRelay.RadioSet

/-!
# From the monitor interface to WARP

`mon_to_warp_agent.cpp`: the frames of the access points are sent on to WARP if their source
is in the list of configured addresses.  An add appends an address to the list, a remove
erases the first entry whose printed form is the text of the command; so an address that was
added twice, or is deleted in another spelling than the printed one, stays.
-/

namespace AuroraRelay.MonToWarp
open CommsAgent WarpProtocol

inductive PduType
  | dot11
  | ack
  | assocReq
  | assocResp
  | auth
  | beacon
  | blockAck
  | blockAckReq
  | cfEnd
  | data
  | deauth
  | diassoc
  | endCfAck
  | probeReq
  | probeResp
  | psPoll
  | reassocReq
  | reassocResp
  | rts
  | qosData
  deriving DecidableEq

/-- The classes that `rfind_pdu` looks for. -/
inductive Layer
  | management
  | data
  | control
  deriving DecidableEq

def PduType.layer : PduType → Option Layer
  | .dot11 => none
  | .assocReq | .assocResp | .auth | .beacon | .deauth | .diassoc | .probeReq | .probeResp
  | .reassocReq | .reassocResp => some .management
  | .data | .qosData => some .data
  | .ack | .blockAck | .blockAckReq | .cfEnd | .endCfAck | .psPoll | .rts => some .control

def isManagementFrame : PduType → Bool
  | .dot11 | .beacon | .probeReq | .probeResp | .auth | .deauth | .assocReq | .assocResp
  | .reassocReq | .reassocResp | .diassoc => true
  | _ => false

structure Dot11 where
  pduType : PduType
  addr1 : Mac
  addr2 : Mac
  size : ℕ
  deriving DecidableEq

inductive Packet
  | radioTap (inner : Dot11)
  | other

/-- A frame is sent behind a transmit header, or not sent, or `rfind_pdu` throws. -/
inductive Outcome
  | sent (subtype : UInt8) (info : Transmit) (frame : Dot11)
  | skipped
  | thrown
  deriving DecidableEq

abbrev subtypeManagementTransmit : UInt8 := 0
abbrev subtypeDataTransmit : UInt8 := 1
abbrev defaultTransmitFlag : UInt8 := 0
abbrev maxRetry : UInt8 := 7
def broadcast : Mac := #v[0xff, 0xff, 0xff, 0xff, 0xff, 0xff]

def defaultTransmit (hostapd : Mac) : Transmit := ⟨defaultTransmitFlag, maxRetry, 0, hostapd⟩

def transmit (hostapd : Mac) (subtype retry : UInt8) (frame : Dot11) : Outcome :=
  .sent subtype { defaultTransmit hostapd with
    retry := retry
    payloadSize := UInt16.ofNat frame.size } frame

/-- `hostapd` is the address that the agent was started with. -/
def process (hostapd : Mac) (bssidList : List Mac) : Packet → Outcome
  | .radioTap frame =>
    if isManagementFrame frame.pduType then
      if frame.pduType.layer = some .management then
        if frame.addr2 ∈ bssidList then
          transmit hostapd subtypeManagementTransmit
            (if frame.addr1 = broadcast then 0 else maxRetry) frame
        else .skipped
      else .thrown
    else if frame.pduType = .data then
      if frame.addr2 = hostapd ∨ frame.addr2 = broadcast ∨ frame.addr2 ∈ bssidList then
        transmit hostapd subtypeDataTransmit maxRetry frame
      else .skipped
    else if frame.pduType.layer = some .control then
      if frame.addr1 ≠ hostapd then transmit hostapd subtypeDataTransmit maxRetry frame
      else .skipped
    else .thrown
  | .other => .skipped

def Forwards (hostapd : Mac) (bssidList : List Mac) (frame : Dot11) : Prop :=
  ∃ subtype info, process hostapd bssidList (.radioTap frame) = .sent subtype info frame

theorem forwards_management {hostapd : Mac} {bssidList : List Mac} {frame : Dot11}
    (h : frame.pduType.layer = some .management) :
    Forwards hostapd bssidList frame ↔ frame.addr2 ∈ bssidList := by
  have htype : isManagementFrame frame.pduType = true := by
    revert h
    cases frame.pduType <;> decide
  simp only [Forwards, process, htype, if_true, h]
  by_cases hmem : frame.addr2 ∈ bssidList
  · simp [hmem, transmit]
  · simp [hmem]

section Agent

-- `HWAddress(text)` and `to_string`
variable (read : String → Mac) (print : Mac → String)

def sync (bssidList : List Mac) : NodeOp → String → List Mac
  | .bssidAdd, addr => bssidList ++ [read addr]
  | .bssidRemove, addr => bssidList.eraseP fun entry => print entry = addr
  | _, _ => bssidList

def afterUpdates (us : List (NodeOp × String)) : List Mac :=
  us.foldl (fun bssidList u => sync read print bssidList u.1 u.2) []

end Agent

def LowerCase (text : String) : Prop := ∀ c ∈ text.toList, c.isUpper = false

instance (text : String) : Decidable (LowerCase text) := List.decidableBAll _ _

/-- What the documentation of the address class says. -/
structure Lawful (read : String → Mac) (print : Mac → String) : Prop where
  reads : ∀ text m, IsMacText text m → read text = m
  prints : ∀ m, IsMacText (print m) m
  lowerCase : ∀ m, LowerCase (print m)

theorem hexDigit_cases {c : Char} {v : UInt8} (h : hexDigit c = some v) :
    (48 ≤ c.toNat ∧ c.toNat ≤ 57 ∧ v.toNat = c.toNat - 48) ∨
      (97 ≤ c.toNat ∧ c.toNat ≤ 102 ∧ v.toNat = c.toNat - 87) ∨
      (65 ≤ c.toNat ∧ c.toNat ≤ 70 ∧ v.toNat = c.toNat - 55) := by
  have hbyte {n : ℕ} (hn : n < 16) : (UInt8.ofNat n).toNat = n := by
    rw [UInt8.toNat_ofNat']
    omega
  unfold hexDigit at h
  split_ifs at h with hdigit hlower hupper
  · have hr : 48 ≤ c.toNat ∧ c.toNat ≤ 57 := hdigit
    have hv : v.toNat = c.toNat - 48 := by
      rw [← Option.some.inj h]
      exact hbyte (show c.toNat - 48 < 16 by omega)
    exact .inl ⟨hr.1, hr.2, hv⟩
  · have hr : 97 ≤ c.toNat ∧ c.toNat ≤ 102 := hlower
    have hv : v.toNat = c.toNat - 97 + 10 := by
      rw [← Option.some.inj h]
      exact hbyte (show c.toNat - 97 + 10 < 16 by omega)
    exact .inr (.inl ⟨hr.1, hr.2, by omega⟩)
  · have hr : 65 ≤ c.toNat ∧ c.toNat ≤ 70 := hupper
    have hv : v.toNat = c.toNat - 65 + 10 := by
      rw [← Option.some.inj h]
      exact hbyte (show c.toNat - 65 + 10 < 16 by omega)
    exact .inr (.inr ⟨hr.1, hr.2, by omega⟩)

theorem not_upper {c : Char} (h : c.isUpper = false) : ¬(65 ≤ c.toNat ∧ c.toNat ≤ 90) := by
  rintro ⟨hlow, hhigh⟩
  unfold Char.isUpper at h
  simp only [ge_iff_le, Bool.decide_and, Bool.and_eq_false_imp, decide_eq_true_eq,
    decide_eq_false_iff_not] at h
  exact h (UInt32.le_iff_toNat_le.mpr hlow) (UInt32.le_iff_toNat_le.mpr hhigh)

/-- A digit has one spelling without capitals. -/
theorem hexDigit_inj {c d : Char} {v : UInt8} (hc : hexDigit c = some v) (hd : hexDigit d = some v)
    (hcl : c.isUpper = false) (hdl : d.isUpper = false) : c = d := by
  have hc' := hexDigit_cases hc
  have hd' := hexDigit_cases hd
  have hcu := not_upper hcl
  have hdu := not_upper hdl
  apply Char.toNat_inj.mp
  omega

theorem digits_of_octet {c d c' d' : Char} {v w v' w' : UInt8} (hc : hexDigit c = some v)
    (hd : hexDigit d = some w) (hc' : hexDigit c' = some v') (hd' : hexDigit d' = some w')
    (h : 16 * v + w = 16 * v' + w') : v = v' ∧ w = w' := by
  have hlt {e : Char} {u : UInt8} (he : hexDigit e = some u) : u.toNat < 16 := by
    have := hexDigit_cases he
    omega
  have hv := hlt hc
  have hw := hlt hd
  have hv' := hlt hc'
  have hw' := hlt hd'
  have hn := congrArg UInt8.toNat h
  simp only [UInt8.toNat_add, UInt8.toNat_mul, UInt8.reduceToNat] at hn
  rw [← UInt8.toNat_inj, ← UInt8.toNat_inj]
  omega

/-- Octets have one spelling without capitals. -/
theorem spells_unique {text text' : List Char} {octets : List UInt8} (h : Spells text octets)
    (h' : Spells text' octets) (hl : ∀ c ∈ text, c.isUpper = false)
    (hl' : ∀ c ∈ text', c.isUpper = false) : text = text' := by
  induction h generalizing text' with
  | @last c d v w hc hd =>
    generalize ho : [16 * v + w] = octets at h'
    cases h' with
    | last hc' hd' =>
      obtain ⟨rfl, rfl⟩ := digits_of_octet hc hd hc' hd' (List.cons.inj ho).1
      rw [hexDigit_inj hc hc' (hl _ (by simp)) (hl' _ (by simp)),
        hexDigit_inj hd hd' (hl _ (by simp)) (hl' _ (by simp))]
    | more hc' hd' h' => cases h' <;> cases (List.cons.inj ho).2
  | @more c d v w text octets hc hd h ih =>
    generalize ho : (16 * v + w) :: octets = octets' at h'
    cases h' with
    | last hc' hd' =>
      obtain rfl := (List.cons.inj ho).2
      cases h
    | more hc' hd' h' =>
      obtain ⟨rfl, rfl⟩ := digits_of_octet hc hd hc' hd' (List.cons.inj ho).1
      obtain rfl := (List.cons.inj ho).2
      rw [hexDigit_inj hc hc' (hl _ (by simp)) (hl' _ (by simp)),
        hexDigit_inj hd hd' (hl _ (by simp)) (hl' _ (by simp)),
        ih h' (fun e he => hl e (by simp [he])) fun e he => hl' e (by simp [he])]

/-- A text spells one address. -/
theorem isMacText_unique {text : String} {m m' : Mac} (h : IsMacText text m)
    (h' : IsMacText text m') : m = m' := by
  have hm := parseMac_of_isMacText h
  have hm' := parseMac_of_isMacText h'
  exact Option.some.inj (hm.symm.trans hm')

section

variable {read : String → Mac} {print : Mac → String} (hlaw : Lawful read print)
include hlaw

/-- The printed form of an address is its spelling without capitals. -/
theorem print_eq_iff {text : String} {m a : Mac} (h : IsMacText text m) :
    print a = text ↔ m = a ∧ LowerCase text := by
  constructor
  · rintro rfl
    exact ⟨isMacText_unique h (hlaw.prints a), hlaw.lowerCase a⟩
  · rintro ⟨rfl, hl⟩
    exact String.toList_inj.mp (spells_unique (hlaw.prints m) h (hlaw.lowerCase m) hl)

end

inductive Change
  | add
  | remove
  deriving DecidableEq

def Change.op : Change → NodeOp
  | .add => .bssidAdd
  | .remove => .bssidRemove

/-- A command that `parse_json` completes, with the answers of WARP that made it succeed, and
the address that it names. -/
structure Command (jsonLoads : String → Option Json) where
  text : String
  answers : ℕ → TimedReply
  change : Change
  macaddr : String
  address : Mac
  succeeds : updates (transcript answers (parseJson jsonLoads text)).1 = [(change.op, macaddr)]
  spells : IsMacText macaddr address

namespace Command

variable {jsonLoads : String → Option Json}

def updates (c : Command jsonLoads) : List (NodeOp × String) :=
  CommsAgent.updates (transcript c.answers (parseJson jsonLoads c.text)).1

def addsTo (a : Mac) (c : Command jsonLoads) : Bool := c.change = .add ∧ c.address = a

/-- The command removes the address, in the spelling that is printed. -/
def removesExactly (a : Mac) (c : Command jsonLoads) : Bool :=
  c.change = .remove ∧ c.address = a ∧ LowerCase c.macaddr

end Command

section

variable {jsonLoads : String → Option Json}

/-- What the last command that names the address did. -/
def lastNaming (a : Mac) (commands : List (Command jsonLoads)) : Option Change :=
  (commands.filter fun c => c.address = a).getLast?.map Command.change

def configured (read : String → Mac) (print : Mac → String)
    (commands : List (Command jsonLoads)) : List Mac :=
  afterUpdates read print (commands.flatMap Command.updates)

theorem lastNaming_concat (a : Mac) (commands : List (Command jsonLoads)) (c : Command jsonLoads) :
    lastNaming a (commands ++ [c]) =
      if c.address = a then some c.change else lastNaming a commands := by
  by_cases h : c.address = a
  · simp [lastNaming, h]
  · simp [lastNaming, h]

theorem configured_concat (read : String → Mac) (print : Mac → String)
    (commands : List (Command jsonLoads)) (c : Command jsonLoads) :
    configured read print (commands ++ [c]) =
      sync read print (configured read print commands) c.change.op c.macaddr := by
  have hupdates : c.updates = [(c.change.op, c.macaddr)] := c.succeeds
  simp only [configured, afterUpdates, List.flatMap_append, List.flatMap_singleton, hupdates,
    List.foldl_append, List.foldl_cons, List.foldl_nil]

end

theorem count_eraseP_of_neg {bssidList : List Mac} {a : Mac} {p : Mac → Bool} (h : p a = false) :
    (bssidList.eraseP p).count a = bssidList.count a := by
  induction bssidList with
  | nil => rfl
  | cons b bssidList ih =>
    by_cases hb : p b = true
    · have hne : b ≠ a := by
        rintro rfl
        rw [h] at hb
        cases hb
      rw [List.eraseP_cons_of_pos hb, List.count_cons_of_ne hne]
    · rw [List.eraseP_cons_of_neg hb, List.count_cons, List.count_cons, ih]

section

variable {read : String → Mac} {print : Mac → String} {jsonLoads : String → Option Json}
  (hlaw : Lawful read print)
include hlaw

/-- One command counts its address up, or down if it removes it as it is printed. -/
theorem count_sync (bssidList : List Mac) (a : Mac) (c : Command jsonLoads) :
    (sync read print bssidList c.change.op c.macaddr).count a =
      Counter.step (Command.addsTo a) (Command.removesExactly a) (bssidList.count a) c := by
  have hprint (m : Mac) := print_eq_iff hlaw (a := m) c.spells
  cases hc : c.change with
  | add =>
    have hread := hlaw.reads c.macaddr c.address c.spells
    by_cases ha : c.address = a
    · simp [sync, Change.op, Counter.step, Command.addsTo, hc, hread, ha]
    · simp [sync, Change.op, Counter.step, Command.addsTo, Command.removesExactly, hc, hread, ha]
  | remove =>
    change (bssidList.eraseP fun entry => print entry = c.macaddr).count a = _
    by_cases ha : c.address = a ∧ LowerCase c.macaddr
    · have hsame : (fun entry => decide (print entry = c.macaddr)) = (a == ·) := by
        funext entry
        rw [Bool.eq_iff_iff, decide_eq_true_eq, beq_iff_eq, hprint entry, ha.1]
        exact and_iff_left ha.2
      rw [hsame, ← List.erase_eq_eraseP, List.count_erase_self]
      simp [Counter.step, Command.addsTo, Command.removesExactly, hc, ha]
    · have hneg : decide (print a = c.macaddr) = false := by
        rw [decide_eq_false_iff_not, hprint a]
        exact ha
      rw [count_eraseP_of_neg hneg]
      simp [Counter.step, Command.addsTo, Command.removesExactly, hc, ha]

theorem count_configured (commands : List (Command jsonLoads)) (a : Mac) :
    (configured read print commands).count a =
      Counter.value (Command.addsTo a) (Command.removesExactly a) commands := by
  induction commands using List.reverseRecOn with
  | nil => rfl
  | append_singleton commands c ih =>
    rw [configured_concat, count_sync hlaw, Counter.value_concat, ih]

end

section

variable {jsonLoads : String → Option Json}

/-- An address whose last command is an add is counted, one that no command names is not. -/
theorem value_of_lastNaming (a : Mac) (commands : List (Command jsonLoads)) :
    (lastNaming a commands = some .add →
      0 < Counter.value (Command.addsTo a) (Command.removesExactly a) commands) ∧
    (lastNaming a commands = none →
      Counter.value (Command.addsTo a) (Command.removesExactly a) commands = 0) := by
  induction commands using List.reverseRecOn with
  | nil => exact ⟨nofun, fun _ => rfl⟩
  | append_singleton commands c ih =>
    rw [lastNaming_concat, Counter.value_concat]
    by_cases ha : c.address = a
    · simp only [if_pos ha, Option.some.injEq]
      refine ⟨fun hc => ?_, nofun⟩
      simp [Counter.step, Command.addsTo, hc, ha]
    · simpa [Counter.step, Command.addsTo, Command.removesExactly, ha] using ih

end

/-- A management frame is sent on exactly if the last command for its source was an add, up
to this: a delete only counts if it is spelled in lower case, and it takes back one add; and
a frame without a class of its own is never sent on. -/
theorem frames_forwarded_iff {read : String → Mac} {print : Mac → String}
    (hlaw : Lawful read print) {jsonLoads : String → Option Json}
    (commands : List (Command jsonLoads)) (hostapd : Mac) (frame : Dot11)
    (hframe : isManagementFrame frame.pduType = true) :
    (Forwards hostapd (configured read print commands) frame ↔
        lastNaming frame.addr2 commands = some .add) ↔
      (lastNaming frame.addr2 commands = some .add → frame.pduType.layer = some .management) ∧
      (lastNaming frame.addr2 commands = some .remove → frame.pduType.layer = some .management →
        ∀ ending, ending <:+ commands → ending.countP (Command.addsTo frame.addr2) ≤
          ending.countP (Command.removesExactly frame.addr2)) := by
  have hdisjoint : ∀ c : Command jsonLoads, c.addsTo frame.addr2 = true →
      c.removesExactly frame.addr2 = false := by
    intro c hc
    have hadd : c.change = .add := (of_decide_eq_true hc).1
    simp [Command.removesExactly, hadd]
  have hle : Counter.value _ _ commands ≤ 0 ↔ _ := Counter.value_le_iff hdisjoint
  obtain ⟨hadded, hunnamed⟩ := value_of_lastNaming frame.addr2 commands
  simp only [Nat.add_zero, Nat.le_zero] at hle
  rw [← hle]
  by_cases hlayer : frame.pduType.layer = some .management
  · rw [forwards_management hlayer, ← List.count_pos_iff, count_configured hlaw]
    cases hlast : lastNaming frame.addr2 commands with
    | none => simp [hunnamed hlast]
    | some change =>
      cases change with
      | add => simp [hadded hlast, hlayer]
      | remove => simp [hlayer]
  · -- `rfind_pdu` throws, whatever is in the list
    have hthrown : ¬Forwards hostapd (configured read print commands) frame := by
      rintro ⟨subtype, info, h⟩
      rw [process, if_pos hframe, if_neg hlayer] at h
      cases h
    simp [hthrown, hlayer]

theorem hexChar_lower (n : Fin 16) : (hexChar n).isUpper = false := by
  revert n
  decide

theorem printOctets_lower (bs : List UInt8) : ∀ c ∈ printOctets bs, c.isUpper = false := by
  induction bs with
  | nil => simp [printOctets]
  | cons b bs ih =>
    cases bs with
    | nil => simp [printOctets, hexChar_lower]
    | cons b' bs => simpa [printOctets, hexChar_lower] using ih

def readMac (text : String) : Mac := (parseMac text).getD broadcast

theorem lawful_printMac : Lawful readMac printMac := by
  refine ⟨fun text m h => ?_, fun m => ?_, fun m => ?_⟩
  · rw [readMac, parseMac_of_isMacText h]
    rfl
  · exact isMacText_printMac m
  · intro c hc
    rw [printMac, String.toList_ofList] at hc
    exact printOctets_lower _ c hc

abbrev wlanText : String := "02:00:00:00:00:01"
abbrev wlanMac : Mac := #v[2, 0, 0, 0, 0, 1]

theorem isMacText_wlan : IsMacText wlanText wlanMac := by
  have hprints := lawful_printMac.prints wlanMac
  rwa [show printMac wlanMac = wlanText by decide] at hprints

def setText : String :=
  radioSetText ",\"channel\":6,\"hwmode\":\"bgn\",\"txpower\":15,\"disabled\":0"

def deleteText : String :=
  "\x7b\"command\":\"_delete_section_name\",\"radio\":\"radio0\",\"changes\":\x7b" ++
    "\"macaddr\":\"02:00:00:00:00:01\"\x7d\x7d"

def loads (text : String) : Option Json :=
  if text = deleteText then
    some (.object [(jsonCommand, .string uciDeleteSection), (jsonRadio, .string "radio0"),
      (jsonChanges, .object [(jsonMacAddress, .string wlanText)])])
  else
    some (radioSetOf [(jsonChannel, .integer 6), (jsonHwMode, .string "bgn"),
      (jsonTxPower, .integer 15), (jsonDisabled, .integer 0)])

def setCommand : Command loads where
  text := setText
  answers n := if n = 0 then ⟨0, macAddCode⟩ else ⟨0, transmissionConfigureSuccessCode⟩
  change := .add
  macaddr := wlanText
  address := wlanMac
  succeeds := by decide
  spells := isMacText_wlan

def deleteCommand : Command loads where
  text := deleteText
  answers n := if n = 0 then ⟨0, bssidStationClearCode⟩ else ⟨0, macRemoveCode⟩
  change := .remove
  macaddr := wlanText
  address := wlanMac
  succeeds := by decide
  spells := isMacText_wlan

def beacon : Dot11 := ⟨.beacon, broadcast, wlanMac, 100⟩

/-- Added once and deleted once: the beacons stop. -/
theorem frames_stop_after_delete :
    Forwards wlanMac (configured readMac printMac [setCommand, deleteCommand]) beacon ↔
      lastNaming wlanMac [setCommand, deleteCommand] = some .add := by
  refine (frames_forwarded_iff lawful_printMac _ wlanMac beacon rfl).mpr
    ⟨fun _ => rfl, fun _ _ ending hending => ?_⟩
  have htails : ∀ ending ∈ [setCommand, deleteCommand].tails,
      ending.countP (Command.addsTo wlanMac) ≤ ending.countP (Command.removesExactly wlanMac) := by
    decide
  exact htails ending ((List.mem_tails _ _).mpr hending)

/-- Added twice and deleted once: they do not. -/
theorem frames_forwarded_after_delete :
    ¬∀ (read : String → Mac) (print : Mac → String), Lawful read print →
      ∀ (jsonLoads : String → Option Json) (commands : List (Command jsonLoads)) (hostapd : Mac)
        (frame : Dot11), isManagementFrame frame.pduType = true →
        (Forwards hostapd (configured read print commands) frame ↔
          lastNaming frame.addr2 commands = some .add) := by
  intro h
  have hiff := h readMac printMac lawful_printMac loads [setCommand, setCommand, deleteCommand]
    wlanMac beacon rfl
  rw [forwards_management rfl, ← List.count_pos_iff, count_configured lawful_printMac] at hiff
  exact absurd (hiff.mp (by decide)) (by decide)

end AuroraRelay.MonToWarp
