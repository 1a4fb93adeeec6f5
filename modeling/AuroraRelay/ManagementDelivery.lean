import AuroraRelay.Lib.Regex
import AuroraRelay.MonitorInterfaces

namespace AuroraRelay.MonitorInterfaces
open Memory MonToWarp Regex Util WarpProtocol WarpToWlan

def grep (pattern : List (Item UInt8)) (lines : List (List UInt8)) : List (List UInt8) :=
  lines.filter fun line => findall pattern line ≠ []

/-- `mon.wlan`, whose dot is any letter. -/
def monPattern : List (Item UInt8) :=
  literal (bytes "mon") ++ [.one fun _ => true] ++ literal (bytes "wlan")

def hwAddr (addr : Mac) : List UInt8 := bytes (hwAddrKeyword ++ CommsAgent.printMac addr)

/-- What is printed when `ifconfig` prints these lines; a name is not longer than a block of
64 bytes can take. -/
structure Ifconfig (popen : String → List UInt8) (lines : List (List UInt8)) : Prop where
  monitors : popen (grepFromIfconfig ++ monInterfaceKeyword) =
    printLines true (grep monPattern lines)
  address : ∀ addr, popen (grepFromIfconfig ++ "'" ++ hwAddrKeyword ++ CommsAgent.printMac addr ++
    "'") = printLines true (grep (literal (hwAddr addr)) lines)
  text : ∀ line ∈ lines, newline ∉ line ∧ 0 ∉ line
  names : ∀ line ∈ lines, (line.takeWhile (· ≠ blank)).length < 60

/-- The monitor interface of the first access point that has the address. -/
def monitorOf (lines : List (List UInt8)) (addr : Mac) : List (List UInt8) :=
  match lines.find? fun line => hwAddr addr <:+: line with
  | some line =>
    let name := line.takeWhile (· ≠ blank)
    if name = [] then [] else [bytes "mon." ++ name]
  | none => []

theorem bytes_append (a b : String) : bytes (a ++ b) = bytes a ++ bytes b := by
  simp [bytes]

theorem not_matches_hwAddr (addr : Mac) : ¬Matches (literal (hwAddr addr)) [] := by
  rw [matches_literal, hwAddr, bytes_append]
  exact fun h => List.cons_ne_nil _ _ h.symm

theorem head?_grep_hwAddr (lines : List (List UInt8)) (addr : Mac) :
    (grep (literal (hwAddr addr)) lines).head? = lines.find? fun line => hwAddr addr <:+: line := by
  rw [grep, List.head?_filter]
  congr 1
  funext line
  rw [decide_eq_decide, findall_ne_nil_iff (not_matches_hwAddr addr)]
  simp only [matches_literal, exists_eq_left]

theorem nameLoop_line {line : List UInt8} (h : blank ∈ line) (rest : List UInt8)
    (interfaceName : Filling UInt8) :
    nameLoop (line ++ rest) interfaceName =
      (line.takeWhile (· ≠ blank)).foldl Filling.put interfaceName := by
  induction line generalizing interfaceName with
  | nil => cases h
  | cons c line ih =>
    rw [List.cons_append, nameLoop]
    by_cases hc : c = blank
    · rw [if_pos hc, List.takeWhile_cons_of_neg (by simpa using hc)]
      rfl
    · rw [if_neg hc, List.takeWhile_cons_of_pos (by simpa using hc), List.foldl_cons]
      exact ih ((List.mem_cons.mp h).resolve_left (Ne.symm hc)) _

theorem printMac_ne {addr : Mac} (h : addr ≠ broadcast) :
    CommsAgent.printMac addr ≠ "ff:ff:ff:ff:ff:ff" := by
  rw [← printMac_broadcast]
  intro heq
  have hspells := CommsAgent.isMacText_printMac addr
  rw [heq] at hspells
  exact h (isMacText_unique hspells (CommsAgent.isMacText_printMac broadcast))

def takenName (output : List (List UInt8)) : List UInt8 :=
  (output.head?.map (·.takeWhile (· ≠ blank))).getD []

theorem nameLoop_printLines {output : List (List UInt8)} (h : ∀ line ∈ output, blank ∈ line)
    (interfaceName : Filling UInt8) :
    nameLoop (printLines true output) interfaceName =
      (takenName output).foldl Filling.put interfaceName := by
  cases output with
  | nil => rfl
  | cons line output =>
    rw [printLines_cons (.inl rfl), nameLoop_line (h line List.mem_cons_self)]
    rfl

theorem blank_mem_of_hwAddr {line : List UInt8} {addr : Mac} (h : hwAddr addr <:+: line) :
    blank ∈ line := by
  refine h.subset ?_
  rw [hwAddr, bytes_append]
  exact List.mem_append_left _ (by decide)

section Unicast

variable {popen : String → List UInt8} {lines : List (List UInt8)} (h : Ifconfig popen lines)
  {addr : Mac} (haddr : addr ≠ broadcast)
include h haddr

variable (addr) in
omit haddr in
/-- A name is one word that fits the block. -/
theorem takenName_word :
    (0 ∉ takenName (grep (literal (hwAddr addr)) lines) ∧
      newline ∉ takenName (grep (literal (hwAddr addr)) lines) ∧
      blank ∉ takenName (grep (literal (hwAddr addr)) lines)) ∧
    (takenName (grep (literal (hwAddr addr)) lines)).length < 60 := by
  cases hgrep : grep (literal (hwAddr addr)) lines with
  | nil => exact ⟨⟨List.not_mem_nil, List.not_mem_nil, List.not_mem_nil⟩, by decide⟩
  | cons line rest =>
    have hline : line ∈ lines := by
      refine List.mem_of_mem_filter (p := fun line => findall (literal (hwAddr addr)) line ≠ []) ?_
      rw [← grep, hgrep]
      exact List.mem_cons_self
    obtain ⟨hnewline, hzero⟩ := h.text line hline
    have hsubset := (List.takeWhile_prefix (· ≠ blank) (l := line)).subset
    refine ⟨⟨fun hmem => hzero (hsubset hmem), fun hmem => hnewline (hsubset hmem), ?_⟩,
      h.names line hline⟩
    intro hmem
    have hne := List.mem_takeWhile_imp hmem
    simp at hne

/-- The block for an address holds `mon.` and the name, and is long enough for them. -/
theorem getInterface_unicast (malloced : ℕ → UInt8) :
    (∀ i ∈ (getInterface popen malloced addr).stores, i < 64) ∧
      (getInterface popen malloced addr).cString 0 =
        bytes "mon." ++ takenName (grep (literal (hwAddr addr)) lines) := by
  have hblank : ∀ line ∈ grep (literal (hwAddr addr)) lines, blank ∈ line := by
    intro line hline
    have hfound := of_decide_eq_true (List.mem_filter.mp hline).2
    obtain ⟨m, hm, hpiece⟩ := (findall_ne_nil_iff (not_matches_hwAddr addr) line).mp hfound
    rw [matches_literal.mp hm] at hpiece
    exact blank_mem_of_hwAddr hpiece
  obtain ⟨⟨hzero, -, -⟩, hlength⟩ := takenName_word h addr
  have hmon := (Filling.holds_untouched malloced).puts (bytes "mon.")
  rw [List.nil_append] at hmon
  simp only [getInterface, if_neg (printMac_ne haddr), h.address, nameLoop_printLines hblank]
  refine ⟨?_, ?_⟩
  · set name := takenName (grep (literal (hwAddr addr)) lines)
    set prefixed := ((bytes "mon.").foldl Filling.put (.untouched malloced)).terminate 0
    have hstored : ∀ i ∈ prefixed.stores, i ≤ prefixed.index := by
      intro i hi
      rw [hmon.stores_terminate 0, ← hmon.index] at hi
      exact Nat.lt_succ_iff.mp (List.mem_range.mp hi)
    have hindex : prefixed.index = 4 := hmon.index
    intro i hi
    rcases List.mem_append.mp hi with hi | hi
    · have hle := Filling.stores_le_puts hstored name i hi
      omega
    · rw [List.mem_singleton.mp hi, Filling.index_puts]
      omega
  · rw [hmon.cString_overwritten]
    refine List.takeWhile_eq_self_iff.mpr (Split.forall_ne_of_not_mem ?_)
    rw [List.mem_append]
    exact not_or.mpr ⟨by decide, hzero⟩

omit h haddr in
theorem monitorOf_eq (lines : List (List UInt8)) (addr : Mac) :
    monitorOf lines addr =
      if takenName (grep (literal (hwAddr addr)) lines) = [] then []
      else [bytes "mon." ++ takenName (grep (literal (hwAddr addr)) lines)] := by
  rw [monitorOf, takenName, head?_grep_hwAddr]
  cases lines.find? fun line => hwAddr addr <:+: line with
  | none => rfl
  | some line => rfl

theorem interfaceNames_unicast (malloced : ℕ → UInt8) {fuel : ℕ} (hfuel : 64 ≤ fuel) :
    interfaceNames fuel popen malloced addr = some (monitorOf lines addr) := by
  have hstring := (getInterface_unicast h haddr malloced).2
  obtain ⟨⟨-, hnewline, hblank⟩, hlength⟩ := takenName_word h addr
  rw [monitorOf_eq]
  simp only [interfaceNames, hstring]
  by_cases hname : takenName (grep (literal (hwAddr addr)) lines) = []
  · rw [if_pos hname, hname]
    rfl
  · have hmon : (bytes "mon.").length = 4 := by decide
    have hlong : (bytes "mon." ++ takenName (grep (literal (hwAddr addr)) lines)).length > 4 := by
      have hpos := List.length_pos_iff.mpr hname
      rw [List.length_append]
      omega
    have hlen : (printLines false [bytes "mon." ++
        takenName (grep (literal (hwAddr addr)) lines)]).length < 64 := by
      rw [printLines_single, List.length_append]
      omega
    have hword : newline ∉ bytes "mon." ++ takenName (grep (literal (hwAddr addr)) lines) ∧
        blank ∉ bytes "mon." ++ takenName (grep (literal (hwAddr addr)) lines) := by
      rw [List.mem_append, List.mem_append]
      exact ⟨not_or.mpr ⟨by decide, hnewline⟩, not_or.mpr ⟨by decide, hblank⟩⟩
    obtain ⟨rest, hsplit⟩ := splitStringVector_printLines false
      (List.forall_mem_singleton.mpr hword.1)
      (List.forall_mem_singleton.mpr (List.append_ne_nil_of_right_ne_nil _ hname))
      (List.forall_mem_singleton.mpr hword.2) (hlen.trans (by decide)) (hlen.trans_le hfuel)
    rw [printLines_single] at hsplit
    rw [if_neg hname, if_pos hlong, hsplit]
    rfl

end Unicast

def destinations (monitors : List InterfaceLine) (lines : List (List UInt8)) :
    Option Dot11Header → List (List UInt8)
  | some header =>
    if header.management then
      if header.addr1 = broadcast then monitors.map InterfaceLine.name
      else monitorOf lines header.addr1
    else []
  | none => []

theorem processBuffer_createTransmit (libtins : Dot11Constructor) (left : Leftover)
    (malloc : ℕ → UInt8) (info : Transmit) (subtype : UInt8) {frame : List UInt8}
    (hframe : frame.length ≤ 65535) (hinfo : info.payloadSize = UInt16.ofNat frame.length)
    (pad : List UInt8) :
    processBuffer libtins left ((createTransmit info subtype).buffer malloc ++ frame ++ pad) =
      .ok (payloadEffect libtins frame) := by
  have hsize : info.payloadSize.toNat = frame.length := by
    rw [hinfo, UInt16.toNat_ofNat']
    exact Nat.mod_eq_of_lt (by omega)
  have hannounced : announcedSize ((createTransmit info subtype).buffer malloc ++ frame ++ pad) =
      some frame.length := by
    have hbytes := congrArg UInt16.toNat (uint16_of_bytes info.payloadSize)
    rw [toNat_payloadSize, hsize] at hbytes
    rw [← hbytes, createTransmit_buffer]
    rfl
  have hlong : 4 + frame.length ≤
      ((createTransmit info subtype).buffer malloc ++ frame ++ pad).length := by
    rw [createTransmit_buffer, List.length_append, List.length_append]
    change 4 + frame.length ≤ 4 + frame.length + pad.length
    omega
  have hpayload : (((createTransmit info subtype).buffer malloc ++ frame ++ pad).drop 4).take
      frame.length = frame := by
    rw [createTransmit_buffer, List.append_assoc]
    exact List.take_left
  rw [processBuffer_transmit libtins left rfl, hannounced]
  dsimp only
  rw [forwardPayload_received hlong, hpayload]

/-- A frame that WARP sends on, behind a transmit header and before any padding, goes out
unchanged on the interfaces of its receiver and on no others, and the blocks that hold their
names are long enough. -/
theorem management_delivered (popen : String → List UInt8) (lines : List (List UInt8))
    (monitors : List InterfaceLine) (h : Ifconfig popen lines)
    (hmonitors : grep monPattern lines = monitors.map InterfaceLine.text)
    (hsize : (printLines true (monitors.map InterfaceLine.name)).length < interfacesSize)
    (libtins : Dot11Constructor) (left : Leftover) (malloc malloced : ℕ → UInt8)
    (info : Transmit) (subtype : UInt8) (frame pad : List UInt8) (hframe : frame.length ≤ 65535)
    (hinfo : info.payloadSize = UInt16.ofNat frame.length) :
    ∃ effect,
      process libtins left
          (fromWarp ((createTransmit info subtype).buffer malloc ++ frame ++ pad)) = .ok effect ∧
      (∀ fuel ≥ interfacesSize, sent fuel popen malloced libtins effect =
        some ((destinations monitors lines (libtins.dot11 frame)).map fun name =>
          ⟨name, frame⟩)) ∧
      ∀ header ∈ libtins.dot11 frame, ∀ i ∈ (getInterface popen malloced header.addr1).stores,
        i < if header.addr1 = broadcast then interfacesSize else 64 := by
  refine ⟨_, (process_fromWarp libtins left _).trans
    (processBuffer_createTransmit libtins left malloc info subtype hframe hinfo pad),
    fun fuel hfuel => ?_, fun header _ i hi => ?_⟩
  · cases hheader : libtins.dot11 frame with
    | none => simp [payloadEffect, destinations, sent, hheader]
    | some header =>
      simp only [payloadEffect, hheader, destinations]
      split_ifs with hmanagement hbroadcast
      · simp only [sent, hheader]
        rw [hbroadcast, interfaceNames_broadcast (h.monitors.trans (by rw [hmonitors])) malloced
          hsize hfuel]
        rfl
      · have hfuel' : 64 ≤ fuel := le_trans (by decide) hfuel
        simp only [sent, hheader]
        rw [interfaceNames_unicast h hbroadcast malloced hfuel']
        rfl
      · rfl
  · split_ifs with hbroadcast
    · rw [hbroadcast, (getInterface_broadcast (h.monitors.trans (by rw [hmonitors])) malloced).1]
        at hi
      exact (List.mem_range.mp hi).trans_le hsize
    · exact (getInterface_unicast h hbroadcast malloced).1 i hi

def shell (lines : List (List UInt8)) (command : String) : List UInt8 :=
  if command = grepFromIfconfig ++ monInterfaceKeyword then printLines true (grep monPattern lines)
  else
    let pattern := (command.toList.drop (grepFromIfconfig ++ "'").length).dropLast
    printLines true (grep (literal (bytes (String.ofList pattern))) lines)

theorem ifconfig_shell {lines : List (List UInt8)}
    (htext : ∀ line ∈ lines, newline ∉ line ∧ 0 ∉ line)
    (hnames : ∀ line ∈ lines, (line.takeWhile (· ≠ blank)).length < 60) :
    Ifconfig (shell lines) lines := by
  refine ⟨if_pos rfl, fun addr => ?_, htext, hnames⟩
  set command := grepFromIfconfig ++ "'" ++ hwAddrKeyword ++ CommsAgent.printMac addr ++ "'"
  have hlist : command.toList = (grepFromIfconfig ++ "'").toList ++
      (hwAddrKeyword ++ CommsAgent.printMac addr).toList ++ ['\''] := by
    simp [command]
  have hne : command ≠ grepFromIfconfig ++ monInterfaceKeyword := by
    intro heq
    have hquote : command.toList[19]? = some '\'' := by
      rw [hlist, List.append_assoc, List.getElem?_append_left (by decide)]
      decide
    rw [heq] at hquote
    exact absurd hquote (by decide)
  have hpattern : (command.toList.drop (grepFromIfconfig ++ "'").length).dropLast =
      (hwAddrKeyword ++ CommsAgent.printMac addr).toList := by
    rw [hlist, List.append_assoc, ← String.length_toList, List.drop_left, List.dropLast_concat]
  rw [shell, if_neg hne]
  simp only [hpattern, String.ofList_toList]
  rfl

def apLines : List (List UInt8) :=
  [bytes "wlan0 Link encap:Ethernet HWaddr 02:00:00:00:00:0a", firstInterface.text]

theorem apLines_text : ∀ line ∈ apLines, newline ∉ line ∧ 0 ∉ line := by
  simp only [apLines, List.forall_mem_cons]
  exact ⟨by decide, by decide, by simp⟩

theorem apLines_names : ∀ line ∈ apLines, (line.takeWhile (· ≠ blank)).length < 60 := by
  simp only [apLines, List.forall_mem_cons]
  exact ⟨by decide, by decide, by simp⟩

/-- An authentication frame of a station to the access point, up to its sequence control. -/
def authHeader : List UInt8 :=
  [0xb0, 0x00, 0x00, 0x00, 0x02, 0x00, 0x00, 0x00, 0x00, 0x0a, 0x02, 0x00, 0x00, 0x00, 0x00, 0x0b,
    0x02, 0x00, 0x00, 0x00, 0x00, 0x0a, 0x20, 0x00]

theorem management_delivered_unicast :
    ∃ effect,
      process ieee80211 noLeftover (fromWarp
        ((createTransmit ⟨0, 7, 24, broadcast⟩ 0).buffer (fun _ => 0) ++ authHeader ++ [0, 0])) =
          .ok effect ∧
      sent 1024 (shell apLines) (fun _ => 0) ieee80211 effect =
        some [⟨bytes "mon.wlan0", authHeader⟩] := by
  have hifconfig := ifconfig_shell apLines_text apLines_names
  obtain ⟨effect, hprocess, hsent, -⟩ := management_delivered (shell apLines) apLines
    [firstInterface] hifconfig (by decide) (by decide) ieee80211 noLeftover (fun _ => 0)
    (fun _ => 0) ⟨0, 7, 24, broadcast⟩ 0 authHeader [0, 0] (by decide) rfl
  refine ⟨effect, hprocess, (hsent 1024 le_rfl).trans ?_⟩
  decide

end AuroraRelay.MonitorInterfaces
