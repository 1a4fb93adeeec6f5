import AuroraRelay.MonToWarp
import AuroraRelay.SocketPath
import AuroraRelay.WarpToWlan

namespace AuroraRelay.MonitorInterfaces
open Memory MonToWarp Util WarpProtocol WarpToWlan

def bytes (text : String) : List UInt8 := text.toList.map fun c => UInt8.ofNat c.toNat

abbrev grepFromIfconfig : String := "ifconfig | grep -E "
abbrev hwAddrKeyword : String := "HWaddr "
abbrev monInterfaceKeyword : String := "mon.wlan"

abbrev interfacesSize : ℕ := 1024

/-- The loop for a broadcast: a blank ends what is taken of a line, a newline is taken and
starts the next.  The byte `0xff` in a `char` is `EOF` as well. -/
def takeLoop : List UInt8 → Bool → Filling UInt8 → Filling UInt8
  | [], _, interfaces => interfaces
  | c :: output, shouldTake, interfaces =>
    if c = eof then interfaces
    else
      let shouldTake := if c = newline then true else if c = blank then false else shouldTake
      takeLoop output shouldTake (if shouldTake then interfaces.put c else interfaces)

def nameLoop : List UInt8 → Filling UInt8 → Filling UInt8
  | [], interfaceName => interfaceName
  | c :: output, interfaceName =>
    if c = blank then interfaceName else nameLoop output (interfaceName.put c)

/-- The block that is returned; `malloced` is what it held before. -/
def getInterface (popen : String → List UInt8) (malloced : ℕ → UInt8) (addr : Mac) :
    Filling UInt8 :=
  let address := CommsAgent.printMac addr
  if address = "ff:ff:ff:ff:ff:ff" then
    let output := popen (grepFromIfconfig ++ monInterfaceKeyword)
    (takeLoop output true (.untouched malloced)).terminate 0
  else
    let output := popen (grepFromIfconfig ++ "'" ++ hwAddrKeyword ++ address ++ "'")
    let interfaceName := ((bytes "mon.").foldl Filling.put (.untouched malloced)).terminate 0
    (nameLoop output interfaceName).terminate 0

structure Sent where
  interface : List UInt8
  frame : List UInt8
  deriving DecidableEq

section Process

variable (fuel : ℕ) (popen : String → List UInt8) (malloced : ℕ → UInt8)

/-- The names that a frame for the address is sent to; none when the answer is not longer
than the `mon.` in front. -/
def interfaceNames (addr : Mac) : Option (List (List UInt8)) :=
  let interfaces := (getInterface popen malloced addr).cString 0
  if interfaces.length > 4 then
    (splitStringVector blank fuel interfaces [newline] []).map Prod.snd
  else some []

def sent (libtins : Dot11Constructor) : Effect → Option (List Sent)
  | .payload frame =>
    match libtins.dot11 frame with
    | some header => (interfaceNames fuel popen malloced header.addr1).map fun names =>
        names.map fun name => ⟨name, frame⟩
    | none => some []
  | _ => some []

end Process

/-- A line with the name of a monitor interface and what follows it behind a blank. -/
structure InterfaceLine where
  name : List UInt8
  more : Option (List UInt8)
  keyword : bytes monInterfaceKeyword <:+: name
  /-- A name is a C string of one word. -/
  word : blank ∉ name ∧ newline ∉ name ∧ 0 ∉ name
  oneLine : ∀ text ∈ more, newline ∉ text
  ascii : ∀ c ∈ name ++ more.getD [], c < 0x80

def InterfaceLine.text (line : InterfaceLine) : List UInt8 :=
  match line.more with
  | none => line.name
  | some text => line.name ++ blank :: text

/-- Lines one behind the other; `ended` says whether the last one has a newline too. -/
def printLines (ended : Bool) (lines : List (List UInt8)) : List UInt8 :=
  if ended then lines.flatMap (· ++ [newline]) else [newline].intercalate lines

theorem InterfaceLine.ne_eof (line : InterfaceLine) {c : UInt8}
    (h : c ∈ line.name ++ line.more.getD []) : c ≠ eof := by
  rintro rfl
  exact absurd (line.ascii _ h) (by decide)

theorem InterfaceLine.name_length (line : InterfaceLine) : 8 ≤ line.name.length := by
  have hlen := line.keyword.length_le
  exact (show (bytes monInterfaceKeyword).length = 8 by decide) ▸ hlen

theorem takeLoop_name {name : List UInt8} (hblank : blank ∉ name) (hnewline : newline ∉ name)
    (heof : eof ∉ name) (rest : List UInt8) (interfaces : Filling UInt8) :
    takeLoop (name ++ rest) true interfaces =
      takeLoop rest true (name.foldl Filling.put interfaces) := by
  induction name generalizing interfaces with
  | nil => rfl
  | cons c name ih =>
    obtain ⟨hb, hblank⟩ := List.ne_and_not_mem_of_not_mem_cons hblank
    obtain ⟨hn, hnewline⟩ := List.ne_and_not_mem_of_not_mem_cons hnewline
    obtain ⟨he, heof⟩ := List.ne_and_not_mem_of_not_mem_cons heof
    rw [List.cons_append, takeLoop, if_neg (Ne.symm he)]
    simp only [if_neg (Ne.symm hn), if_neg (Ne.symm hb), if_true]
    exact ih hblank hnewline heof _

theorem takeLoop_skip {text : List UInt8} (hnewline : newline ∉ text) (heof : eof ∉ text)
    (rest : List UInt8) (interfaces : Filling UInt8) :
    takeLoop (text ++ rest) false interfaces = takeLoop rest false interfaces := by
  induction text with
  | nil => rfl
  | cons c text ih =>
    obtain ⟨hn, hnewline⟩ := List.ne_and_not_mem_of_not_mem_cons hnewline
    obtain ⟨he, heof⟩ := List.ne_and_not_mem_of_not_mem_cons heof
    rw [List.cons_append, takeLoop, if_neg (Ne.symm he)]
    simp only [if_neg (Ne.symm hn), ite_self, Bool.false_eq_true, if_false]
    exact ih hnewline heof

theorem takeLoop_blank (rest : List UInt8) (shouldTake : Bool) (interfaces : Filling UInt8) :
    takeLoop (blank :: rest) shouldTake interfaces = takeLoop rest false interfaces := rfl

theorem takeLoop_newline (rest : List UInt8) (shouldTake : Bool) (interfaces : Filling UInt8) :
    takeLoop (newline :: rest) shouldTake interfaces =
      takeLoop rest true (interfaces.put newline) := rfl

/-- Of a line the name is taken, whatever comes behind it. -/
theorem takeLoop_line (line : InterfaceLine) (rest : List UInt8) (interfaces : Filling UInt8) :
    ∃ shouldTake, takeLoop (line.text ++ rest) true interfaces =
      takeLoop rest shouldTake (line.name.foldl Filling.put interfaces) := by
  have hname : eof ∉ line.name :=
    fun hmem => line.ne_eof (List.mem_append_left _ hmem) rfl
  have htake := takeLoop_name line.word.1 line.word.2.1 hname
  rw [InterfaceLine.text]
  cases hmore : line.more with
  | none => exact ⟨true, htake rest interfaces⟩
  | some text =>
    have htext : eof ∉ text :=
      fun hmem => line.ne_eof (List.mem_append_right _ (by rwa [hmore])) rfl
    refine ⟨false, ?_⟩
    simp only [List.append_assoc, List.cons_append]
    rw [htake, takeLoop_blank, takeLoop_skip (line.oneLine text hmore) htext]

/-- A line either has a newline behind it or is the last one, not ended. -/
theorem ended_or_last {β : Type*} (ended : Bool) (lines : List β) :
    (ended = true ∨ lines ≠ []) ∨ ended = false ∧ lines = [] := by
  cases ended with
  | true => exact .inl (.inl rfl)
  | false =>
    by_cases h : lines = []
    · exact .inr ⟨rfl, h⟩
    · exact .inl (.inr h)

theorem printLines_cons {ended : Bool} {lines : List (List UInt8)}
    (h : ended = true ∨ lines ≠ []) (line : List UInt8) :
    printLines ended (line :: lines) = line ++ newline :: printLines ended lines := by
  cases ended with
  | true => simp [printLines]
  | false =>
    have hne : lines ≠ [] := h.resolve_left Bool.false_ne_true
    simp [printLines, List.intercalate_cons_of_ne_nil hne]

theorem printLines_single (line : List UInt8) : printLines false [line] = line := by
  rw [printLines, if_neg Bool.false_ne_true, List.intercalate_singleton]

theorem takeLoop_lines (ended : Bool) (lines : List InterfaceLine) (interfaces : Filling UInt8) :
    takeLoop (printLines ended (lines.map InterfaceLine.text)) true interfaces =
      (printLines ended (lines.map InterfaceLine.name)).foldl Filling.put interfaces := by
  induction lines generalizing interfaces with
  | nil => cases ended <;> rfl
  | cons line lines ih =>
    obtain h | ⟨rfl, rfl⟩ := ended_or_last ended lines
    · have hlines {f : InterfaceLine → List UInt8} : ended = true ∨ lines.map f ≠ [] :=
        h.imp_right fun hne hnil => hne (List.map_eq_nil_iff.mp hnil)
      obtain ⟨shouldTake, htake⟩ := takeLoop_line line
        (newline :: printLines ended (lines.map InterfaceLine.text)) interfaces
      rw [List.map_cons, List.map_cons, printLines_cons hlines, printLines_cons hlines, htake,
        takeLoop_newline, ih, List.foldl_append, List.foldl_cons]
    · obtain ⟨shouldTake, htake⟩ := takeLoop_line line [] interfaces
      rw [List.append_nil] at htake
      simp only [List.map_cons, List.map_nil, printLines_single]
      rw [htake]
      rfl

/-- Lines that are all ended are joined with an empty one. -/
theorem printLines_eq_intercalate {ended : Bool} {lines : List (List UInt8)}
    (h : ended = true ∨ lines = []) :
    printLines ended lines = [newline].intercalate (lines ++ [[]]) := by
  induction lines with
  | nil => cases ended <;> rfl
  | cons line lines ih =>
    have hended : ended = true := h.resolve_right (by simp)
    rw [printLines_cons (.inl hended), ih (.inl hended), List.cons_append,
      List.intercalate_cons_of_ne_nil (by simp), List.append_assoc, List.singleton_append]

/-- The loop of `split_string` gives back lines that are not blank, whether or not the last
one is ended. -/
theorem splitStringVector_printLines (ended : Bool) {lines : List (List UInt8)}
    (hnewline : ∀ line ∈ lines, newline ∉ line) (hline : ∀ line ∈ lines, line ≠ [])
    (hblank : ∀ line ∈ lines, blank ∉ line)
    (hlen : (printLines ended lines).length < 2 ^ 31) {fuel : ℕ}
    (hfuel : (printLines ended lines).length < fuel) :
    ∃ rest, splitStringVector blank fuel (printLines ended lines) [newline] [] =
      some (rest, lines) := by
  obtain ⟨pieces, rest, h⟩ := Split.exists_splits (List.cons_ne_nil newline [])
    (printLines ended lines)
  refine ⟨rest, ?_⟩
  rw [splitStringVector_splits h (by simp) hlen blank hfuel, List.nil_append]
  have hpieces := h.eq_splitOn
  by_cases hend : ended = true ∨ lines = []
  · -- the rest is what stands behind the last newline, and is empty
    have hempty : ∀ line ∈ lines ++ [[]], newline ∉ line := by
      simp only [List.forall_mem_append, List.forall_mem_singleton]
      exact ⟨hnewline, List.not_mem_nil⟩
    rw [printLines_eq_intercalate hend, List.splitOn_intercalate newline hempty (by simp)]
      at hpieces
    obtain ⟨rfl, hrest⟩ := List.append_inj' hpieces rfl
    obtain rfl : rest = [] := List.singleton_inj.mp hrest
    simp [lastPiece]
  · -- the rest is the last line
    obtain ⟨hended, hnil⟩ := not_or.mp hend
    rw [printLines, if_neg hended, List.splitOn_intercalate newline hnewline hnil] at hpieces
    have hrest : rest ∈ lines := by simp [← hpieces]
    have hkeep : ¬(rest = [] ∨ rest = [blank]) := by
      rintro (he | rfl)
      · exact hline rest hrest he
      · exact hblank _ hrest (by simp)
    rw [lastPiece, if_neg hkeep, hpieces]

theorem not_mem_printLines {c : UInt8} (hc : c ≠ newline) {ended : Bool}
    {lines : List (List UInt8)} (h : ∀ line ∈ lines, c ∉ line) : c ∉ printLines ended lines := by
  induction lines with
  | nil => cases ended <;> simp [printLines]
  | cons line lines ih =>
    obtain ⟨hline, hlines⟩ := List.forall_mem_cons.mp h
    obtain hend | ⟨rfl, rfl⟩ := ended_or_last ended lines
    · rw [printLines_cons hend, List.mem_append, List.mem_cons]
      exact not_or.mpr ⟨hline, not_or.mpr ⟨hc, ih hlines⟩⟩
    · rwa [printLines_single]

theorem length_le_printLines (ended : Bool) (line : List UInt8) (lines : List (List UInt8)) :
    line.length ≤ (printLines ended (line :: lines)).length := by
  obtain hend | ⟨rfl, rfl⟩ := ended_or_last ended lines
  · rw [printLines_cons hend, List.length_append]
    exact Nat.le_add_right _ _
  · rw [printLines_single]

theorem printMac_broadcast : CommsAgent.printMac broadcast = "ff:ff:ff:ff:ff:ff" := by decide

section Broadcast

variable {lines : List InterfaceLine} {ended : Bool} {popen : String → List UInt8}
  (hprinted : popen (grepFromIfconfig ++ monInterfaceKeyword) =
    printLines ended (lines.map InterfaceLine.text))
include hprinted

/-- The block holds the names, one line each. -/
theorem getInterface_broadcast (malloced : ℕ → UInt8) :
    (getInterface popen malloced broadcast).stores =
        List.range ((printLines ended (lines.map InterfaceLine.name)).length + 1) ∧
      (getInterface popen malloced broadcast).cString 0 =
        printLines ended (lines.map InterfaceLine.name) := by
  have hnames := (Filling.holds_untouched malloced).puts
    (printLines ended (lines.map InterfaceLine.name))
  rw [List.nil_append, ← takeLoop_lines] at hnames
  have hzero : 0 ∉ printLines ended (lines.map InterfaceLine.name) :=
    not_mem_printLines (by decide) (List.forall_mem_map.mpr fun line _ => line.word.2.2)
  simp only [getInterface, printMac_broadcast, if_true, hprinted]
  refine ⟨hnames.stores_terminate 0, (hnames.cString_terminate 0).trans ?_⟩
  exact List.takeWhile_eq_self_iff.mpr (Split.forall_ne_of_not_mem hzero)

theorem interfaceNames_broadcast (malloced : ℕ → UInt8)
    (hsize : (printLines ended (lines.map InterfaceLine.name)).length < interfacesSize)
    {fuel : ℕ} (hfuel : interfacesSize ≤ fuel) :
    interfaceNames fuel popen malloced broadcast = some (lines.map InterfaceLine.name) := by
  have hstring := (getInterface_broadcast hprinted malloced).2
  simp only [interfaceNames, hstring]
  cases lines with
  | nil => cases ended <;> rfl
  | cons line lines =>
    have hlong : (printLines ended ((line :: lines).map InterfaceLine.name)).length > 4 := by
      have hname := line.name_length
      have hle := length_le_printLines ended line.name (lines.map InterfaceLine.name)
      rw [List.map_cons]
      omega
    obtain ⟨rest, hsplit⟩ := splitStringVector_printLines ended
      (List.forall_mem_map.mpr fun line _ => line.word.2.1)
      (List.forall_mem_map.mpr fun line _ => List.ne_nil_of_length_pos
        (Nat.lt_of_lt_of_le (by decide) line.name_length))
      (List.forall_mem_map.mpr fun line _ => line.word.1)
      (hsize.trans (by decide)) (hsize.trans_le hfuel)
    rw [if_pos hlong, hsplit]
    rfl

end Broadcast

/-- The names of the lines are what the answer is split into, and a broadcast management
frame is sent once for each of them. -/
theorem broadcast_sent_to_each_interface (lines : List InterfaceLine) (ended : Bool)
    (popen : String → List UInt8) (malloced : ℕ → UInt8) (libtins : Dot11Constructor)
    (hprinted : popen (grepFromIfconfig ++ monInterfaceKeyword) =
      printLines ended (lines.map InterfaceLine.text))
    (hsize : (printLines ended (lines.map InterfaceLine.name)).length < interfacesSize) :
    (∀ i ∈ (getInterface popen malloced broadcast).stores, i < interfacesSize) ∧
    ∀ fuel ≥ interfacesSize,
      interfaceNames fuel popen malloced broadcast = some (lines.map InterfaceLine.name) ∧
      ∀ frame, libtins.dot11 frame = some ⟨true, broadcast⟩ →
        sent fuel popen malloced libtins (.payload frame) =
          some (lines.map fun line => ⟨line.name, frame⟩) := by
  constructor
  · intro i hi
    rw [(getInterface_broadcast hprinted malloced).1] at hi
    exact (List.mem_range.mp hi).trans_le hsize
  · intro fuel hfuel
    have hnames := interfaceNames_broadcast hprinted malloced hsize hfuel
    refine ⟨hnames, fun frame hframe => ?_⟩
    simp only [sent, hframe, hnames, Option.map_some, List.map_map]
    rfl

def firstInterface : InterfaceLine where
  name := bytes "mon.wlan0"
  more := some (bytes "Link encap:UNSPEC")
  keyword := ⟨[], bytes "0", by decide⟩
  word := by decide
  oneLine := by simpa using (by decide : newline ∉ bytes "Link encap:UNSPEC")
  ascii c hc := of_decide_eq_true (List.all_eq_true.mp (by decide :
    (bytes "mon.wlan0" ++ bytes "Link encap:UNSPEC").all fun c => decide (c < 0x80)) c hc)

def secondInterface : InterfaceLine where
  name := bytes "mon.wlan0-1"
  more := none
  keyword := ⟨[], bytes "0-1", by decide⟩
  word := by decide
  oneLine := by simp
  ascii c hc := of_decide_eq_true (List.all_eq_true.mp (by decide :
    (bytes "mon.wlan0-1" ++ []).all fun c => decide (c < 0x80)) c hc)

def beaconHeader : List UInt8 :=
  [0x80, 0x00, 0x00, 0x00, 0xff, 0xff, 0xff, 0xff, 0xff, 0xff, 0x02, 0x00, 0x00, 0x00, 0x00, 0x01,
    0x02, 0x00, 0x00, 0x00, 0x00, 0x01, 0x10, 0x00]

theorem broadcast_sent_to_two_interfaces :
    sent 1024 (fun _ => printLines false [firstInterface.text, secondInterface.text])
        (fun _ => 0) ieee80211 (.payload beaconHeader) =
      some [⟨bytes "mon.wlan0", beaconHeader⟩, ⟨bytes "mon.wlan0-1", beaconHeader⟩] :=
  ((broadcast_sent_to_each_interface [firstInterface, secondInterface] false
    (fun _ => printLines false [firstInterface.text, secondInterface.text]) (fun _ => 0)
    ieee80211 rfl (by decide)).2 1024 le_rfl).2 beaconHeader (by decide)

end AuroraRelay.MonitorInterfaces
