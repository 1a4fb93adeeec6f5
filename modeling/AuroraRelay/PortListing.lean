import AuroraRelay.Datapath
import AuroraRelay.Lib.Regex

namespace AuroraRelay.Datapath
open Regex

/-- `[0-9][0-9]*\(.*\):` -/
def portPattern : List (Item Char) :=
  [.one Char.isDigit, .many Char.isDigit, .one (· == '('), .many (· != '\n'), .one (· == ')'),
    .one (· == ':')]

/-- The key and the value that a match adds to the dictionary; `none` is an `IndexError`. -/
def portEntry (interface : List Char) : Option (List Char × List Char) :=
  match interface.splitOn '(' with
  | number :: name :: _ => some (name.take (name.length - 2), number)
  | _ => none

/-- A later entry replaces an earlier one with its key. -/
def dictionary (entries : List (List Char × List Char)) : List Char → Option (List Char) :=
  entries.foldl (fun dict entry => Function.update dict entry.1 (some entry.2)) fun _ => none

def getPorts (portList : String) : Option (List Char → Option (List Char)) :=
  ((findall portPattern portList.toList).mapM portEntry).map dictionary

def int (digits : List Char) : ℕ := digits.foldl (fun n c => 10 * n + (c.toNat - 48)) 0

def getPort (portList interfaceName : String) : Option ℤ :=
  (getPorts portList).map fun ports =>
    match ports interfaceName.toList with
    | some index => (int index : ℤ) - 1
    | none => -1

def check (portList interfaceName : String) : Option ℤ :=
  (getPort portList interfaceName).map fun port => if port = -1 then -1 else 0

/-- A port, and behind its name the address or anything else without another `):`. -/
structure PortLine where
  number : List Char
  name : String
  more : List Char
  digits : number ≠ [] ∧ ∀ c ∈ number, c.isDigit = true
  word : '(' ∉ name.toList ∧ '\n' ∉ name.toList
  plain : ¬[')', ':'] <:+: more ∧ '\n' ∉ more

/-- A line without a digit before a parenthesis. -/
structure OtherLine where
  text : List Char
  oneLine : '\n' ∉ text
  quiet : ((text.zip text.tail).all fun p => !(p.1.isDigit && p.2 == '(')) = true

inductive ShowLine
  | port (line : PortLine)
  | other (line : OtherLine)

def PortLine.head (line : PortLine) : List Char :=
  line.number ++ '(' :: line.name.toList ++ [')', ':']

def ShowLine.text : ShowLine → List Char
  | .port line => ' ' :: line.head ++ line.more
  | .other line => line.text

def ShowLine.port? : ShowLine → Option PortLine
  | .port line => some line
  | .other _ => none

def showText (lines : List ShowLine) : String :=
  String.ofList (lines.flatMap fun line => line.text ++ ['\n'])

/-- The lines of the ports are those of the bridge. -/
def PrintsPorts (bridge : Bridge) (lines : List ShowLine) : Prop :=
  ∀ name n, bridge.ports name = some n ↔
    ∃ line ∈ lines.filterMap ShowLine.port?, line.name = name ∧ int line.number = n

theorem prefix_of_not_mem {α : Type*} {a : α} {m text rest : List α} (hm : a ∉ m)
    (h : m <+: text ++ a :: rest) : m <+: text := by
  induction text generalizing m with
  | nil =>
    cases m with
    | nil => exact List.nil_prefix
    | cons c m =>
      rw [List.nil_append, List.cons_prefix_cons] at h
      exact absurd (h.1 ▸ List.mem_cons_self) hm
  | cons c text ih =>
    cases m with
    | nil => exact List.nil_prefix
    | cons c' m =>
      rw [List.cons_append, List.cons_prefix_cons] at h
      obtain ⟨rfl, h⟩ := h
      exact List.cons_prefix_cons.mpr ⟨rfl, ih (fun hmem => hm (List.mem_cons_of_mem _ hmem)) h⟩

theorem newline_not_mem_digits {number : List Char} (h : ∀ c ∈ number, c.isDigit = true) :
    '\n' ∉ number := fun hmem => absurd (h '\n' hmem) (by decide)

/-- A match is a number, a parenthesis and the rest of a line up to `):`. -/
theorem matches_portPattern {m : List Char} (h : Matches portPattern m) :
    ∃ number d name, (∀ c ∈ number, c.isDigit = true) ∧ d.isDigit = true ∧ '\n' ∉ name ∧
      m = number ++ [d, '('] ++ name ++ [')', ':'] := by
  obtain ⟨d, _, rfl, hd, hm⟩ := matches_one.mp h
  obtain ⟨digits, _, rfl, hdigits, hopened⟩ := matches_many.mp hm
  obtain ⟨_, _, rfl, hopen, hnamed⟩ := matches_one.mp hopened
  obtain ⟨name, _, rfl, hname, hclosed⟩ := matches_many.mp hnamed
  obtain ⟨_, _, rfl, hclose, hended⟩ := matches_one.mp hclosed
  obtain ⟨_, _, rfl, hcolon, hnil⟩ := matches_one.mp hended
  cases hnil
  rw [eq_of_beq hopen, eq_of_beq hclose, eq_of_beq hcolon]
  have hnewline : '\n' ∉ name := fun hmem => absurd (hname _ hmem) (by decide)
  rcases List.eq_nil_or_concat digits with rfl | ⟨init, last, rfl⟩
  · exact ⟨[], d, name, by simp, hd, hnewline, by simp⟩
  · refine ⟨d :: init, last, name, ?_, ?_, hnewline, by simp⟩
    · intro c hc
      rcases List.mem_cons.mp hc with rfl | hc
      · exact hd
      · exact hdigits c (by simp [hc])
    · exact hdigits last (by simp)

theorem mem_zip_tail {α : Type*} {a b : α} {text : List α} (h : [a, b] <:+: text) :
    (a, b) ∈ text.zip text.tail := by
  obtain ⟨before, behind, rfl⟩ := h
  induction before with
  | nil => simp
  | cons c before ih =>
    cases before with
    | nil => simp
    | cons c' before => exact List.mem_cons_of_mem _ ih

theorem OtherLine.not_opened (line : OtherLine) {d : Char} (hd : d.isDigit = true) :
    ¬[d, '('] <:+: line.text := by
  intro hpiece
  have hquiet := List.all_eq_true.mp line.quiet _ (mem_zip_tail hpiece)
  simp [hd] at hquiet

/-- A match does not reach into the next line. -/
theorem match_within_line {y rest m : List Char}
    (h : matchAt portPattern (y ++ '\n' :: rest) = some m) :
    m <+: y ∧ (∃ d, d.isDigit = true ∧ [d, '('] <:+: m) ∧ [')', ':'] <:+: m := by
  obtain ⟨hstart, hmatches⟩ := matchAt_eq_some h
  obtain ⟨number, d, name, hnumber, hd, hname, rfl⟩ := matches_portPattern hmatches
  have hnewline : '\n' ∉ number ++ [d, '('] ++ name ++ [')', ':'] := by
    have hd' : '\n' ≠ d := by
      rintro rfl
      exact absurd hd (by decide)
    simp [newline_not_mem_digits hnumber, hname, hd']
  refine ⟨prefix_of_not_mem hnewline hstart, ⟨d, hd, ?_⟩, ?_⟩
  · exact ⟨number, name ++ [')', ':'], by simp⟩
  · exact ⟨number ++ [d, '('] ++ name, [], by simp⟩

theorem matchAt_of_not_digit {c : Char} (hc : c.isDigit = false) (text : List Char) :
    matchAt portPattern (c :: text) = none := matchAt_one_of_not hc

theorem findall_quiet {text rest : List Char}
    (h : ∀ m, m <:+: text → (∃ d, d.isDigit = true ∧ [d, '('] <:+: m) → ¬[')', ':'] <:+: m) :
    findall portPattern (text ++ '\n' :: rest) = findall portPattern rest := by
  rw [findall_append_of_quiet, findall_cons_of_none (matchAt_of_not_digit (by decide) _)]
  intro x y hxy _
  cases hm : matchAt portPattern (y ++ '\n' :: rest) with
  | none => rfl
  | some m =>
    obtain ⟨hstart, hopen, hclose⟩ := match_within_line hm
    have hpiece : m <:+: text := hstart.isInfix.trans ⟨x, [], by rw [hxy, List.append_nil]⟩
    exact absurd hclose (h m hpiece hopen)

section PortLine

variable (line : PortLine)

/-- The name goes on to the last `):` of the line. -/
theorem PortLine.matchAt_name (rest : List Char) :
    matchAt [.many (· != '\n'), .one (· == ')'), .one (· == ':')]
        (line.name.toList ++ ([')', ':'] ++ (line.more ++ '\n' :: rest))) =
      some (line.name.toList ++ [')', ':']) := by
  refine greedy_append ?_ rfl ?_
  · intro c hc
    rw [bne_iff_ne]
    rintro rfl
    exact line.word.2 hc
  · intro x y hx hxy hline
    cases hm : matchAt [.one (· == ')'), .one (· == ':')] y with
    | none => rfl
    | some m =>
      -- a second `):` would be in what comes behind the name
      obtain ⟨hstart, hmatches⟩ := matchAt_eq_some hm
      obtain ⟨_, _, rfl, hclose, hended⟩ := matches_one.mp hmatches
      obtain ⟨_, _, rfl, hcolon, hnil⟩ := matches_one.mp hended
      cases hnil
      rw [eq_of_beq hclose, eq_of_beq hcolon] at hstart
      have hnewline : '\n' ∉ x := fun hmem => absurd (hline _ hmem) (by decide)
      obtain ⟨c, x, rfl⟩ := List.exists_cons_of_ne_nil hx
      obtain ⟨rfl, hx1⟩ := List.cons.inj hxy
      cases x with
      | nil =>
        change ':' :: (line.more ++ '\n' :: rest) = y at hx1
        rw [← hx1, List.cons_prefix_cons] at hstart
        exact absurd hstart.1 (by decide)
      | cons c x =>
        obtain ⟨rfl, hx2⟩ := List.cons.inj hx1
        have hx3 : x <+: line.more ++ '\n' :: rest := ⟨y, hx2.symm⟩
        obtain ⟨z, hz⟩ := prefix_of_not_mem (fun hmem => hnewline (by simp [hmem])) hx3
        have hy : z ++ '\n' :: rest = y := by
          have happ : x ++ (z ++ '\n' :: rest) = x ++ y := by
            rw [← List.append_assoc, hz]
            exact hx2
          exact List.append_cancel_left happ
        rw [← hy] at hstart
        have hpiece := (prefix_of_not_mem (by decide) hstart).isInfix
        exact absurd (hpiece.trans ⟨x, [], by rw [hz, List.append_nil]⟩) line.plain.1

theorem PortLine.matchAt_head (rest : List Char) :
    matchAt portPattern (line.head ++ (line.more ++ '\n' :: rest)) = some line.head := by
  obtain ⟨hne, hdigits⟩ := line.digits
  obtain ⟨d, digits, hnumber⟩ := List.exists_cons_of_ne_nil hne
  rw [hnumber, List.forall_mem_cons] at hdigits
  have hhead : line.head = d :: (digits ++ '(' :: (line.name.toList ++ [')', ':'])) := by
    rw [PortLine.head, hnumber]
    simp
  rw [hhead, portPattern, List.cons_append, matchAt_one hdigits.1]
  have hmore : greedy Char.isDigit
      (matchAt [.one (· == '('), .many (· != '\n'), .one (· == ')'), .one (· == ':')])
      (digits ++ '(' :: (line.name.toList ++ ([')', ':'] ++ (line.more ++ '\n' :: rest)))) =
      some (digits ++ '(' :: (line.name.toList ++ [')', ':'])) := by
    refine greedy_append hdigits.2 ?_ ?_
    · refine (matchAt_one (p := (· == '(')) rfl).trans ?_
      rw [line.matchAt_name rest]
      rfl
    · intro x y hx hxy hdigit
      obtain ⟨c, x, rfl⟩ := List.exists_cons_of_ne_nil hx
      obtain ⟨rfl, -⟩ := List.cons.inj hxy
      exact absurd (hdigit _ List.mem_cons_self) (by decide)
  have happ : digits ++ '(' :: (line.name.toList ++ [')', ':']) ++ (line.more ++ '\n' :: rest) =
      digits ++ '(' :: (line.name.toList ++ ([')', ':'] ++ (line.more ++ '\n' :: rest))) := by
    simp
  rw [happ, matchAt, hmore]
  rfl

end PortLine

def ShowLine.found (line : ShowLine) : List (List Char) := (line.port?.map PortLine.head).toList

theorem findall_line (line : ShowLine) (rest : List Char) :
    findall portPattern (line.text ++ '\n' :: rest) = line.found ++ findall portPattern rest := by
  cases line with
  | other line =>
    refine findall_quiet fun m hm hopen => ?_
    obtain ⟨d, hd, hpiece⟩ := hopen
    exact absurd (hpiece.trans hm) (line.not_opened hd)
  | port line =>
    have hne : line.head ≠ [] := by
      obtain ⟨d, digits, hnumber⟩ := List.exists_cons_of_ne_nil line.digits.1
      rw [PortLine.head, hnumber]
      exact List.cons_ne_nil _ _
    have hmore : findall portPattern (line.more ++ '\n' :: rest) = findall portPattern rest :=
      findall_quiet fun m hm _ hclose => line.plain.1 (hclose.trans hm)
    rw [ShowLine.text, List.cons_append, List.cons_append, List.append_assoc,
      findall_cons_of_none (matchAt_of_not_digit (by decide) _),
      findall_append_of_match hne (line.matchAt_head rest), hmore]
    rfl

theorem findall_showText (lines : List ShowLine) :
    findall portPattern (showText lines).toList =
      (lines.filterMap ShowLine.port?).map PortLine.head := by
  rw [showText, String.toList_ofList]
  induction lines with
  | nil => rfl
  | cons line lines ih =>
    rw [List.flatMap_cons, List.append_assoc, List.singleton_append, findall_line, ih]
    cases line with
    | port line => rfl
    | other line => rfl

theorem PortLine.portEntry_head (line : PortLine) :
    portEntry line.head = some (line.name.toList, line.number) := by
  have hnumber : '(' ∉ line.number := fun hmem => absurd (line.digits.2 _ hmem) (by decide)
  have hname : '(' ∉ line.name.toList ++ [')', ':'] := by simp [line.word.1]
  have hsplit : line.head.splitOn '(' = [line.number, line.name.toList ++ [')', ':']] := by
    have hjoin : line.head = ['('].intercalate [line.number, line.name.toList ++ [')', ':']] := by
      simp [PortLine.head, List.intercalate]
    rw [hjoin]
    refine List.splitOn_intercalate '(' ?_ (List.cons_ne_nil _ _)
    simp only [List.forall_mem_cons, List.not_mem_nil, false_implies, implies_true, and_true]
    exact ⟨hnumber, hname⟩
  rw [portEntry, hsplit]
  simp

theorem mapM_portEntry (lines : List PortLine) :
    (lines.map PortLine.head).mapM portEntry =
      some (lines.map fun line => (line.name.toList, line.number)) := by
  induction lines with
  | nil => rfl
  | cons line lines ih =>
    rw [List.map_cons, List.mapM_cons, line.portEntry_head, ih]
    rfl

/-- What the text says of an interface: nothing, or the number on a line with its name. -/
theorem dictionary_cases (lines : List PortLine) (interface : String) :
    let index := dictionary (lines.map fun line => (line.name.toList, line.number))
      interface.toList
    (index = none ∧ ∀ line ∈ lines, line.name ≠ interface) ∨
      ∃ line ∈ lines, line.name = interface ∧ index = some line.number := by
  induction lines using List.reverseRecOn with
  | nil => exact .inl ⟨rfl, by simp⟩
  | append_singleton lines line ih =>
    simp only [List.map_append, List.map_singleton, dictionary, List.foldl_append,
      List.foldl_cons, List.foldl_nil]
    by_cases hname : line.name = interface
    · refine .inr ⟨line, by simp, hname, ?_⟩
      rw [hname, Function.update_self]
    · have hkey : interface.toList ≠ line.name.toList :=
        fun h => hname (String.toList_inj.mp h).symm
      rw [Function.update_of_ne hkey]
      rcases ih with ⟨hnone, hother⟩ | ⟨line', hmem, hname', hsome⟩
      · refine .inl ⟨hnone, ?_⟩
        intro line' hmem
        rcases List.mem_append.mp hmem with hmem | hmem
        · exact hother line' hmem
        · rwa [List.mem_singleton.mp hmem]
      · exact .inr ⟨line', List.mem_append_left _ hmem, hname', hsome⟩

/-- From the printed text `get_port` reads the number under which the bridge has the interface,
and `check` whether it has it. -/
theorem port_read_back (bridge : Bridge) (lines : List ShowLine) (h : PrintsPorts bridge lines)
    (interface : String) :
    getPort (showText lines) interface = some ((bridge.index interface : ℤ) - 1) ∧
      check (showText lines) interface =
        some (if bridge.index interface = 0 then -1 else 0) := by
  have hport : getPort (showText lines) interface =
      some ((bridge.index interface : ℤ) - 1) := by
    rw [getPort, getPorts, findall_showText, mapM_portEntry]
    simp only [Option.map_some]
    congr 1
    rcases dictionary_cases (lines.filterMap ShowLine.port?) interface with
      ⟨hnone, hother⟩ | ⟨line, hmem, rfl, hsome⟩
    · have hports : bridge.ports interface = none := by
        cases hp : bridge.ports interface with
        | none => rfl
        | some n =>
          obtain ⟨line, hmem, hname, -⟩ := (h interface n).mp hp
          exact absurd hname (hother line hmem)
      rw [hnone, Bridge.index, hports]
      rfl
    · have hports := (h line.name (int line.number)).mpr ⟨line, hmem, rfl, rfl⟩
      rw [hsome, Bridge.index, hports]
      rfl
  refine ⟨hport, ?_⟩
  rw [check, hport, Option.map_some]
  congr 1
  split_ifs <;> omega

def header : OtherLine where
  text := "OFPT_FEATURES_REPLY (xid=0x2): dpid:0000000a0b0c0d0e".toList
  oneLine := by decide
  quiet := by decide

def localPort : OtherLine where
  text := " LOCAL(tb): addr:00:0a:0b:0c:0d:0e".toList
  oneLine := by decide
  quiet := by decide

def wirelessPort : PortLine where
  number := ['1']
  name := "w0"
  more := " addr:0a:00:00:00:00:01".toList
  digits := ⟨List.cons_ne_nil _ _, List.forall_mem_singleton.mpr (by decide)⟩
  word := by decide
  plain := by decide

def wiredPort : PortLine where
  number := ['1', '2']
  name := "eth1"
  more := " addr:0a:00:00:00:00:02".toList
  digits := ⟨List.cons_ne_nil _ _, List.forall_mem_cons.mpr
    ⟨by decide, List.forall_mem_singleton.mpr (by decide)⟩⟩
  word := by decide
  plain := by decide

def printed : List ShowLine :=
  [.other header, .port wirelessPort, .port wiredPort, .other localPort]

def printedBridge : Bridge where
  ports name := if name = "w0" then some 1 else if name = "eth1" then some 12 else none
  flows := []

theorem printsPorts_printed : PrintsPorts printedBridge printed := by
  intro name n
  change (if name = "w0" then some 1 else if name = "eth1" then some 12 else none) = some n ↔
    ∃ line ∈ [wirelessPort, wiredPort], line.name = name ∧ int line.number = n
  simp only [List.exists_mem_cons_iff, List.not_mem_nil, false_and, exists_false, or_false]
  change _ ↔ "w0" = name ∧ 1 = n ∨ "eth1" = name ∧ 12 = n
  split_ifs with hw he
  · simp [hw]
  · simp [he]
  · simp [Ne.symm hw, Ne.symm he]

theorem port_read_back_wired : getPort (showText printed) "eth1" = some 11 :=
  (port_read_back printedBridge printed printsPorts_printed "eth1").1

end AuroraRelay.Datapath
