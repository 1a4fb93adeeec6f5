import AuroraRelay.SplitString
import AuroraRelay.StationDatapath

namespace AuroraRelay.StationTable
open Std WarpProtocol

structure MibLine where
  name : String
  value : String

def MibLine.chars (line : MibLine) : List Char :=
  line.name.toList ++ '=' :: line.value.toList ++ ['\n']

inductive WpaVersion
  | noWpa
  | wpa
  | wpa2
  deriving DecidableEq

inductive Cipher
  | none
  | wep40
  | wep104
  | tkip
  | ccmp
  | other

/-- The last byte of the selector of a suite. -/
def Cipher.suite : Cipher → Option ℕ
  | .none => some 0
  | .wep40 => some 1
  | .tkip => some 2
  | .ccmp => some 4
  | .wep104 => some 5
  | .other => Option.none

/-- `RSN_SUITE` of the selected suite, which is zero for any other cipher. -/
def selectedPairwiseCipher (vendor : String) (pairwise : Cipher) : String :=
  match pairwise.suite with
  | some n => vendor ++ "-" ++ toString n
  | Option.none => "00-00-00-0"

structure WpaSm where
  wpa : WpaVersion
  pairwise : Cipher
  addr : Mac
  tkipLocalMicFailures : UInt32
  tkipRemoteMicFailures : UInt32
  ptkState : ℕ
  ptkGroupState : ℕ

def wpaMib (sm : WpaSm) (vendor : String) : List MibLine :=
  [⟨"dot11RSNAStatsSTAAddress", macText sm.addr⟩,
    ⟨"dot11RSNAStatsVersion", "1"⟩,
    ⟨"dot11RSNAStatsSelectedPairwiseCipher", selectedPairwiseCipher vendor sm.pairwise⟩,
    ⟨"dot11RSNAStatsTKIPLocalMICFailures", toString sm.tkipLocalMicFailures⟩,
    ⟨"dot11RSNAStatsTKIPRemoveMICFailures", toString sm.tkipRemoteMicFailures⟩,
    ⟨"hostapdWPAPTKState", toString sm.ptkState⟩,
    ⟨"hostapdWPAPTKGroupState", toString sm.ptkGroupState⟩]

def wpaGetMibSta : Option WpaSm → List MibLine
  | Option.none => []
  | some sm =>
    match sm.wpa with
    | .wpa => wpaMib sm "00-50-f2"
    | .wpa2 => wpaMib sm "00-0f-ac"
    | .noWpa => []

/-- `ieee8021x` and `wps` are the lines that `ieee802_1x_get_mib_sta` and
`wps_registrar_get_info` print, none for a station that they know nothing of. -/
structure Station where
  addr : Mac
  wpaSm : Option WpaSm
  ieee8021x : List MibLine
  wps : List MibLine

/-- The lines behind the address; `ieee802_11_get_mib_sta` has none. -/
def Station.mib (sta : Station) : List MibLine :=
  wpaGetMibSta sta.wpaSm ++ sta.ieee8021x ++ sta.wps

def hostapdCtrlIfaceStaMib (sta : Station) : List Char :=
  (macText sta.addr).toList ++ '\n' :: sta.mib.flatMap MibLine.chars

def allSta (table : List Station) : List Char := table.flatMap hostapdCtrlIfaceStaMib

abbrev outputSize : ℕ := 1024

/-- The indices that `get_command_output` stores to: one for each byte that is printed, and
one for the zero behind them. -/
def storedIndices (printed : List Char) : List ℕ :=
  List.range ((printed.map Char.utf8Size).sum + 1)

/-- `split_string`: what stands before each delimiter, and the rest unless it is blank. -/
def splitString (delimiter : Char) (piece : List Char) : List Char → List String
  | [] => if piece ≠ [] ∧ piece ≠ [' '] then [String.ofList piece] else []
  | c :: rest =>
    if c = delimiter then String.ofList piece :: splitString delimiter [] rest
    else splitString delimiter (piece ++ [c]) rest

def outputMacAddr (printed : List Char) : TreeSet String :=
  TreeSet.ofList (splitString '\n' [] printed)

/-- The round finds the stations of the table, and the output fits the buffer. -/
def Polled (table : List Station) : Prop :=
  (∀ i ∈ storedIndices (allSta table), i < outputSize) ∧
    ∀ text : String, text ∈ outputMacAddr (allSta table) ↔ ∃ sta ∈ table, text = macText sta.addr

def Station.Bare (sta : Station) : Prop :=
  (∀ sm ∈ sta.wpaSm, sm.wpa = .noWpa) ∧ sta.ieee8021x = [] ∧ sta.wps = []

def addressChars : List Char :=
  ['0', '1', '2', '3', '4', '5', '6', '7', '8', '9', 'a', 'b', 'c', 'd', 'e', 'f', ':']

theorem addressChars_plain : ∀ c ∈ addressChars, c ≠ '\n' ∧ c ≠ '=' ∧ c.utf8Size = 1 := by
  have hall : addressChars.all (fun c => decide (c ≠ '\n' ∧ c ≠ '=' ∧ c.utf8Size = 1)) = true := by
    decide
  exact fun c hc => of_decide_eq_true (List.all_eq_true.mp hall c hc)

theorem mem_octetText (octet : UInt8) : ∀ c ∈ octetText octet, c ∈ addressChars := by
  have hdigit : ∀ n : Fin 16, lowerHexDigit n ∈ addressChars := by decide
  have hbound := octet.toNat_lt
  unfold octetText
  rw [List.forall_mem_cons, List.forall_mem_cons]
  exact ⟨hdigit ⟨octet.toNat / 16, by omega⟩, hdigit ⟨octet.toNat % 16, by omega⟩, by simp⟩

theorem mem_macText (m : Mac) : ∀ c ∈ (macText m).toList, c ∈ addressChars := by
  have hcolon : ':' ∈ addressChars := by decide
  simp only [macText, String.toList_ofList, List.forall_mem_append, List.forall_mem_cons]
  simp only [eq_true (mem_octetText _), eq_true hcolon, and_true]

theorem length_macText (m : Mac) : (macText m).toList.length = 17 := by
  simp [macText, octetText]

theorem newline_not_mem_macText (m : Mac) : '\n' ∉ (macText m).toList :=
  fun hmem => (addressChars_plain _ (mem_macText m _ hmem)).1 rfl

theorem equals_not_mem_macText (m : Mac) : '=' ∉ (macText m).toList :=
  fun hmem => (addressChars_plain _ (mem_macText m _ hmem)).2.1 rfl

/-- An address is as many bytes as characters. -/
theorem bytes_macText (m : Mac) : ((macText m).toList.map Char.utf8Size).sum = 17 := by
  have hone : (macText m).toList.map Char.utf8Size = List.replicate 17 1 := by
    rw [← length_macText m, ← List.map_const']
    exact List.map_congr_left fun c hc => (addressChars_plain c (mem_macText m c hc)).2.2
  rw [hone]
  rfl

theorem splitString_line {delimiter : Char} {line : List Char} (h : delimiter ∉ line)
    (piece rest : List Char) :
    splitString delimiter piece (line ++ delimiter :: rest) =
      String.ofList (piece ++ line) :: splitString delimiter [] rest := by
  induction line generalizing piece with
  | nil => simp [splitString]
  | cons c line ih =>
    obtain ⟨hc, hline⟩ := List.ne_and_not_mem_of_not_mem_cons h
    rw [List.cons_append, splitString, if_neg (Ne.symm hc), ih hline]
    simp

theorem splitString_last {delimiter : Char} {line : List Char} (h : delimiter ∉ line)
    (piece : List Char) :
    splitString delimiter piece line = (Util.lastPiece ' ' (piece ++ line)).map String.ofList := by
  induction line generalizing piece with
  | nil =>
    rw [splitString, List.append_nil, Util.lastPiece]
    by_cases hblank : piece = [] ∨ piece = [' ']
    · rw [if_pos hblank, if_neg (not_and_or.mpr (hblank.imp not_not_intro not_not_intro))]
      rfl
    · rw [if_neg hblank, if_pos (not_or.mp hblank)]
      rfl
  | cons c line ih =>
    obtain ⟨hc, hline⟩ := List.ne_and_not_mem_of_not_mem_cons h
    rw [splitString, if_neg (Ne.symm hc), ih hline]
    simp

theorem splitString_of_splits {delimiter : Char} {original rest : List Char}
    {pieces : List (List Char)} (h : Split.Splits [delimiter] original pieces rest) :
    splitString delimiter [] original =
      (pieces ++ Util.lastPiece ' ' rest).map String.ofList := by
  have hmem {text : List Char} (hfree : ¬[delimiter] <:+: text) : delimiter ∉ text :=
    fun hd => hfree ((List.singleton_infix_iff _ _).mpr hd)
  induction h with
  | rest h => exact splitString_last (hmem (Split.not_infix_rest h)) []
  | piece hp _ ih =>
    have hline := hmem (Split.not_infix_piece (by simp) hp)
    rw [Split.eq_append_of_dropInfix? hp, List.append_assoc, List.singleton_append,
      splitString_line hline, ih]
    rfl

/-- Every character but delimiters and blanks gets into some piece. -/
theorem exists_piece {delimiter c : Char} (hd : c ≠ delimiter) (hb : c ≠ ' ')
    {piece original : List Char} (h : c ∈ piece ++ original) :
    ∃ text ∈ splitString delimiter piece original, c ∈ text.toList := by
  induction original generalizing piece with
  | nil =>
    rw [List.append_nil] at h
    have hpiece : piece ≠ [] ∧ piece ≠ [' '] := by
      constructor
      · rintro rfl
        cases h
      · rintro rfl
        exact hb (List.mem_singleton.mp h)
    exact ⟨String.ofList piece, by simp [splitString, hpiece], by simpa using h⟩
  | cons x original ih =>
    rw [splitString]
    split_ifs with hx
    · rcases List.mem_append.mp h with h | h
      · exact ⟨String.ofList piece, by simp, by simpa using h⟩
      · rcases List.mem_cons.mp h with rfl | h
        · exact absurd hx hd
        · obtain ⟨text, htext, hc⟩ : ∃ text ∈ splitString delimiter [] original, c ∈ text.toList :=
            ih h
          exact ⟨text, by simp [htext], hc⟩
    · exact ih (by simpa using h)

theorem wpaGetMibSta_eq_nil_iff (sm : Option WpaSm) :
    wpaGetMibSta sm = [] ↔ ∀ s ∈ sm, s.wpa = .noWpa := by
  cases sm with
  | none => simp [wpaGetMibSta]
  | some s => cases h : s.wpa <;> simp [wpaGetMibSta, wpaMib, h]

theorem mib_eq_nil_iff (sta : Station) : sta.mib = [] ↔ sta.Bare := by
  simp only [Station.mib, List.append_eq_nil_iff, wpaGetMibSta_eq_nil_iff, Station.Bare, and_assoc]

theorem mem_outputMacAddr {printed : List Char} {text : String} :
    text ∈ outputMacAddr printed ↔ text ∈ splitString '\n' [] printed := by
  simp [outputMacAddr]

/-- The set of a round is the one that the loop of `split_string` fills. -/
theorem outputMacAddr_eq_splitStringSet {printed : List Char} (hlen : printed.length < 2 ^ 31)
    {fuel : ℕ} (hfuel : printed.length < fuel) :
    ∃ rest texts, Util.splitStringSet ' ' fuel printed ['\n'] ∅ = some (rest, texts) ∧
      ∀ text : String, text ∈ outputMacAddr printed ↔ text.toList ∈ texts := by
  obtain ⟨pieces, rest, h⟩ := Split.exists_splits (List.cons_ne_nil '\n' []) printed
  refine ⟨rest, _, Util.splitStringSet_splits h (by simp) hlen ' ' hfuel ∅, fun text => ?_⟩
  rw [mem_outputMacAddr, splitString_of_splits h, List.mem_map, Finset.empty_union,
    List.mem_toFinset]
  constructor
  · rintro ⟨piece, hpiece, rfl⟩
    rwa [String.toList_ofList]
  · intro htext
    exact ⟨text.toList, htext, String.ofList_toList⟩

/-- A line of management information is taken for a station. -/
theorem bare_of_polled {table : List Station} (h : Polled table) {sta : Station}
    (hsta : sta ∈ table) : sta.Bare := by
  rw [← mib_eq_nil_iff]
  by_contra hmib
  obtain ⟨line, hline⟩ := List.exists_mem_of_ne_nil _ hmib
  have hequals : '=' ∈ allSta table := by
    refine List.mem_flatMap.mpr ⟨sta, hsta, ?_⟩
    refine List.mem_append_right _ (List.mem_cons_of_mem _ ?_)
    exact List.mem_flatMap.mpr ⟨line, hline, by simp [MibLine.chars]⟩
  obtain ⟨text, htext, hmem⟩ :
      ∃ text ∈ splitString '\n' [] (allSta table), '=' ∈ text.toList :=
    exists_piece (by decide) (by decide) hequals
  obtain ⟨sta', -, rfl⟩ := (h.2 text).mp (mem_outputMacAddr.mpr htext)
  exact equals_not_mem_macText sta'.addr hmem

section Bare

variable {table : List Station} (h : ∀ sta ∈ table, sta.Bare)
include h

theorem allSta_of_bare :
    allSta table = table.flatMap fun sta => (macText sta.addr).toList ++ ['\n'] := by
  unfold allSta
  apply List.flatMap_congr
  intro sta hsta
  rw [hostapdCtrlIfaceStaMib, (mib_eq_nil_iff sta).mpr (h sta hsta)]
  rfl

theorem splitString_of_bare :
    splitString '\n' [] (allSta table) = table.map fun sta => macText sta.addr := by
  rw [allSta_of_bare h]
  clear h
  induction table with
  | nil => rfl
  | cons sta table ih =>
    rw [List.flatMap_cons, List.append_assoc, List.singleton_append,
      splitString_line (newline_not_mem_macText sta.addr), ih]
    simp

theorem bytes_of_bare : ((allSta table).map Char.utf8Size).sum = 18 * table.length := by
  rw [allSta_of_bare h]
  clear h
  induction table with
  | nil => rfl
  | cons sta table ih =>
    have hnewline : ['\n'].map Char.utf8Size = [1] := rfl
    rw [List.flatMap_cons, List.map_append, List.sum_append, ih, List.map_append, List.sum_append,
      bytes_macText, hnewline, List.length_cons]
    simp only [List.sum_singleton]
    omega

theorem polled_of_bare (hlength : table.length ≤ 56) : Polled table := by
  refine ⟨fun i hi => ?_, fun text => ?_⟩
  · rw [storedIndices, bytes_of_bare h, List.mem_range] at hi
    simp only [outputSize]
    omega
  · rw [mem_outputMacAddr, splitString_of_bare h, List.mem_map]
    simp only [eq_comm]

end Bare

/-- A round finds exactly the stations of the table, within the buffer, exactly if nothing
but addresses is printed and there are at most 56 of them. -/
theorem station_set_polled_iff (table : List Station) :
    Polled table ↔ (∀ sta ∈ table, sta.Bare) ∧ table.length ≤ 56 := by
  constructor
  · intro h
    have hbare : ∀ sta ∈ table, sta.Bare := fun sta hsta => bare_of_polled h hsta
    have hlast := h.1 (18 * table.length) (by simp [storedIndices, bytes_of_bare hbare])
    refine ⟨hbare, ?_⟩
    simp only [outputSize] at hlast
    omega
  · rintro ⟨hbare, hlength⟩
    exact polled_of_bare hbare hlength

def protectedStation : Station where
  addr := Datapath.stationMac
  wpaSm := some ⟨.wpa2, .ccmp, Datapath.stationMac, 0, 0, 11, 0⟩
  ieee8021x := []
  wps := []

theorem protected_station_not_polled : ¬Polled [protectedStation] := by
  intro h
  have hbare := (bare_of_polled h (List.mem_singleton.mpr rfl)).1 _ rfl
  cases hbare

end AuroraRelay.StationTable
