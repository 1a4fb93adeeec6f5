import AuroraRelay.Datapath

/-!
# Removing an interface

`remove` finds the stations of an interface in the printed flow table, where it compares one
character of each printed port number with the port numbers of the two interfaces.  With
ports below ten this finds the stations of the interface, and those of every port that
begins with the same digit.
-/

namespace AuroraRelay.Datapath
open CommsAgent FlowTable WarpProtocol

structure PortNumbers where
  number : String → ℕ
  positive : ∀ interface, 0 < number interface

inductive SetupCall
  | add (virtualInterface : String)
  | associate (virtualInterface macAddress : String)

def SetupCall.virtualInterface : SetupCall → String
  | .add v => v
  | .associate v _ => v

section

variable (ofctl : Ofctl) (N : PortNumbers) (e : String)

def setupStep (bridge : Bridge) : SetupCall → Bridge
  | .add v => add (fun _ interface => some (N.number interface)) bridge v e
  | .associate v macAddress => associate ofctl bridge v e macAddress

def setup (calls : List SetupCall) : Bridge :=
  calls.foldl (setupStep ofctl N e) ⟨fun _ => none, []⟩

def downlink (virtualPort ethernetPort protocol : ℕ) : PortFlow :=
  ⟨1, ⟨some virtualPort, none, some protocol⟩, ethernetPort⟩

/-- Interfaces are bound under their numbers, and every flow is the uplink of a station or the
downlink of an interface. -/
structure Built (bridge : Bridge) (routes : Mac → Option ℕ) : Prop where
  ports : ∀ i n, bridge.ports i = some n → n = N.number i
  uplinks : Carries bridge (N.number e) routes
  flows : ∀ f ∈ bridge.flows, IsUplink (N.number e) f ∨
    ∃ v, ∃ p ∈ supportedProtocol, f = downlink (N.number v) (N.number e) p

end

variable {ofctl : Ofctl} {N : PortNumbers} {e v : String} {bridge : Bridge}
  {routes : Mac → Option ℕ}

theorem Built.index_eq (h : Built N e bridge routes) (i : String) :
    bridge.index i = 0 ∧ bridge.ports i = none ∨
      bridge.index i = N.number i ∧ bridge.ports i = some (N.number i) := by
  unfold Bridge.index
  cases hp : bridge.ports i with
  | none => exact .inl ⟨rfl, rfl⟩
  | some n =>
    obtain rfl := h.ports i n hp
    exact .inr ⟨rfl, rfl⟩

theorem downlinks_pairwise (x y : ℕ) :
    (supportedProtocol.map fun p => downlink x y p).Pairwise fun f g => ¬f.Clashes g := by
  rw [List.pairwise_map]
  simp only [Flow.Clashes, downlink, Pattern.mk.injEq, Option.some.injEq, true_and, and_true]
  decide

theorem addDownlinks_eq (b : Bridge) (x y : ℕ) :
    supportedProtocol.foldl (fun b protocol => b.addFlow 1 ⟨x, none, some protocol⟩ y) b =
      { b with
        flows := (supportedProtocol.map fun p => downlink x y p).foldl
          (fun t flow => FlowTable.addFlow flow t) b.flows } := by
  simp [supportedProtocol, Bridge.addFlow, FlowSpec.pattern, downlink]

/-- What `add` does: it binds the interfaces that are not bound, and sets the downlinks up if
the wireless one is new. -/
theorem Built.add_cases (h : Built N e bridge routes) (hv : v ≠ e) :
    (add (fun _ i => some (N.number i)) bridge v e).ports =
        (fun i => if i = e ∨ i = v then some (N.number i) else bridge.ports i) ∧
      ((add (fun _ i => some (N.number i)) bridge v e).flows = bridge.flows ∨
        (add (fun _ i => some (N.number i)) bridge v e).flows =
          (supportedProtocol.map fun p => downlink (N.number v) (N.number e) p).foldl
            (fun t flow => FlowTable.addFlow flow t) bridge.flows) := by
  have hepos := N.positive e
  -- the switch once the wired interface is bound
  obtain ⟨wired, hwired, hports, hflows⟩ : ∃ wired : Bridge,
      (if bridge.index e = 0 then addInterface (fun _ i => some (N.number i)) bridge e
        else bridge) = wired ∧
      wired.ports = Function.update bridge.ports e (some (N.number e)) ∧
      wired.flows = bridge.flows := by
    refine ⟨_, rfl, ?_⟩
    rcases h.index_eq e with ⟨h0, -⟩ | ⟨h1, hp⟩
    · rw [if_pos h0]
      exact ⟨rfl, rfl⟩
    · rw [if_neg (by omega), ← hp, Function.update_eq_self]
      exact ⟨rfl, rfl⟩
  have he : wired.index e = N.number e := by simp [Bridge.index, hports]
  have hindex : wired.index v = bridge.index v := by
    simp [Bridge.index, hports, Function.update_of_ne hv]
  simp only [add, hwired]
  rcases h.index_eq v with ⟨h0, -⟩ | ⟨h1, hp⟩
  · have hnew : wired.index v = 0 := hindex.trans h0
    simp only [hnew, ne_eq, not_true_eq_false, if_false, he]
    have hv' : (addInterface (fun _ i => some (N.number i)) wired v).index v = N.number v := by
      simp [Bridge.index, addInterface]
    rw [hv', addDownlinks_eq]
    refine ⟨?_, .inr (by rw [addInterface, hflows])⟩
    simp only [addInterface, hports]
    funext i
    by_cases hiv : i = v
    · subst hiv
      simp
    · by_cases hi : i = e
      · subst hi
        simp [hiv]
      · simp [hi, hiv]
  · have hbound : wired.index v ≠ 0 := by
      have := N.positive v
      omega
    rw [if_pos hbound]
    refine ⟨?_, .inl hflows⟩
    rw [hports]
    funext i
    by_cases hi : i = e
    · subst hi
      simp
    · by_cases hiv : i = v
      · subst hiv
        simp [hi, hp]
      · simp [hi, hiv]

/-- A downlink replaces no uplink. -/
theorem not_clashes_downlink {f : PortFlow} {x y p : ℕ} (h : IsUplink (N.number e) f) :
    ¬f.Clashes (downlink x y p) := by
  rintro ⟨hpattern, -⟩
  have hsome := h.2
  rw [hpattern] at hsome
  cases hsome

theorem Built.add (h : Built N e bridge routes) (hv : v ≠ e) :
    Built N e (Datapath.add (fun _ i => some (N.number i)) bridge v e) routes := by
  obtain ⟨hports, hflows⟩ := h.add_cases hv
  refine ⟨fun i n hi => ?_, fun f => ?_, fun f hf => ?_⟩
  · rw [hports] at hi
    dsimp only at hi
    split_ifs at hi
    · exact (Option.some.inj hi).symm
    · exact h.ports i n hi
  · rcases hflows with hflows | hflows
    · rw [hflows]
      exact h.uplinks f
    · rw [hflows, mem_foldl_addFlow (downlinks_pairwise _ _), ← h.uplinks f]
      constructor
      · rintro ⟨⟨hf, -⟩ | hf, hup⟩
        · exact ⟨hf, hup⟩
        · obtain ⟨p, -, rfl⟩ := List.mem_map.mp hf
          cases hup.2
      · rintro ⟨hf, hup⟩
        refine ⟨.inl ⟨hf, fun g hg => ?_⟩, hup⟩
        obtain ⟨p, -, rfl⟩ := List.mem_map.mp hg
        exact not_clashes_downlink hup
  · rcases hflows with hflows | hflows
    · rw [hflows] at hf
      exact h.flows f hf
    · rw [hflows, mem_foldl_addFlow (downlinks_pairwise _ _)] at hf
      rcases hf with ⟨hf, -⟩ | hf
      · exact h.flows f hf
      · obtain ⟨p, hp, rfl⟩ := List.mem_map.mp hf
        exact .inr ⟨v, p, hp, rfl⟩

theorem Built.associate (h : Built N e bridge routes) (v text : String) :
    ∃ routes', Built N e (Datapath.associate ofctl bridge v e text) routes' := by
  rcases h.index_eq v with ⟨h0, -⟩ | ⟨hv, hpv⟩
  · exact ⟨routes, by simpa [Datapath.associate, h0] using h⟩
  · rcases h.index_eq e with ⟨h0, -⟩ | ⟨he, hpe⟩
    · exact ⟨routes, by simpa [Datapath.associate, h0] using h⟩
    · cases hm : ofctl.readMac text with
      | none =>
        refine ⟨routes, ?_⟩
        simpa [Datapath.associate, supportedProtocol, Bridge.addFlow, FlowSpec.pattern, hm] using h
      | some station =>
        have hv0 := (N.positive v).ne'
        have he0 := (N.positive e).ne'
        have heq := associate_eq hpv hv0 hpe he0 hm
        refine ⟨_, ⟨?_, carries_associate h.uplinks hpv hv0 hpe he0 hm, fun f hf => ?_⟩⟩
        · rw [heq]
          exact h.ports
        · rw [heq, mem_foldl_addFlow (uplinks_pairwise _ _ _)] at hf
          rcases hf with ⟨hf, -⟩ | hf
          · exact h.flows f hf
          · obtain ⟨p, -, rfl⟩ := List.mem_map.mp hf
            exact .inl (isUplink_uplink ..)

theorem setup_concat (ofctl : Ofctl) (N : PortNumbers) (e : String) (calls : List SetupCall)
    (c : SetupCall) :
    setup ofctl N e (calls ++ [c]) = setupStep ofctl N e (setup ofctl N e calls) c := by
  simp [setup]

/-- Every table that the calls set up. -/
theorem built_setup (ofctl : Ofctl) (N : PortNumbers) (e : String) {calls : List SetupCall}
    (h : ∀ c ∈ calls, c.virtualInterface ≠ e) :
    ∃ routes, Built N e (setup ofctl N e calls) routes := by
  induction calls using List.reverseRecOn with
  | nil =>
    refine ⟨fun _ => none, ⟨nofun, fun f => ?_, nofun⟩⟩
    simp [setup]
  | append_singleton calls c ih =>
    obtain ⟨routes, hbuilt⟩ := ih fun c' hc' => h c' (by simp [hc'])
    rw [setup_concat]
    cases c with
    | add v => exact ⟨routes, hbuilt.add (h (.add v) (by simp))⟩
    | associate v text => exact hbuilt.associate v text

theorem ports_associate (ofctl : Ofctl) (bridge : Bridge) (v e text : String) :
    (associate ofctl bridge v e text).ports = bridge.ports := by
  have hadd (b : Bridge) (spec : FlowSpec) (out : ℕ) : (b.addFlow 1 spec out).ports = b.ports := by
    unfold Bridge.addFlow
    split <;> rfl
  unfold associate
  dsimp only
  split_ifs
  · rfl
  · rfl
  · simp only [supportedProtocol, List.foldl_cons, List.foldl_nil, hadd]

/-- An interface that was added is bound, and so is the wired one. -/
theorem bound_setup (ofctl : Ofctl) (N : PortNumbers) {e v : String} {calls : List SetupCall}
    (h : ∀ c ∈ calls, c.virtualInterface ≠ e) (hv : .add v ∈ calls) :
    (setup ofctl N e calls).ports v = some (N.number v) ∧
      (setup ofctl N e calls).ports e = some (N.number e) := by
  induction calls using List.reverseRecOn with
  | nil => cases hv
  | append_singleton calls c ih =>
    have hvirtual : ∀ c' ∈ calls, c'.virtualInterface ≠ e := fun c' hc' => h c' (by simp [hc'])
    obtain ⟨routes, hbuilt⟩ := built_setup ofctl N e hvirtual
    rw [setup_concat]
    cases c with
    | add u =>
      have hu : u ≠ e := h (.add u) (by simp)
      simp only [setupStep, (hbuilt.add_cases hu).1]
      rcases List.mem_append.mp hv with hv | hv
      · obtain ⟨hpv, hpe⟩ := ih hvirtual hv
        simp [hpv]
      · obtain rfl : v = u := by simpa using hv
        simp
    | associate u text =>
      simp only [setupStep, ports_associate]
      exact ih hvirtual (by simpa using hv)

/-- What stands behind the first place where `key` does, `flow[flow.find(key) + len(key):]`. -/
def behind (key : List Char) : List Char → Option (List Char)
  | [] => if key = [] then some [] else none
  | c :: text =>
    if key.isPrefixOf (c :: text) then some ((c :: text).drop key.length) else behind key text

/-- What `remove` does with a line of the dump: the characters taken for the two port numbers,
and the seventeen characters taken for the address.  `none` if the line is passed over, or
if an index of Python's fails, which no printed flow makes it do. -/
def scanLine (line : List Char) : Option (Char × Char × List Char) :=
  match behind "in_port=".toList line, behind "dl_src=".toList line,
    behind "output:".toList line with
  | some inPort, some source, some _ => do
    -- where the key is not found, `find` gives -1
    let actions := ((behind "actions=".toList line).getD (line.drop 7)).splitOn ','
    let action ← actions.find? fun x => (behind "output:".toList x).isSome
    let outPort ← behind "output:".toList action
    return (← inPort.head?, ← outPort.head?, source.take 17)
  | _, _, _ => none

def scannedStation (virtualIndex ethernetIndex : ℕ) (line : List Char) : Option String :=
  match scanLine line with
  | some (inPort, outPort, mac) =>
    if [inPort] = (toString ethernetIndex).toList ∧ [outPort] = (toString virtualIndex).toList
    then some (String.ofList mac) else none
  | none => none

def scannedStations (lines : List (List Char)) (virtualIndex ethernetIndex : ℕ) : List String :=
  lines.filterMap (scannedStation virtualIndex ethernetIndex)

/-- `remove` as it goes by the lines of the dump. -/
def removeScanned (ofctl : Ofctl) (lines : List (List Char)) (bridge : Bridge)
    (virtualInterface ethernetInterface : String) : Bridge :=
  let virtualIndex := bridge.index virtualInterface
  let ethernetIndex := bridge.index ethernetInterface
  let cleared := (scannedStations lines virtualIndex ethernetIndex).foldl
    (fun b mac => b.removeFlow ⟨ethernetIndex, some (ofctl.readMac mac), none⟩) bridge
  let closed := supportedProtocol.foldl
    (fun b protocol => b.removeFlow ⟨virtualIndex, none, some protocol⟩) cleared
  removeInterface closed virtualInterface

/-- The line has the keys that the flow has, each followed by its value. -/
structure PrintedAs (line : List Char) (f : PortFlow) : Prop where
  inPort : ∀ n, f.pattern.inPort = some n →
    ∃ rest, behind "in_port=".toList line = some ((toString n).toList ++ rest)
  noInPort : f.pattern.inPort = none → behind "in_port=".toList line = none
  source : ∀ m, f.pattern.dlSrc = some m → ∃ (text : String) (rest : List Char),
    IsMacText text m ∧ behind "dl_src=".toList line = some (text.toList ++ rest)
  noSource : f.pattern.dlSrc = none → behind "dl_src=".toList line = none
  actions : behind "actions=".toList line =
    some ("output:".toList ++ (toString f.action).toList)

/-- `dump-flows` prints each flow on a line of its own; the last line is empty. -/
structure Dumps (lines : List (List Char)) (flows : List PortFlow) : Prop where
  printed : ∀ f ∈ flows, ∃ line ∈ lines, PrintedAs line f
  flow : ∀ line ∈ lines, line = [] ∨ ∃ f ∈ flows, PrintedAs line f

theorem behind_self_append {key rest : List Char} (h : key ≠ []) :
    behind key (key ++ rest) = some rest := by
  obtain ⟨c, key, rfl⟩ := List.exists_cons_of_ne_nil h
  simp [behind, List.isPrefixOf_iff_prefix]

theorem infix_of_behind {key text rest : List Char} (h : behind key text = some rest) :
    key ++ rest <:+ text := by
  induction text with
  | nil =>
    unfold behind at h
    split_ifs at h with hk
    obtain rfl := Option.some.inj h
    simp [hk]
  | cons c text ih =>
    unfold behind at h
    split_ifs at h with hk
    · obtain rfl := Option.some.inj h
      rw [List.isPrefixOf_iff_prefix] at hk
      obtain ⟨t, ht⟩ := hk
      rw [← ht]
      simp
    · exact (ih h).trans (List.suffix_cons _ _)

theorem behind_isSome {key text : List Char} (h : key <:+: text) : (behind key text).isSome := by
  induction text with
  | nil => simp [behind, List.infix_nil.mp h]
  | cons c text ih =>
    unfold behind
    split_ifs with hk
    · rfl
    · rw [List.isPrefixOf_iff_prefix] at hk
      exact ih ((List.infix_cons_iff.mp h).resolve_left hk)

theorem head?_toString (n : ℕ) : ∃ c, (toString n).toList.head? = some c := by
  have hne : (toString n).toList ≠ [] := by
    rw [Nat.toString_eq_repr, Nat.toList_repr]
    exact Nat.toDigits_ne_nil
  exact ⟨_, List.head?_eq_some_head hne⟩

/-- One character is the number if it is its first digit and there is no other. -/
theorem firstDigit_eq_iff {n k : ℕ} {c : Char} (h : (toString n).toList.head? = some c) :
    firstDigit n = toString k ↔ [c] = (toString k).toList := by
  obtain ⟨cs, hcs⟩ : ∃ cs, (toString n).toList = c :: cs := List.head?_eq_some_iff.mp h
  have htake : firstDigit n = String.ofList [c] := by
    rw [firstDigit, hcs]
    rfl
  rw [htake, ← String.toList_inj, String.toList_ofList]

theorem comma_notMem_toString (n : ℕ) : ',' ∉ (toString n).toList := by
  rw [Nat.toString_eq_repr, Nat.toList_repr]
  intro h
  exact absurd (Nat.isDigit_of_mem_toDigits (by decide) (by decide) h) (by decide)

theorem Spells.length {text : List Char} {octets : List UInt8} (h : Spells text octets) :
    text.length + 1 = 3 * octets.length := by
  induction h with
  | last hc hd => rfl
  | more hc hd h ih =>
    simp only [List.length_cons]
    omega

theorem length_of_isMacText {text : String} {m : Mac} (h : IsMacText text m) :
    text.toList.length = 17 := by
  have hlength := Spells.length h
  rw [Vector.length_toList] at hlength
  omega

theorem scannedStation_none {line : List Char} {v e : ℕ}
    (h : behind "in_port=".toList line = none ∨ behind "dl_src=".toList line = none) :
    scannedStation v e line = none := by
  have hscan : scanLine line = none := by
    unfold scanLine
    rcases h with h | h
    · rw [h]
    · rw [h]
      split
      · rename_i heq _
        cases heq
      · rfl
  rw [scannedStation, hscan]

/-- What is found in the line of an uplink. -/
theorem PrintedAs.scanLine {line : List Char} {f : PortFlow} {n : ℕ} {m : Mac}
    (h : PrintedAs line f) (hn : f.pattern.inPort = some n) (hm : f.pattern.dlSrc = some m) :
    ∃ (c d : Char) (text : String), (toString n).toList.head? = some c ∧
      (toString f.action).toList.head? = some d ∧ IsMacText text m ∧
      Datapath.scanLine line = some (c, d, text.toList) := by
  obtain ⟨c, hc⟩ := head?_toString n
  obtain ⟨d, hd⟩ := head?_toString f.action
  obtain ⟨rest, hin⟩ := h.inPort n hn
  obtain ⟨text, rest', htext, hsource⟩ := h.source m hm
  refine ⟨c, d, text, hc, hd, htext, ?_⟩
  have hout : (behind "output:".toList line).isSome := by
    apply behind_isSome
    have hsuffix := (infix_of_behind h.actions).isInfix
    exact ((List.prefix_append _ _).isInfix.trans (List.suffix_append _ _).isInfix).trans hsuffix
  obtain ⟨rest'', hout⟩ := Option.isSome_iff_exists.mp hout
  have hbehind : behind "output:".toList ("output:".toList ++ (toString f.action).toList) =
      some (toString f.action).toList := behind_self_append (by decide)
  have hsplit : ("output:".toList ++ (toString f.action).toList).splitOn ',' =
      ["output:".toList ++ (toString f.action).toList] := by
    apply List.splitOnP_eq_singleton
    intro x hx
    rw [beq_eq_false_iff_ne]
    rintro rfl
    rcases List.mem_append.mp hx with hx | hx
    · exact absurd hx (by decide)
    · exact comma_notMem_toString _ hx
  have htake : (text.toList ++ rest').take 17 = text.toList := by
    rw [← length_of_isMacText htext, List.take_left]
  simp only [Datapath.scanLine, hin, hsource, hout, h.actions, Option.getD_some, hsplit, hbehind,
    List.find?_cons, Option.isSome_some, htake]
  have hhead : ((toString n).toList ++ rest).head? = some c := by
    rw [List.head?_append, hc]
    rfl
  simp only [Option.bind_eq_bind, Option.bind_some, hbehind, hhead, hd, Option.pure_def]

def Found (v e : ℕ) (m : Mac) (f : PortFlow) : Prop :=
  ∃ n, f.pattern.inPort = some n ∧ f.pattern.dlSrc = some m ∧
    firstDigit n = toString e ∧ firstDigit f.action = toString v

theorem mem_dumpedStations {bridge : Bridge} {v e : ℕ} {m : Mac} :
    m ∈ dumpedStations bridge v e ↔ ∃ f ∈ bridge.flows, Found v e m f := by
  simp only [dumpedStations, List.mem_dedup, List.mem_filterMap]
  refine exists_congr fun f => and_congr_right fun _ => ?_
  cases hn : f.pattern.inPort with
  | none => simp [Found, hn]
  | some n =>
    cases hs : f.pattern.dlSrc with
    | none => simp [Found, hn, hs]
    | some source =>
      simp only [Found, hn, hs, Option.some.injEq, exists_eq_left']
      rw [Option.ite_none_right_eq_some, Option.some.injEq]
      exact and_comm

theorem PrintedAs.scannedStation {line : List Char} {f : PortFlow} (h : PrintedAs line f)
    {v e : ℕ} {m : Mac} :
    (∃ text, Datapath.scannedStation v e line = some text ∧ ofctl.readMac text = some m) ↔
      Found v e m f := by
  cases hn : f.pattern.inPort with
  | none => simp [scannedStation_none (.inl (h.noInPort hn)), Found, hn]
  | some n =>
    cases hs : f.pattern.dlSrc with
    | none => simp [scannedStation_none (.inr (h.noSource hs)), Found, hs]
    | some source =>
      obtain ⟨c, d, text, hc, hd, htext, hscan⟩ := h.scanLine hn hs
      have hmac : ofctl.readMac text = some source := ofctl.full _ _ htext
      simp only [Datapath.scannedStation, hscan, Found, hn, hs, Option.some.injEq, exists_eq_left',
        firstDigit_eq_iff hc, firstDigit_eq_iff hd, String.ofList_toList,
        Option.ite_none_right_eq_some, and_assoc, exists_and_left, hmac]
      tauto

/-- The stations found in the dump are those of the flows that pass the comparison. -/
theorem mem_scannedStations {lines : List (List Char)} {bridge : Bridge}
    (h : Dumps lines bridge.flows) {v e : ℕ} {m : Mac} :
    (∃ text ∈ scannedStations lines v e, ofctl.readMac text = some m) ↔
      m ∈ dumpedStations bridge v e := by
  rw [mem_dumpedStations]
  constructor
  · rintro ⟨text, ht, hm⟩
    obtain ⟨line, hline, hscan⟩ := List.mem_filterMap.mp ht
    rcases h.flow line hline with rfl | ⟨f, hf, hp⟩
    · cases hscan
    · exact ⟨f, hf, hp.scannedStation.mp ⟨text, hscan, hm⟩⟩
  · rintro ⟨f, hf, hfound⟩
    obtain ⟨line, hline, hp⟩ := h.printed f hf
    obtain ⟨text, hscan, hm⟩ := hp.scannedStation.mpr hfound
    exact ⟨text, List.mem_filterMap.mpr ⟨line, hline, hscan⟩, hm⟩

theorem mem_foldl_removeFlow {specs : List FlowSpec} {bridge : Bridge} {f : PortFlow} :
    f ∈ (specs.foldl Bridge.removeFlow bridge).flows ↔
      f ∈ bridge.flows ∧
        ∀ spec ∈ specs, ∀ pattern, spec.pattern = some pattern → ¬f.pattern ≤ pattern := by
  induction specs generalizing bridge with
  | nil => simp
  | cons spec specs ih =>
    rw [List.foldl_cons, ih, List.forall_mem_cons, ← and_assoc]
    refine and_congr_left fun _ => ?_
    unfold Bridge.removeFlow
    cases spec.pattern with
    | none => simp
    | some pattern => simp [mem_delFlows]

def Left (bridge : Bridge) (v e : ℕ) (f : PortFlow) : Prop :=
  f ∈ bridge.flows ∧
    (∀ m ∈ dumpedStations bridge v e, ¬f.pattern ≤ ⟨some e, some m, none⟩) ∧
    ∀ p ∈ supportedProtocol, ¬f.pattern ≤ ⟨some v, none, some p⟩

theorem mem_closed {bridge : Bridge} {v : ℕ} {f : PortFlow} :
    f ∈ (supportedProtocol.foldl
        (fun b protocol => b.removeFlow ⟨v, none, some protocol⟩) bridge).flows ↔
      f ∈ bridge.flows ∧ ∀ p ∈ supportedProtocol, ¬f.pattern ≤ ⟨some v, none, some p⟩ := by
  rw [← List.foldl_map (f := fun p => (⟨v, none, some p⟩ : FlowSpec)) (g := Bridge.removeFlow),
    mem_foldl_removeFlow]
  simp [FlowSpec.pattern]

theorem mem_removeScanned {lines : List (List Char)} {bridge : Bridge}
    (h : Dumps lines bridge.flows) {v e : String} {f : PortFlow} :
    f ∈ (removeScanned ofctl lines bridge v e).flows ↔
      Left bridge (bridge.index v) (bridge.index e) f := by
  unfold removeScanned removeInterface
  dsimp only
  rw [mem_closed, Left, ← and_assoc]
  refine and_congr_left fun _ => ?_
  rw [← List.foldl_map
    (f := fun mac => (⟨bridge.index e, some (ofctl.readMac mac), none⟩ : FlowSpec))
    (g := Bridge.removeFlow), mem_foldl_removeFlow]
  refine and_congr_right fun _ => ?_
  have hread (m : Mac) :
      m ∈ dumpedStations bridge (bridge.index v) (bridge.index e) ↔
        ∃ text ∈ scannedStations lines (bridge.index v) (bridge.index e),
          ofctl.readMac text = some m :=
    (mem_scannedStations h).symm
  simp only [hread, List.forall_mem_map, FlowSpec.pattern, Option.map_eq_some_iff]
  constructor
  · rintro hleft m ⟨text, ht, hm⟩
    exact hleft text ht _ ⟨m, hm, rfl⟩
  · rintro hleft text ht _ ⟨m, hm, rfl⟩
    exact hleft m ⟨text, ht, hm⟩

theorem mem_remove {bridge : Bridge} {v e : String} {f : PortFlow} :
    f ∈ (remove bridge v e).flows ↔ Left bridge (bridge.index v) (bridge.index e) f := by
  have hcleared (stations : List Mac) (b : Bridge) :
      (stations.foldl (fun b mac => { b with
        flows := FlowTable.delFlows ⟨some (bridge.index e), some mac, none⟩ b.flows }) b).flows =
      (stations.map fun m => (⟨some (bridge.index e), some m, none⟩ : Pattern)).foldl
        (fun t pattern => FlowTable.delFlows pattern t) b.flows := by
    induction stations generalizing b with
    | nil => rfl
    | cons m stations ih => simp [ih]
  unfold remove removeInterface
  dsimp only
  rw [mem_closed, Left, ← and_assoc]
  refine and_congr_left fun _ => ?_
  rw [hcleared, mem_foldl_delFlows, List.forall_mem_map]

/-- Going by the lines of the dump, `remove` deletes what it deletes going by the flows. -/
theorem mem_removeScanned_iff_mem_remove {lines : List (List Char)} {bridge : Bridge}
    (h : Dumps lines bridge.flows) {v e : String} {f : PortFlow} :
    f ∈ (removeScanned ofctl lines bridge v e).flows ↔ f ∈ (remove bridge v e).flows := by
  rw [mem_removeScanned h, mem_remove]

/-- The comparison takes a port for `k` if `k` has one digit and the port begins with it. -/
theorem firstDigit_eq_toString_iff {n k : ℕ} :
    firstDigit n = toString k ↔ k < 10 ∧ (toString k).toList <+: (toString n).toList := by
  have hlength : (toString k).toList.length ≤ 1 ↔ k < 10 := by
    rw [Nat.toString_eq_repr, String.length_toList]
    exact Nat.length_repr_le_iff (k := 1) (by decide)
  obtain ⟨c, hc⟩ := head?_toString n
  obtain ⟨cs, hcs⟩ := List.head?_eq_some_iff.mp hc
  rw [firstDigit_eq_iff hc, hcs]
  constructor
  · intro h
    rw [← hlength, ← h]
    exact ⟨le_rfl, ⟨cs, rfl⟩⟩
  · rintro ⟨hk, hprefix⟩
    obtain ⟨d, hd⟩ := head?_toString k
    obtain ⟨ds, hds⟩ := List.head?_eq_some_iff.mp hd
    rw [← hlength, hds] at hk
    obtain rfl : ds = [] := by
      rw [List.length_cons] at hk
      exact List.length_eq_zero_iff.mp (by omega)
    rw [hds] at hprefix ⊢
    rw [(List.cons_prefix_cons.mp hprefix).1]

def HasStation (bridge : Bridge) (ethernetPort port : ℕ) : Prop :=
  ∃ f ∈ bridge.flows, IsUplink ethernetPort f ∧ f.action = port

/-- `remove` deletes the uplinks to the interface and its downlinks, and nothing else. -/
def RemovesExactly (ofctl : Ofctl) (lines : List (List Char)) (bridge : Bridge) (N : PortNumbers)
    (v e : String) : Prop :=
  ∀ f, f ∈ (removeScanned ofctl lines bridge v e).flows ↔
    f ∈ bridge.flows ∧ ¬(IsUplink (N.number e) f ∧ f.action = N.number v) ∧
      f.pattern.inPort ≠ some (N.number v)

/-- If the interface has a station, its port and the wired one have one digit; and if they
have, no other port with a station begins with the digit of the interface. -/
def ToldApart (bridge : Bridge) (v e : ℕ) : Prop :=
  (HasStation bridge e v → v < 10 ∧ e < 10) ∧
    (v < 10 ∧ e < 10 → ∀ port, HasStation bridge e port → port ≠ v →
      ¬(toString v).toList <+: (toString port).toList)

theorem Built.hasStation_iff (h : Built N e bridge routes) {port : ℕ} :
    HasStation bridge (N.number e) port ↔ ∃ m, routes m = some port := by
  constructor
  · rintro ⟨f, hf, hup, rfl⟩
    obtain ⟨m, p, out, -, hr, rfl⟩ := (h.uplinks f).mp ⟨hf, hup⟩
    exact ⟨m, hr⟩
  · rintro ⟨m, hr⟩
    have hp : 0x0800 ∈ supportedProtocol := by decide
    obtain ⟨hf, hup⟩ := (h.uplinks _).mpr ⟨m, 0x0800, port, hp, hr, rfl⟩
    exact ⟨_, hf, hup, rfl⟩

theorem Built.mem_dumpedStations_iff (h : Built N e bridge routes) {k : ℕ} {m : Mac} :
    m ∈ dumpedStations bridge k (N.number e) ↔
      ∃ out, routes m = some out ∧ N.number e < 10 ∧ k < 10 ∧
        (toString k).toList <+: (toString out).toList := by
  rw [mem_dumpedStations]
  constructor
  · rintro ⟨f, hf, n, hn, hm, he, hk⟩
    rcases h.flows f hf with hup | ⟨u, p, -, rfl⟩
    · obtain ⟨m', p, out, -, hr, rfl⟩ := (h.uplinks f).mp ⟨hf, hup⟩
      obtain rfl : m' = m := Option.some.inj hm
      obtain rfl : N.number e = n := Option.some.inj hn
      exact ⟨out, hr, (firstDigit_eq_toString_iff.mp he).1, firstDigit_eq_toString_iff.mp hk⟩
    · cases hm
  · rintro ⟨out, hr, he, hk⟩
    have hp : 0x0800 ∈ supportedProtocol := by decide
    obtain ⟨hf, -⟩ := (h.uplinks _).mpr ⟨m, 0x0800, out, hp, hr, rfl⟩
    exact ⟨_, hf, N.number e, rfl, rfl,
      firstDigit_eq_toString_iff.mpr ⟨he, List.prefix_rfl⟩, firstDigit_eq_toString_iff.mpr hk⟩

/-- A downlink is left unless it is one of the interface. -/
theorem left_downlink {x y z p : ℕ} (hp : p ∈ supportedProtocol)
    (hmem : downlink x y p ∈ bridge.flows) :
    Left bridge z y (downlink x y p) ↔ x ≠ z := by
  constructor
  · rintro ⟨-, -, hleft⟩ he
    exact hleft p hp ⟨.inr (congrArg some he), .inl rfl, .inr rfl⟩
  · refine fun hne => ⟨hmem, fun m _ hle => ?_, fun q _ hle => ?_⟩
    · rcases hle.2.1 with hsrc | hsrc <;> cases hsrc
    · rcases hle.1 with hin | hin
      · cases hin
      · exact hne (Option.some.inj hin)

theorem Built.toldApart_iff (h : Built N e bridge routes) :
    ToldApart bridge (N.number v) (N.number e) ↔ ∀ m out, routes m = some out →
      (m ∈ dumpedStations bridge (N.number v) (N.number e) ↔ out = N.number v) := by
  simp only [ToldApart, h.hasStation_iff, h.mem_dumpedStations_iff]
  constructor
  · rintro ⟨hown, hother⟩ m out hr
    constructor
    · rintro ⟨out', hr', he, hv10, hprefix⟩
      obtain rfl := Option.some.inj (hr.symm.trans hr')
      by_contra hne
      exact hother ⟨hv10, he⟩ out ⟨m, hr⟩ hne hprefix
    · rintro rfl
      obtain ⟨hv10, he⟩ := hown ⟨m, hr⟩
      exact ⟨_, hr, he, hv10, List.prefix_rfl⟩
  · intro hstations
    constructor
    · rintro ⟨m, hr⟩
      obtain ⟨out, -, he, hv10, -⟩ := (hstations m _ hr).mpr rfl
      exact ⟨hv10, he⟩
    · rintro ⟨hv10, he⟩ port ⟨m, hr⟩ hne hprefix
      exact hne ((hstations m port hr).mp ⟨port, hr, he, hv10, hprefix⟩)

section

variable (h : Built N e bridge routes) (hports : N.number e ≠ N.number v)
include h hports

/-- An uplink is left unless its station is found. -/
theorem Built.left_uplink {m : Mac} {p out : ℕ} (hp : p ∈ supportedProtocol)
    (hr : routes m = some out) :
    Left bridge (N.number v) (N.number e) (uplink (N.number e) m p out) ↔
      m ∉ dumpedStations bridge (N.number v) (N.number e) := by
  have hmem : uplink (N.number e) m p out ∈ bridge.flows :=
    ((h.uplinks _).mpr ⟨m, p, out, hp, hr, rfl⟩).1
  constructor
  · rintro ⟨-, hleft, -⟩ hm
    exact hleft m hm ⟨.inr rfl, .inr rfl, .inl rfl⟩
  · refine fun hm => ⟨hmem, fun m' hm' hle => ?_, fun q _ hle => ?_⟩
    · rcases hle.2.1 with hsrc | hsrc
      · cases hsrc
      · obtain rfl : m = m' := Option.some.inj hsrc
        exact hm hm'
    · rcases hle.1 with hin | hin
      · cases hin
      · exact hports (Option.some.inj hin)

/-- `remove` is exact just when it finds the stations of the interface and no others. -/
theorem Built.removesExactly_iff {lines : List (List Char)} (hdump : Dumps lines bridge.flows)
    (hpv : bridge.ports v = some (N.number v)) (hpe : bridge.ports e = some (N.number e)) :
    RemovesExactly ofctl lines bridge N v e ↔ ∀ m out, routes m = some out →
      (m ∈ dumpedStations bridge (N.number v) (N.number e) ↔ out = N.number v) := by
  have hiv : bridge.index v = N.number v := by simp [Bridge.index, hpv]
  have hie : bridge.index e = N.number e := by simp [Bridge.index, hpe]
  simp only [RemovesExactly, mem_removeScanned hdump, hiv, hie]
  constructor
  · intro hexact m out hr
    have hp : 0x0800 ∈ supportedProtocol := by decide
    have hf := hexact (uplink (N.number e) m 0x0800 out)
    rw [h.left_uplink hports hp hr] at hf
    have hmem := ((h.uplinks _).mpr ⟨m, 0x0800, out, hp, hr, rfl⟩).1
    have hin : (some (N.number e) : Option ℕ) ≠ some (N.number v) :=
      fun he => hports (Option.some.inj he)
    constructor
    · intro hm
      by_contra hout
      exact hf.mpr ⟨hmem, fun hup => hout hup.2, hin⟩ hm
    · rintro rfl
      by_contra hm
      exact (hf.mp hm).2.1 ⟨isUplink_uplink .., rfl⟩
  · intro hstations f
    constructor
    · intro hleft
      refine ⟨hleft.1, ?_⟩
      rcases h.flows f hleft.1 with hup | ⟨u, p, hp, rfl⟩
      · obtain ⟨m, p, out, hp, hr, rfl⟩ := (h.uplinks f).mp ⟨hleft.1, hup⟩
        have hm := (h.left_uplink hports hp hr).mp hleft
        refine ⟨fun hup => hm ((hstations m out hr).mpr hup.2), fun hin => ?_⟩
        exact hports (Option.some.inj hin)
      · have hne := (left_downlink hp hleft.1).mp hleft
        exact ⟨fun hup => (by cases hup.1.2), fun hin => hne (Option.some.inj hin)⟩
    · rintro ⟨hf, hup', hin⟩
      rcases h.flows f hf with hup | ⟨u, p, hp, rfl⟩
      · obtain ⟨m, p, out, hp, hr, rfl⟩ := (h.uplinks f).mp ⟨hf, hup⟩
        refine (h.left_uplink hports hp hr).mpr fun hm => ?_
        exact hup' ⟨hup, (hstations m out hr).mp hm⟩
      · exact (left_downlink hp hf).mpr fun he => hin (congrArg some he)

end

/-- For every numbering of the ports and every table set up by `add` and `associate`: `remove`
deletes exactly the flows of its interface if and only if one digit tells the ports apart. -/
theorem remove_exact_iff (ofctl : Ofctl) {N : PortNumbers} {e v : String} {calls : List SetupCall}
    (hvirtual : ∀ c ∈ calls, c.virtualInterface ≠ e)
    (hdistinct : (e :: calls.map SetupCall.virtualInterface).Pairwise fun i j =>
      i ≠ j → N.number i ≠ N.number j)
    (hv : .add v ∈ calls) {lines : List (List Char)}
    (hdump : Dumps lines (setup ofctl N e calls).flows) :
    RemovesExactly ofctl lines (setup ofctl N e calls) N v e ↔
      ToldApart (setup ofctl N e calls) (N.number v) (N.number e) := by
  obtain ⟨routes, hbuilt⟩ := built_setup ofctl N e hvirtual
  obtain ⟨hpv, hpe⟩ := bound_setup ofctl N hvirtual hv
  have hne : e ≠ v := (hvirtual (.add v) hv).symm
  have hports : N.number e ≠ N.number v :=
    (List.pairwise_cons.mp hdistinct).1 v (List.mem_map.mpr ⟨_, hv, rfl⟩) hne
  rw [hbuilt.removesExactly_iff hports hdump hpv hpe, hbuilt.toldApart_iff]

def showsAt (key line text : List Char) : Bool := (behind key line).any (text.isPrefixOf ·)

theorem exists_of_showsAt {key line text : List Char} (h : showsAt key line text = true) :
    ∃ rest, behind key line = some (text ++ rest) := by
  obtain ⟨found, hfound, hprefix⟩ := (Option.any_eq_true _ _).mp h
  obtain ⟨rest, rfl⟩ := List.isPrefixOf_iff_prefix.mp hprefix
  exact ⟨rest, hfound⟩

theorem printedAs_uplink {line : List Char} {m : Mac} {n p out : ℕ}
    (hin : showsAt "in_port=".toList line (toString n).toList = true)
    (hsource : showsAt "dl_src=".toList line (printMac m).toList = true)
    (hactions : behind "actions=".toList line = some ("output:".toList ++ (toString out).toList)) :
    PrintedAs line (uplink n m p out) := by
  refine ⟨fun k hk => ?_, nofun, fun m' hm => ?_, nofun, hactions⟩
  · obtain rfl : n = k := Option.some.inj hk
    exact exists_of_showsAt hin
  · obtain rfl : m = m' := Option.some.inj hm
    obtain ⟨rest, hrest⟩ := exists_of_showsAt hsource
    exact ⟨printMac m, rest, isMacText_printMac m, hrest⟩

theorem printedAs_downlink {line : List Char} {n p out : ℕ}
    (hin : showsAt "in_port=".toList line (toString n).toList = true)
    (hsource : behind "dl_src=".toList line = none)
    (hactions : behind "actions=".toList line = some ("output:".toList ++ (toString out).toList)) :
    PrintedAs line (downlink n out p) := by
  refine ⟨fun k hk => ?_, nofun, nofun, fun _ => hsource, hactions⟩
  obtain rfl : n = k := Option.some.inj hk
  exact exists_of_showsAt hin

def dumpLine (protocol : String) (inPort : ℕ) (source : String) (output : ℕ) : List Char :=
  (" priority=1," ++ protocol ++ ",in_port=" ++ toString inPort ++ source ++
    " actions=output:" ++ toString output).toList

/-- The literals are written out, or each evaluation of a line would decode them. -/
theorem dumpLine_eq (protocol source : String) (inPort output : ℕ) :
    dumpLine protocol inPort source output =
      [' ', 'p', 'r', 'i', 'o', 'r', 'i', 't', 'y', '=', '1', ','] ++ protocol.toList ++
        [',', 'i', 'n', '_', 'p', 'o', 'r', 't', '='] ++ (toString inPort).toList ++
        source.toList ++
        [' ', 'a', 'c', 't', 'i', 'o', 'n', 's', '='] ++ ['o', 'u', 't', 'p', 'u', 't', ':'] ++
        (toString output).toList := by
  have hpriority : " priority=1,".toList =
      [' ', 'p', 'r', 'i', 'o', 'r', 'i', 't', 'y', '=', '1', ','] := String.toList_ofList
  have hport : ",in_port=".toList = [',', 'i', 'n', '_', 'p', 'o', 'r', 't', '='] :=
    String.toList_ofList
  have hactions : " actions=output:".toList = [' ', 'a', 'c', 't', 'i', 'o', 'n', 's', '='] ++
      ['o', 'u', 't', 'p', 'u', 't', ':'] := String.toList_ofList
  simp only [dumpLine, String.toList_append, hpriority, hport, hactions, List.append_assoc]

theorem toList_keys :
    "in_port=".toList = ['i', 'n', '_', 'p', 'o', 'r', 't', '='] ∧
      "dl_src=".toList = ['d', 'l', '_', 's', 'r', 'c', '='] ∧
      "actions=".toList = ['a', 'c', 't', 'i', 'o', 'n', 's', '='] ∧
      "output:".toList = ['o', 'u', 't', 'p', 'u', 't', ':'] :=
  ⟨String.toList_ofList, String.toList_ofList, String.toList_ofList, String.toList_ofList⟩

abbrev stationMac : Mac := #v[0x00, 0x0e, 0x8e, 0x00, 0x00, 0x09]

def portsWith (port : ℕ) (h : 0 < port) : PortNumbers where
  number i := if i = "eth1" then 1 else port
  positive i := by
    split_ifs
    · decide
    · exact h

def setupCalls : List SetupCall :=
  [.add "vwlan0-dpm", .associate "vwlan0-dpm" "00:0e:8e:00:00:09"]

def dumpOf (port : ℕ) : List (List Char) :=
  ["ip", "arp", "ipv6"].map (fun protocol => dumpLine protocol port "" 1) ++
    ["ip", "arp", "ipv6"].map (fun protocol =>
      dumpLine protocol 1 (",dl_src=" ++ printMac stationMac) port) ++ [[]]

theorem flows_setupCalls {port : ℕ} (h : port = 2 ∨ port = 10) (hpos : 0 < port) :
    (setup fullReader (portsWith port hpos) "eth1" setupCalls).flows =
      supportedProtocol.map (downlink port 1) ++
        supportedProtocol.map (fun p => uplink 1 stationMac p port) := by
  rcases h with rfl | rfl <;> decide +kernel +revert

theorem dumps_dumpOf {port : ℕ} (h : port = 2 ∨ port = 10) (hpos : 0 < port) :
    Dumps (dumpOf port) (setup fullReader (portsWith port hpos) "eth1" setupCalls).flows := by
  have hdown : ∀ protocol ∈ ["ip", "arp", "ipv6"], ∀ p,
      PrintedAs (dumpLine protocol port "" 1) (downlink port 1 p) := by
    intro protocol hprotocol p
    simp only [List.mem_cons, List.not_mem_nil, or_false] at hprotocol
    rw [dumpLine_eq]
    rcases h with rfl | rfl <;> rcases hprotocol with rfl | rfl | rfl <;>
      apply printedAs_downlink <;> simp only [toList_keys] <;> decide +kernel
  have hup : ∀ protocol ∈ ["ip", "arp", "ipv6"], ∀ p,
      PrintedAs (dumpLine protocol 1 (",dl_src=" ++ printMac stationMac) port)
        (uplink 1 stationMac p port) := by
    intro protocol hprotocol p
    simp only [List.mem_cons, List.not_mem_nil, or_false] at hprotocol
    rw [dumpLine_eq, String.toList_append, printMac, String.toList_ofList]
    rcases h with rfl | rfl <;> rcases hprotocol with rfl | rfl | rfl <;>
      apply printedAs_uplink <;> simp only [toList_keys] <;> decide +kernel
  rw [flows_setupCalls h hpos]
  constructor
  · intro f hf
    rcases List.mem_append.mp hf with hf | hf
    · obtain ⟨p, -, rfl⟩ := List.mem_map.mp hf
      exact ⟨_, by simp [dumpOf], hdown "ip" (by simp) p⟩
    · obtain ⟨p, -, rfl⟩ := List.mem_map.mp hf
      refine ⟨_, ?_, hup "ip" (by simp) p⟩
      simp [dumpOf]
  · intro line hline
    have hp : 0x0800 ∈ supportedProtocol := by decide
    simp only [dumpOf, List.append_assoc, List.mem_append, List.mem_map,
      List.mem_singleton] at hline
    rcases hline with ⟨protocol, hprotocol, rfl⟩ | ⟨protocol, hprotocol, rfl⟩ | rfl
    · refine .inr ⟨_, List.mem_append_left _ (List.mem_map_of_mem hp), hdown protocol hprotocol _⟩
    · refine .inr ⟨_, List.mem_append_right _ (List.mem_map_of_mem hp), ?_⟩
      exact hup protocol hprotocol _
    · exact .inl rfl

/-- Under port 2 its station is found. -/
theorem remove_exact_port_two :
    RemovesExactly fullReader (dumpOf 2)
      (setup fullReader (portsWith 2 (by decide)) "eth1" setupCalls)
      (portsWith 2 (by decide)) "vwlan0-dpm" "eth1" := by
  refine (remove_exact_iff fullReader (by simp [setupCalls, SetupCall.virtualInterface]) (by decide)
    (by simp [setupCalls]) (dumps_dumpOf (.inl rfl) _)).mpr ⟨fun _ => by decide, ?_⟩
  rintro - port ⟨f, hf, hup, rfl⟩ hne
  rw [flows_setupCalls (.inl rfl)] at hf
  rcases List.mem_append.mp hf with hf | hf
  · obtain ⟨p, -, rfl⟩ := List.mem_map.mp hf
    cases hup.2
  · obtain ⟨p, -, rfl⟩ := List.mem_map.mp hf
    exact absurd rfl hne

/-- Under port 10 it is not, and its uplinks stay. -/
theorem remove_leaves_port_ten :
    ¬∀ (ofctl : Ofctl) (N : PortNumbers) (e v : String) (calls : List SetupCall)
        (lines : List (List Char)),
      (∀ c ∈ calls, c.virtualInterface ≠ e) →
      ((e :: calls.map SetupCall.virtualInterface).Pairwise fun i j =>
        i ≠ j → N.number i ≠ N.number j) →
      .add v ∈ calls → Dumps lines (setup ofctl N e calls).flows →
        RemovesExactly ofctl lines (setup ofctl N e calls) N v e := by
  intro h
  have hdump := dumps_dumpOf (.inr rfl) (show 0 < 10 by decide)
  have hexact := h fullReader (portsWith 10 (by decide)) "eth1" "vwlan0-dpm" setupCalls (dumpOf 10)
    (by simp [setupCalls, SetupCall.virtualInterface]) (by decide) (by simp [setupCalls]) hdump
  have hleft : Left (setup fullReader (portsWith 10 (by decide)) "eth1" setupCalls) 10 1
      (uplink 1 stationMac 0x0800 10) := by
    have hnone : dumpedStations
        (setup fullReader (portsWith 10 (by decide)) "eth1" setupCalls) 10 1 = [] := by
      decide +kernel
    refine ⟨?_, ?_, by decide⟩
    · rw [flows_setupCalls (.inr rfl)]
      decide
    · rw [hnone]
      exact nofun
  have hkept := (hexact _).mp ((mem_removeScanned hdump).mpr hleft)
  exact hkept.2.1 ⟨isUplink_uplink .., rfl⟩

end AuroraRelay.Datapath
