import AuroraRelay.Lib.Changes
import AuroraRelay.StationDatapath

namespace AuroraRelay.DpmAgent
open Changes CommsAgent Std

def changeText (bssid : String) (e : Change String) : String :=
  stationText (if e.came then macAssociateCmd else macDisassociateCmd) bssid e.who

theorem stationText_inj {command bssid m m' : String}
    (h : stationText command bssid m = stationText command bssid m') : m = m' := by
  unfold stationText at h
  exact (String.append_right_inj _).mp ((String.append_left_inj _).mp h)

theorem associate_ne_disassociate (bssid m m' : String) :
    stationText macAssociateCmd bssid m ≠ stationText macDisassociateCmd bssid m' := by
  intro h
  unfold stationText at h
  have hlist := congrArg String.toList h
  simp only [String.toList_append, List.append_assoc] at hlist
  have hname := congrArg (List.take 6) (List.append_cancel_left hlist)
  rw [List.take_append_of_le_length (by decide), List.take_append_of_le_length (by decide)] at hname
  exact absurd hname (by decide)

/-- Each change has a text of its own. -/
theorem changeText_injective (bssid : String) : Function.Injective (changeText bssid) := by
  rintro ⟨came, who⟩ ⟨came', who'⟩ h
  cases came <;> cases came'
  · exact congrArg (Change.mk false) (stationText_inj h)
  · exact absurd h.symm (associate_ne_disassociate bssid who' who)
  · exact absurd h (associate_ne_disassociate bssid who who')
  · exact congrArg (Change.mk true) (stationText_inj h)

def differences (known output : TreeSet String) : List (Change String) :=
  (toAssociate known output).map (Change.mk true) ++
    (toDisassociate known output).map (Change.mk false)

theorem map_differences (bssid : String) (known output : TreeSet String) :
    (differences known output).map (changeText bssid) = differenceTexts bssid known output := by
  simp [differences, differenceTexts, changeText, Function.comp_def]

theorem about_map (came : Bool) {stations : List String} (hnodup : stations.Nodup) (m : String) :
    about m (stations.map (Change.mk came)) = if m ∈ stations then [came] else [] := by
  induction stations with
  | nil => rfl
  | cons station stations ih =>
    obtain ⟨hnot, hnodup⟩ := List.nodup_cons.mp hnodup
    rw [List.map_cons, about_cons, ih hnodup]
    by_cases h : station = m
    · subst h
      simp [hnot]
    · simp [h, Ne.symm h]

theorem nodup_toList (s : TreeSet String) : s.toList.Nodup :=
  s.distinct_toList.imp Std.ReflCmp.ne_of_cmp_ne_eq

def stationSet (s : TreeSet String) : Set String := {m | m ∈ s}

theorem about_differences (known output : TreeSet String) (m : String) :
    about m (differences known output) =
      (if m ∈ output ∧ m ∉ known then [true] else []) ++
        if m ∈ known ∧ m ∉ output then [false] else [] := by
  have hassociate : (toAssociate known output).Nodup := nodup_toList _
  have hdisassociate : (toDisassociate known output).Nodup := nodup_toList _
  rw [differences, about_append, about_map true hassociate, about_map false hdisassociate]
  simp only [mem_toAssociate, mem_toDisassociate]

theorem records_differences (known output : TreeSet String) :
    Records (stationSet known) (stationSet output) (differences known output) := by
  refine ⟨fun m h => ?_, fun m ho hn => ?_, fun m ho hn => ?_⟩
  · have h : m ∈ known ↔ m ∈ output := h
    simp [about_differences, h]
  · have ho : m ∉ known := ho
    have hn : m ∈ output := hn
    simp [about_differences, ho, hn]
  · have ho : m ∈ known := ho
    have hn : m ∉ output := hn
    simp [about_differences, ho, hn]

/-- The passes of a round, each text with the interface that it is for. -/
def taggedInterfaces (agent : DpmAgent) (report : Report) :
    List String → Option (DpmAgent × List (String × String))
  | [] => some (agent, [])
  | v :: rest => do
    let (agent, texts) ← agent.checkInterface v (report v)
    let (agent, more) ← agent.taggedInterfaces report rest
    return (agent, texts.map (v, ·) ++ more)

def taggedChecks (agent : DpmAgent) :
    List Report → Option (DpmAgent × List (List (String × String)))
  | [] => some (agent, [])
  | report :: rounds => do
    let (agent, log) ← agent.taggedInterfaces report agent.interfaceMac.keys
    let (agent, logs) ← agent.taggedChecks rounds
    return (agent, log :: logs)

def commandsFor (v : String) (log : List (String × String)) : List String :=
  (log.filter fun entry => entry.1 = v).map Prod.snd

theorem checkInterfaces_eq_tagged (agent : DpmAgent) (report : Report) (interfaces : List String) :
    agent.checkInterfaces report interfaces =
      (agent.taggedInterfaces report interfaces).map fun x => (x.1, x.2.map Prod.snd) := by
  induction interfaces generalizing agent with
  | nil => rfl
  | cons v interfaces ih =>
    simp only [checkInterfaces, taggedInterfaces]
    cases agent.checkInterface v (report v) with
    | none => rfl
    | some x =>
      simp only [Option.bind_eq_bind, Option.bind_some, ih]
      cases x.1.taggedInterfaces report interfaces with
      | none => rfl
      | some y => simp [Function.comp_def]

/-- The logs are those of the rounds, with the interfaces added. -/
theorem timedChecks_eq_tagged (agent : DpmAgent) (rounds : List Report) :
    agent.timedChecks rounds =
      (agent.taggedChecks rounds).map fun x => (x.1, x.2.flatten.map Prod.snd) := by
  induction rounds generalizing agent with
  | nil => rfl
  | cons report rounds ih =>
    simp only [timedChecks, timedCheck, taggedChecks, checkInterfaces_eq_tagged]
    cases agent.taggedInterfaces report agent.interfaceMac.keys with
    | none => rfl
    | some x =>
      simp only [Option.map_some, Option.bind_eq_bind, Option.bind_some, ih]
      cases x.1.taggedChecks rounds with
      | none => rfl
      | some y => simp

theorem commandsFor_append (v u : String) (texts : List String) (more : List (String × String)) :
    commandsFor v (texts.map (u, ·) ++ more) =
      (if u = v then texts else []) ++ commandsFor v more := by
  by_cases h : u = v <;> simp [commandsFor, List.filter_map, Function.comp_def, h]

section

variable {agent : DpmAgent} {v bssid : String} {known : TreeSet String}

def Named (agent : DpmAgent) : Prop :=
  ∀ u : String, u ∈ agent.interfaceMac → u ∈ agent.interfaceBssid

/-- Every call of `sync` keeps it so, whatever the interfaces are called at the time. -/
theorem Named.sync (h : agent.Named) (getInterfaceName : String → String) (op : NodeOp)
    (msg : String) : (agent.sync getInterfaceName op msg).agent.Named := by
  cases op with
  | bssidAdd =>
    intro u hu
    simp only [DpmAgent.sync, register] at hu ⊢
    split_ifs at hu ⊢ with hv
    · rcases TreeMap.mem_insertIfNew.mp hu with heq | hu
      · rwa [← LawfulEqCmp.compare_eq_iff_eq.mp heq]
      · exact h u hu
    · rcases TreeMap.mem_insertIfNew.mp hu with heq | hu
      · exact TreeMap.mem_insertIfNew.mpr (.inl heq)
      · exact TreeMap.mem_insertIfNew.mpr (.inr (h u hu))
  | bssidRemove =>
    intro u hu
    cases hstations : agent.interfaceMac[getInterfaceName msg]? with
    | none =>
      simp only [DpmAgent.sync, unregister, hstations] at hu ⊢
      exact h u hu
    | some stations =>
      cases hbssid : agent.interfaceBssid[getInterfaceName msg]? with
      | none =>
        simp only [DpmAgent.sync, unregister, hstations, hbssid] at hu ⊢
        exact h u (TreeMap.mem_of_mem_erase hu)
      | some bssid =>
        simp only [DpmAgent.sync, unregister, hstations, hbssid, TreeMap.mem_erase] at hu ⊢
        exact ⟨hu.1, h u hu.2⟩
  | _ => exact h

theorem Named.lookups (h : agent.Named) {u : String} (hu : u ∈ agent.interfaceMac) :
    ∃ known bssid, agent.interfaceMac[u]? = some known ∧ agent.interfaceBssid[u]? = some bssid := by
  obtain ⟨known, hknown⟩ := Option.isSome_iff_exists.mp (TreeMap.mem_iff_isSome_getElem?.mp hu)
  obtain ⟨bssid, hbssid⟩ :=
    Option.isSome_iff_exists.mp (TreeMap.mem_iff_isSome_getElem?.mp (h u hu))
  exact ⟨known, bssid, hknown, hbssid⟩

/-- A round visits each interface once: it replaces its stations, and pushes the
differences. -/
theorem taggedInterfaces_spec (h : agent.Named) (report : Report) {interfaces : List String}
    (hnodup : interfaces.Nodup) (hmem : ∀ u ∈ interfaces, u ∈ agent.interfaceMac) :
    ∃ agent' log, agent.taggedInterfaces report interfaces = some (agent', log) ∧
      agent'.interfaceBssid = agent.interfaceBssid ∧
      (∀ u : String, agent'.interfaceMac[u]? =
        if u ∈ interfaces then some (report u) else agent.interfaceMac[u]?) ∧
      ∀ (v bssid : String) (known : TreeSet String), agent.interfaceMac[v]? = some known →
        agent.interfaceBssid[v]? = some bssid →
        commandsFor v log =
          if v ∈ interfaces then differenceTexts bssid known (report v) else [] := by
  induction interfaces generalizing agent with
  | nil => exact ⟨agent, [], rfl, rfl, by simp, by simp [commandsFor]⟩
  | cons u interfaces ih =>
    obtain ⟨hnot, hnodup⟩ := List.nodup_cons.mp hnodup
    obtain ⟨knownU, bssidU, hknownU, hbssidU⟩ := h.lookups (hmem u (by simp))
    let agent₁ : DpmAgent :=
      { agent with interfaceMac := agent.interfaceMac.insert u (report u) }
    have hmac (w : String) : agent₁.interfaceMac[w]? =
        if u = w then some (report u) else agent.interfaceMac[w]? := by
      simp [agent₁, TreeMap.getElem?_insert]
    have hin (w : String) : w ∈ agent₁.interfaceMac ↔ u = w ∨ w ∈ agent.interfaceMac := by
      simp [agent₁]
    have hnamed : agent₁.Named := by
      intro w hw
      rcases (hin w).mp hw with rfl | hw
      · exact h u (hmem u (by simp))
      · exact h w hw
    obtain ⟨agent', log, hrun, hbssid, hstations, hlog⟩ :=
      ih hnamed hnodup fun w hw => (hin w).mpr (.inr (hmem w (by simp [hw])))
    refine ⟨agent', (differenceTexts bssidU knownU (report u)).map (u, ·) ++ log, ?_, hbssid,
      fun w => ?_, fun w bssid known hknown hb => ?_⟩
    · rw [taggedInterfaces, checkInterface_eq hknownU hbssidU]
      simp only [Option.bind_eq_bind, Option.bind_some]
      rw [show ({ agent with interfaceMac := agent.interfaceMac.insert u (report u) } : DpmAgent) =
        agent₁ from rfl, hrun]
      rfl
    · rw [hstations, hmac]
      by_cases hw : w ∈ interfaces
      · simp [hw]
      · by_cases he : u = w
        · simp [he]
        · simp [hw, he, Ne.symm he]
    · rw [commandsFor_append]
      by_cases he : u = w
      · subst he
        obtain rfl := Option.some.inj (hknownU.symm.trans hknown)
        obtain rfl := Option.some.inj (hbssidU.symm.trans hb)
        rw [hlog u bssidU (report u) (by rw [hmac, if_pos rfl]) hb]
        simp [hnot]
      · rw [hlog w bssid known (by rw [hmac, if_neg he, hknown]) hb]
        simp [he, Ne.symm he]

/-- The rounds come to their end, and the commands for one interface are the records of its
stations. -/
theorem taggedChecks_spec (h : agent.Named) (hknown : agent.interfaceMac[v]? = some known)
    (hbssid : agent.interfaceBssid[v]? = some bssid) (rounds : List Report) :
    ∃ agent' logs records, agent.taggedChecks rounds = some (agent', logs) ∧
      Recorded (stationSet known) (rounds.map fun report => stationSet (report v)) records ∧
      logs.map (commandsFor v) = records.map (List.map (changeText bssid)) := by
  induction rounds generalizing agent known with
  | nil => exact ⟨agent, [], [], rfl, trivial, rfl⟩
  | cons report rounds ih =>
    have hv : v ∈ agent.interfaceMac.keys :=
      TreeMap.mem_keys.mpr (TreeMap.mem_iff_isSome_getElem?.mpr (by simp [hknown]))
    obtain ⟨agent₁, log, hround, hbssid₁, hstations, hlog⟩ :=
      taggedInterfaces_spec h report TreeMap.nodup_keys fun u hu => TreeMap.mem_keys.mp hu
    have hnamed : agent₁.Named := by
      intro u hu
      rw [hbssid₁]
      by_cases hmem : u ∈ agent.interfaceMac
      · exact h u hmem
      · rw [TreeMap.mem_iff_isSome_getElem?, hstations, if_neg (by simpa using hmem),
          ← TreeMap.mem_iff_isSome_getElem?] at hu
        exact absurd hu hmem
    have hknown₁ : agent₁.interfaceMac[v]? = some (report v) := by rw [hstations, if_pos hv]
    obtain ⟨agent', logs, records, hrounds, hrecorded, hlogs⟩ :=
      ih hnamed hknown₁ (hbssid₁ ▸ hbssid)
    refine ⟨agent', log :: logs, differences known (report v) :: records, ?_, ?_, ?_⟩
    · simp [taggedChecks, hround, hrounds]
    · exact ⟨records_differences known (report v), hrecorded⟩
    · rw [List.map_cons, List.map_cons, hlogs, hlog v bssid known hknown hbssid, if_pos hv,
        map_differences]

end

/-- Rounds over an agent with an interface that has just been registered.  The commands for
it are changes of its stations: those about one station alternate, beginning with an
association; replayed from the empty set they give the stations of the last report; no
station gets two of them in a round, and a report that repeats the one before it brings
none. -/
theorem rounds_emit_changes {agent : DpmAgent} (h : agent.Named) {v bssid : String}
    (hempty : agent.interfaceMac[v]? = some ∅) (hbssid : agent.interfaceBssid[v]? = some bssid)
    (rounds : List Report) :
    ∃ (agent' : DpmAgent) (logs : List (List (String × String)))
      (records : List (List (Change String))),
      agent.timedChecks rounds = some (agent', logs.flatten.map Prod.snd) ∧
      agent.taggedChecks rounds = some (agent', logs) ∧
      logs.map (commandsFor v) = records.map (List.map (changeText bssid)) ∧
      Function.Injective (changeText bssid) ∧
      (∀ m, Alternates true (about m records.flatten)) ∧
      replay ∅ records.flatten = stationSet ((rounds.map fun report => report v).getLast?.getD ∅) ∧
      (∀ record ∈ records, ∀ m, (about m record).length ≤ 1) ∧
      records.length = rounds.length ∧
      ∀ (i : ℕ) (record : List (Change String)) (before after : TreeSet String),
        records[i]? = some record →
        ((∅ : TreeSet String) :: rounds.map fun report => report v)[i]? = some before →
        (rounds.map fun report => report v)[i]? = some after →
        stationSet before = stationSet after → record = [] := by
  obtain ⟨agent', logs, records, hrun, hrecorded, hlogs⟩ := taggedChecks_spec h hempty hbssid rounds
  have hset : stationSet (∅ : TreeSet String) = ∅ := by
    ext m
    simp [stationSet]
  have hmap : (rounds.map fun report => stationSet (report v)) =
      (rounds.map fun report => report v).map stationSet := by simp
  rw [hset, hmap] at hrecorded
  refine ⟨agent', logs, records, ?_, hrun, hlogs, changeText_injective bssid, fun m => ?_, ?_,
    fun record hr m => hrecorded.length_le hr m, ?_, ?_⟩
  · rw [timedChecks_eq_tagged, hrun]
    rfl
  · exact (hrecorded.alternates m).1 (Set.notMem_empty m)
  · rw [hrecorded.replay_eq, List.getLast?_map, ← hset]
    cases (rounds.map fun report => report v).getLast? <;> rfl
  · simpa using hrecorded.length_eq
  · intro i record before after hrecord hbefore hafter heq
    refine (hrecorded.records hrecord ?_ ?_).eq_nil heq
    · rw [← hset, ← List.map_cons, List.getElem?_map, hbefore]
      rfl
    · rw [List.getElem?_map, hafter]
      rfl

/-- Two rounds for one interface, in which its station comes and goes. -/
theorem rounds_emit_changes_wlan0 :
    ∃ records : List (List (Change String)),
      ((⟨∅, ∅, ∅⟩ : DpmAgent).register "wlan0" "02:00:00:00:00:00").timedChecks
        [fun _ => (∅ : TreeSet String).insert "00:0e:8e:00:00:09", fun _ => ∅] ≠ none ∧
      (∀ m, Alternates true (about m records.flatten)) ∧ records.length = 2 := by
  have hempty : (⟨∅, ∅, ∅⟩ : DpmAgent).Named := fun u hu => (by simp at hu)
  have hnamed := hempty.sync (fun _ => "wlan0") .bssidAdd "02:00:00:00:00:00"
  obtain ⟨agent', logs, records, hrun, -, -, -, halternates, -, -, hlength, -⟩ :=
    rounds_emit_changes hnamed (v := "wlan0") rfl rfl
      [fun _ => (∅ : TreeSet String).insert "00:0e:8e:00:00:09", fun _ => ∅]
  exact ⟨records, Option.ne_none_iff_exists'.mpr ⟨_, hrun⟩, halternates, hlength⟩

end AuroraRelay.DpmAgent
