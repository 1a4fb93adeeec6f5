import AuroraRelay.StaleAssociation

namespace AuroraRelay
open CommsAgent Datapath LastMark Std WarpProtocol

namespace DpmAgent

/-- The first two maps have the same interfaces, those in `known`. -/
structure Knows (agent : DpmAgent) (known : String → Prop) : Prop where
  mac : ∀ v : String, v ∈ agent.interfaceMac ↔ known v
  bssid : ∀ v : String, v ∈ agent.interfaceBssid ↔ known v

theorem Knows.congr {agent : DpmAgent} {known known' : String → Prop} (h : agent.Knows known)
    (heq : ∀ v, known v ↔ known' v) : agent.Knows known' :=
  ⟨fun v => (h.mac v).trans (heq v), fun v => (h.bssid v).trans (heq v)⟩

theorem Knows.register {agent : DpmAgent} {known : String → Prop} (h : agent.Knows known)
    (v bssid : String) : (agent.register v bssid).Knows fun u => v = u ∨ known u := by
  by_cases hv : v ∈ agent.interfaceBssid
  · rw [DpmAgent.register, if_pos hv]
    refine ⟨fun u => ?_, fun u => ?_⟩
    · simp only [TreeMap.mem_insertIfNew, LawfulEqCmp.compare_eq_iff_eq, h.mac]
    · rw [h.bssid] at hv ⊢
      constructor
      · exact .inr
      · rintro (rfl | hu)
        · exact hv
        · exact hu
  · rw [DpmAgent.register, if_neg hv]
    refine ⟨fun u => ?_, fun u => ?_⟩
    · simp only [TreeMap.mem_insertIfNew, LawfulEqCmp.compare_eq_iff_eq, h.mac]
    · simp only [TreeMap.mem_insertIfNew, LawfulEqCmp.compare_eq_iff_eq, h.bssid]

theorem Knows.unregister {agent : DpmAgent} {known : String → Prop} (h : agent.Knows known)
    {v : String} (hv : known v) :
    (agent.unregister v).completed = true ∧
      (agent.unregister v).agent.Knows fun u => v ≠ u ∧ known u := by
  obtain ⟨stations, hstations⟩ :=
    Option.isSome_iff_exists.mp (TreeMap.mem_iff_isSome_getElem?.mp ((h.mac v).mpr hv))
  obtain ⟨bssid, hbssid⟩ :=
    Option.isSome_iff_exists.mp (TreeMap.mem_iff_isSome_getElem?.mp ((h.bssid v).mpr hv))
  simp only [DpmAgent.unregister, hstations, hbssid]
  refine ⟨trivial, fun u => ?_, fun u => ?_⟩
  · simp only [TreeMap.mem_erase, LawfulEqCmp.compare_eq_iff_eq, h.mac, ne_eq]
  · simp only [TreeMap.mem_erase, LawfulEqCmp.compare_eq_iff_eq, h.bssid, ne_eq]

theorem Knows.unregister_missing {agent : DpmAgent} {known : String → Prop} (h : agent.Knows known)
    {v : String} (hv : ¬known v) : (agent.unregister v).completed = false := by
  have hnot : v ∉ agent.interfaceMac := fun hmem => hv ((h.mac v).mp hmem)
  have hmissing : agent.interfaceMac[v]? = none := by simpa using hnot
  simp [DpmAgent.unregister, hmissing]

end DpmAgent

/-- A command of the controller and what `ifconfig` says while it is carried out. -/
structure Command where
  text : String
  getInterfaceName : String → String

section

variable (jsonLoads : String → Option Json) (warp : List Occurrence → TimedReply)
  (newPort : Bridge → String → Option ℕ) (ofctl : Ofctl)

/-- Nothing is carried out once the process has ended. -/
def World.carryOut (w : World) (c : Command) : World :=
  if w.terminated then w
  else w.after ⟨warp, c.getInterfaceName, newPort, ofctl⟩ (parseJson jsonLoads c.text)

def World.carryOutAll (w : World) (cs : List Command) : World :=
  cs.foldl (World.carryOut jsonLoads warp newPort ofctl) w

/-- What a command that gets through does to an interface: it adds it, or it removes it. -/
def registration (v : String) (c : Command) : Option Bool :=
  (completionOf jsonLoads c.text).bind fun P =>
    if c.getInterfaceName P.text = v then
      if P.op = .bssidAdd then some true
      else if P.op = .bssidRemove then some false
      else none
    else none

def LastAdded (cs : List Command) (v : String) : Prop :=
  last (registration jsonLoads v) cs = some true

/-- Each interface that is removed has been added by the last command about it. -/
def RemovesAdded (cs : List Command) : Prop :=
  ∀ earlier c later v, cs = earlier ++ c :: later → registration jsonLoads v c = some false →
    LastAdded jsonLoads earlier v

end

section

variable {jsonLoads : String → Option Json} {warp : List Occurrence → TimedReply}
  {newPort : Bridge → String → Option ℕ} {ofctl : Ofctl}

theorem lastAdded_concat (cs : List Command) (c : Command) (v : String) :
    LastAdded jsonLoads (cs ++ [c]) v ↔
      registration jsonLoads v c = some true ∨
        registration jsonLoads v c = none ∧ LastAdded jsonLoads cs v := by
  rw [LastAdded, last_append, last_cons]
  cases hc : registration jsonLoads v c with
  | none => simp [last, LastAdded]
  | some added => simp [last]

theorem registration_add {c : Command} {P : Plan} (v : String)
    (hP : completionOf jsonLoads c.text = some P) (hop : P.op = .bssidAdd) :
    registration jsonLoads v c = if c.getInterfaceName P.text = v then some true else none := by
  simp [registration, hP, hop]

theorem registration_remove {c : Command} {P : Plan} (v : String)
    (hP : completionOf jsonLoads c.text = some P) (hop : P.op = .bssidRemove) :
    registration jsonLoads v c = if c.getInterfaceName P.text = v then some false else none := by
  simp [registration, hP, hop]

/-- The other commands leave the interfaces as they are. -/
theorem lastAdded_concat_of_none {cs : List Command} {c : Command}
    (h : ∀ v, registration jsonLoads v c = none) (v : String) :
    LastAdded jsonLoads cs v ↔ LastAdded jsonLoads (cs ++ [c]) v := by
  simp [lastAdded_concat, h]

structure World.Follows (jsonLoads : String → Option Json) (w : World) (cs : List Command) :
    Prop where
  running : w.terminated = false
  knows : w.agent.Knows (LastAdded jsonLoads cs)

/-- One more command: the agent follows it, unless it removes an interface that is not
registered. -/
theorem World.Follows.carryOut (hwarp : Confirms warp) {w : World} {cs : List Command}
    (h : w.Follows jsonLoads cs) (c : Command) :
    ((∀ v, registration jsonLoads v c = some false → LastAdded jsonLoads cs v) →
      (w.carryOut jsonLoads warp newPort ofctl c).Follows jsonLoads (cs ++ [c])) ∧
    (∀ v, registration jsonLoads v c = some false → ¬LastAdded jsonLoads cs v →
      (w.carryOut jsonLoads warp newPort ofctl c).terminated = true) := by
  have hdoes := parseJson_does (S := ⟨warp, c.getInterfaceName, newPort, ofctl⟩) (w := w) hwarp
    jsonLoads c.text
  rw [World.carryOut, h.running, if_neg Bool.false_ne_true]
  cases hP : completionOf jsonLoads c.text with
  | none =>
    rw [hP] at hdoes
    obtain ⟨packets, -, hw⟩ := hdoes
    have hnone (v : String) : registration jsonLoads v c = none := by simp [registration, hP]
    rw [hw]
    refine ⟨fun _ => ⟨h.running, h.knows.congr (lastAdded_concat_of_none hnone)⟩, fun v hv => ?_⟩
    rw [hnone] at hv
    cases hv
  | some P =>
    rw [hP] at hdoes
    obtain ⟨packets, -, hw⟩ := hdoes
    obtain ⟨root, -, hroot⟩ := Option.bind_eq_some_iff.mp hP
    rw [hw, World.updateBssids]
    have hstation (hadd : P.op ≠ .bssidAdd) (hremove : P.op ≠ .bssidRemove) (v : String) :
        registration jsonLoads v c = none := by
      simp [registration, hP, hadd, hremove]
    rcases StaleAssociation.plan_cases (StaleAssociation.plan_of_completion hroot) with
      ⟨_, -, hop, -⟩ | ⟨_, -, hop, -⟩ | ⟨-, hop, -⟩ | ⟨-, hop, -⟩
    · have hreg (v : String) := registration_add v hP hop
      simp only [hop, DpmAgent.sync]
      refine ⟨fun _ => ⟨by simp [World.send, h.running], ?_⟩, fun v hv => ?_⟩
      · refine (h.knows.register _ _).congr fun v => ?_
        rw [lastAdded_concat, hreg]
        split_ifs with hv <;> simp [hv]
      · rw [hreg] at hv
        split_ifs at hv
        cases hv
    · have hreg (v : String) := registration_remove v hP hop
      simp only [hop, DpmAgent.sync]
      refine ⟨fun hall => ?_, fun v hv hnot => ?_⟩
      · have hv := hall (c.getInterfaceName P.text) (by rw [hreg, if_pos rfl])
        obtain ⟨hcompleted, hknows⟩ := h.knows.unregister hv
        refine ⟨by simp [World.send, h.running, hcompleted], hknows.congr fun v => ?_⟩
        rw [lastAdded_concat, hreg]
        split_ifs with hv <;> simp [hv]
      · rw [hreg] at hv
        split_ifs at hv with heq
        have hcompleted := h.knows.unregister_missing (heq ▸ hnot)
        simp [World.send, hcompleted]
    all_goals
      have hnone := hstation (by simp [hop]) (by simp [hop])
      simp only [hop, DpmAgent.sync]
      refine ⟨fun _ => ⟨by simp [World.send, h.running], ?_⟩, fun v hv => ?_⟩
      · exact h.knows.congr (lastAdded_concat_of_none hnone)
      · rw [hnone] at hv
        cases hv

theorem removesAdded_concat (cs : List Command) (c : Command) :
    RemovesAdded jsonLoads (cs ++ [c]) ↔ RemovesAdded jsonLoads cs ∧
      ∀ v, registration jsonLoads v c = some false → LastAdded jsonLoads cs v := by
  constructor
  · intro h
    refine ⟨fun earlier d later v heq => ?_, fun v => h cs c [] v rfl⟩
    exact h earlier d (later ++ [c]) v (by simp [heq])
  · rintro ⟨hcs, hc⟩ earlier d later v heq hv
    rcases List.eq_nil_or_concat later with rfl | ⟨later, e, rfl⟩
    · obtain ⟨rfl, hd⟩ := List.append_inj' heq rfl
      obtain rfl := List.singleton_inj.mp hd
      exact hc v hv
    · have heq' : cs ++ [c] = (earlier ++ d :: later) ++ [e] := by simp [heq]
      exact hcs earlier d later v (List.append_inj' heq' rfl).1 hv

theorem follows_freshWorld : freshWorld.Follows jsonLoads [] :=
  ⟨rfl, fun v => by simp [freshWorld, LastAdded, last], fun v => by
    simp [freshWorld, LastAdded, last]⟩

theorem carryOutAll_follows (hwarp : Confirms warp) (cs : List Command) :
    (RemovesAdded jsonLoads cs →
      (freshWorld.carryOutAll jsonLoads warp newPort ofctl cs).Follows jsonLoads cs) ∧
    (¬RemovesAdded jsonLoads cs →
      (freshWorld.carryOutAll jsonLoads warp newPort ofctl cs).terminated = true) := by
  -- over the commands in order, the last one split off
  induction cs using List.reverseRecOn with
  | nil =>
    refine ⟨fun _ => follows_freshWorld, fun h => absurd ?_ h⟩
    intro earlier c later v heq
    simp at heq
  | append_singleton cs c ih =>
    rw [removesAdded_concat, World.carryOutAll, List.foldl_concat]
    obtain ⟨hfollows, hended⟩ := ih
    refine ⟨fun ⟨hcs, hc⟩ => ((hfollows hcs).carryOut hwarp c).1 hc, fun hnot => ?_⟩
    by_cases hcs : RemovesAdded jsonLoads cs
    · have hexists := not_and.mp hnot hcs
      simp only [not_forall] at hexists
      obtain ⟨v, hv, hreg⟩ := hexists
      exact ((hfollows hcs).carryOut hwarp c).2 v hv hreg
    · change (World.carryOut jsonLoads warp newPort ofctl
        (freshWorld.carryOutAll jsonLoads warp newPort ofctl cs) c).terminated = true
      rw [World.carryOut, if_pos (hended hcs)]
      exact hended hcs

/-- Commands that WARP confirms, with any lookup of interfaces for each of them: no removal
misses its key exactly if each removes an interface that the last command about it has
added. -/
theorem removal_keys_present_iff (hwarp : Confirms warp) (cs : List Command) :
    (freshWorld.carryOutAll jsonLoads warp newPort ofctl cs).terminated = false ↔
      RemovesAdded jsonLoads cs := by
  obtain ⟨hfollows, hended⟩ := carryOutAll_follows hwarp cs
  constructor
  · intro hrunning
    by_contra hnot
    rw [hended hnot] at hrunning
    cases hrunning
  · exact fun h => (hfollows h).running

end

open StaleAssociation

theorem removal_after_radio_set :
    RemovesAdded readCommand [⟨radioSetText, wlan0⟩, ⟨deleteText, wlan0⟩] :=
  (removal_keys_present_iff obligingWarp_confirms _).mp
    (show (freshWorld.carryOutAll readCommand obligingWarp portNumber fullReader _).terminated =
      false by decide +kernel)

/-- A delete of a BSSID that was never added ends the process. -/
theorem removal_of_unknown_bssid :
    ¬∀ (jsonLoads : String → Option Json) (warp : List Occurrence → TimedReply)
      (newPort : Bridge → String → Option ℕ) (ofctl : Ofctl) (cs : List Command), Confirms warp →
      (∀ c ∈ cs, (jsonLoads c.text).any isControl = true) →
      (freshWorld.carryOutAll jsonLoads warp newPort ofctl cs).terminated = false := by
  intro h
  have hrunning := h readCommand obligingWarp portNumber fullReader [⟨deleteText, wlan0⟩]
    obligingWarp_confirms (by decide +kernel)
  exact absurd hrunning (by decide +kernel)

end AuroraRelay
