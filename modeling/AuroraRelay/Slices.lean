import AuroraRelay.Forwarding

namespace AuroraRelay.Datapath
open CommsAgent FlowTable Transition WarpProtocol

variable {ofctl : Ofctl} {e v : String} {bridge : Bridge} {router : Router}

section

variable (ofctl : Ofctl) (e : String)

/-- The interface that each station is associated with, by the calls alone. -/
def ownersStep (bridge : Bridge) (owners : Mac → Option String) : PathCall → Mac → Option String
  | .add _ _ => owners
  | .associate v text => (ofctl.readMac text).elim owners fun m =>
    if bridge.index v = 0 ∨ bridge.index e = 0 then owners
    else Function.update owners m (some v)
  | .disassociate _ text => (ofctl.readMac text).elim owners (Function.update owners · none)
  | .remove v => fun m => (owners m).filter (· ≠ v)
  | .clear => fun _ => none

structure Watched where
  bridge : Bridge
  owners : Mac → Option String

def watched : Machine Watched PathCall where
  init := ⟨(datapath ofctl e).init, fun _ => none⟩
  step s call := some ⟨pathStep ofctl e s.bridge call, ownersStep ofctl e s.bridge s.owners call⟩

/-- Interfaces become ports, the ports have one digit, and the flows are not all thrown away. -/
def Orderly (s : Watched) (call : PathCall) : Prop :=
  call.Valid e s.bridge ∧
    match call with
    | .add outcome v => (∃ n < 10, outcome e = some n) ∧ ∃ n < 10, outcome v = some n
    | .clear => False
    | _ => True

structure Router.Sliced (owners : Mac → Option String) (router : Router) : Prop where
  digit : ∀ i n, router.ports i = some n → n < 10
  wired : ∀ v, v ≠ e → router.index v ≠ 0 → router.index e ≠ 0
  lines : ∀ x y, router.lines x = some y ↔
    ∃ v, v ≠ e ∧ router.ports v = some x ∧ router.ports e = some y
  owned : ∀ m v, owners m = some v → v ≠ e ∧ router.index v ≠ 0
  routes : ∀ m, router.routes m = (owners m).map router.index

end

section

variable {owners : Mac → Option String} {outcome : String → Option ℕ}

theorem firstDigit_eq_iff_of_lt {n k : ℕ} (hn : n < 10) (hk : k < 10) :
    firstDigit n = toString k ↔ n = k := by
  have hall : ∀ n k : Fin 10, firstDigit n = toString k.val ↔ n = k := by decide
  simpa using hall ⟨n, hn⟩ ⟨k, hk⟩

theorem Router.Sliced.index_lt (h : router.Sliced e owners) (i : String) : router.index i < 10 := by
  unfold Router.index
  cases hports : router.ports i with
  | none => exact Nat.zero_lt_succ 9
  | some n => exact h.digit i n hports

theorem Router.Sliced.wire (h : router.Sliced e owners) (hsound : router.Sound e)
    {n : ℕ} (hn : n < 10) (hn0 : n ≠ 0) (hwired : outcome e = some n) :
    (router.wire e outcome).Sliced e owners ∧ (router.wire e outcome).index e ≠ 0 := by
  unfold Router.wire
  split_ifs with hzero
  · have hports : (router.bind outcome e).ports e = some n := Router.ports_bind.trans hwired
    have hindex : (router.bind outcome e).index e ≠ 0 := by rwa [Router.index_of_ports hports]
    -- without a wired port there is no other port either
    have halone {v : String} (hv : v ≠ e) : router.ports v = none := by
      by_contra hbound
      exact h.wired v hv (fun h0 => hbound ((Router.index_eq_zero hsound).mp h0)) hzero
    refine ⟨⟨fun i k hi => ?_, fun v _ _ => hindex, fun x y => ?_, fun m v hm => ?_, fun m => ?_⟩,
      hindex⟩
    · by_cases hie : i = e
      · subst hie
        rw [hports] at hi
        exact Option.some.inj hi ▸ hn
      · rw [Router.ports_bind_ne hie] at hi
        exact h.digit i k hi
    · constructor
      · intro hline
        obtain ⟨v, hv, hport, -⟩ := (h.lines x y).mp hline
        rw [halone hv] at hport
        cases hport
      · rintro ⟨v, hv, hport, -⟩
        rw [Router.ports_bind_ne hv, halone hv] at hport
        cases hport
    · exact absurd ((Router.index_eq_zero hsound).mpr (halone (h.owned m v hm).1))
        (h.owned m v hm).2
    · cases hm : owners m with
      | none => exact (h.routes m).trans (by rw [hm]; rfl)
      | some v =>
        exact absurd ((Router.index_eq_zero hsound).mpr (halone (h.owned m v hm).1))
          (h.owned m v hm).2
  · exact ⟨h, hzero⟩

theorem Router.Sliced.bindLine (h : router.Sliced e owners) (hsound : router.Sound e)
    (hv : v ≠ e) (he : router.index e ≠ 0) (hnew : router.index v = 0)
    {n : ℕ} (hn : n < 10) (hvirtual : outcome v = some n)
    (hfresh : ∀ j, router.ports j ≠ some n) :
    ((router.bind outcome v).setLine ((router.bind outcome v).index v)
      ((router.bind outcome v).index e)).Sliced e owners := by
  have hself : (router.bind outcome v).ports v = some n := Router.ports_bind.trans hvirtual
  have hindex {i : String} (hi : i ≠ v) : (router.bind outcome v).index i = router.index i :=
    Router.index_bind_ne hi
  have hnone : router.ports v = none := (Router.index_eq_zero hsound).mp hnew
  rw [Router.index_of_ports hself, hindex hv.symm]
  refine ⟨fun i k hi => ?_, fun u _ _ => ?_, fun x y => ?_, fun m u hm => ?_, fun m => ?_⟩
  · by_cases hiv : i = v
    · subst hiv
      exact Option.some.inj (hself.symm.trans hi) ▸ hn
    · exact h.digit i k ((Router.ports_bind_ne hiv).symm.trans hi)
  · exact (hindex hv.symm).trans_ne he
  · constructor
    · intro hline
      by_cases hx : x = n
      · subst hx
        rw [Router.lines_setLine, Option.some.injEq] at hline
        refine ⟨v, hv, hself, ?_⟩
        rw [← hline]
        exact (Router.ports_bind_ne hv.symm).trans (Router.ports_of_index he)
      · rw [Router.lines_setLine_ne hx] at hline
        obtain ⟨u, hu, hport, hwired⟩ := (h.lines x y).mp hline
        have huv : u ≠ v := by
          rintro rfl
          rw [hnone] at hport
          cases hport
        exact ⟨u, hu, (Router.ports_bind_ne huv).trans hport,
          (Router.ports_bind_ne hv.symm).trans hwired⟩
    · rintro ⟨u, hu, hport, hwired⟩
      have hwired' : router.ports e = some y := (Router.ports_bind_ne hv.symm).symm.trans hwired
      by_cases huv : u = v
      · subst huv
        obtain rfl := Option.some.inj (hself.symm.trans hport)
        rw [Router.lines_setLine, Router.index_of_ports hwired']
      · have hport' : router.ports u = some x := (Router.ports_bind_ne huv).symm.trans hport
        have hx : x ≠ n := by
          rintro rfl
          exact hfresh u hport'
        rw [Router.lines_setLine_ne hx]
        exact (h.lines x y).mpr ⟨u, hu, hport', hwired'⟩
  · obtain ⟨hu, hu0⟩ := h.owned m u hm
    have huv : u ≠ v := by
      rintro rfl
      exact hu0 hnew
    exact ⟨hu, (hindex huv).trans_ne hu0⟩
  · refine (h.routes m).trans ?_
    cases hm : owners m with
    | none => rfl
    | some u =>
      have huv : u ≠ v := by
        rintro rfl
        exact (h.owned m u hm).2 hnew
      exact congrArg some (hindex huv).symm

theorem Router.Sliced.setRoute (h : router.Sliced e owners) (m : Mac) {owner : Option String}
    (howner : ∀ v ∈ owner, v ≠ e ∧ router.index v ≠ 0) :
    (router.setRoute m (owner.map router.index)).Sliced e (Function.update owners m owner) := by
  refine ⟨h.digit, h.wired, h.lines, fun m' v hm => ?_, fun m' => ?_⟩
  · by_cases hne : m' = m
    · subst hne
      rw [Function.update_self] at hm
      exact howner v hm
    · rw [Function.update_of_ne hne] at hm
      exact h.owned m' v hm
  · by_cases hne : m' = m
    · subst hne
      rw [Function.update_self, Router.routes_setRoute]
      rfl
    · rw [Function.update_of_ne hne, Router.routes_setRoute_ne hne]
      exact h.routes m'

theorem Router.Sliced.mistakes_iff (h : router.Sliced e owners) (hsound : router.Sound e)
    {u : String} (hu : router.index u ≠ 0) : router.Mistakes e v (router.index u) ↔ u = v := by
  unfold Router.Mistakes
  rw [firstDigit_eq_iff_of_lt (h.index_lt e) (h.index_lt e),
    firstDigit_eq_iff_of_lt (h.index_lt u) (h.index_lt v)]
  refine ⟨fun hmistakes => ?_, fun heq => ⟨rfl, by rw [heq]⟩⟩
  have hport := Router.ports_of_index hu
  rw [hmistakes.2] at hu hport
  exact hsound.distinct _ _ _ hport (Router.ports_of_index hu)

theorem Router.Sliced.remove (h : router.Sliced e owners) (hsound : router.Sound e) (hv : v ≠ e) :
    (router.remove e v).Sliced e fun m => (owners m).filter (· ≠ v) := by
  have hindex {i : String} (hi : (router.remove e v).index i ≠ 0) : i ≠ v := by
    rintro rfl
    exact hi (by simp [Router.index, Router.remove])
  refine ⟨fun i n hi => h.digit i n (Router.ports_remove.mp hi).2, fun u hu hu0 => ?_,
    fun x y => ?_, fun m u hm => ?_, fun m => ?_⟩
  · rw [Router.index_remove_ne (hindex hu0)] at hu0
    rw [Router.index_remove_ne hv.symm]
    exact h.wired u hu hu0
  · rw [Router.lines_remove, h.lines]
    constructor
    · rintro ⟨hx, u, hu, hport, hwired⟩
      have huv : u ≠ v := by
        rintro rfl
        exact hx (Router.index_of_ports hport).symm
      exact ⟨u, hu, Router.ports_remove.mpr ⟨huv, hport⟩, Router.ports_remove.mpr ⟨hv.symm, hwired⟩⟩
    · rintro ⟨u, hu, hport, hwired⟩
      obtain ⟨huv, hport⟩ := Router.ports_remove.mp hport
      refine ⟨?_, u, hu, hport, (Router.ports_remove.mp hwired).2⟩
      rintro rfl
      have hv0 : router.index v ≠ 0 := by
        intro hzero
        rw [hzero] at hport
        exact hsound.positive u hport
      exact huv (hsound.distinct _ _ _ hport (Router.ports_of_index hv0))
  · obtain ⟨hm, huv⟩ := Option.filter_eq_some_iff.mp hm
    obtain ⟨hu, hu0⟩ := h.owned m u hm
    exact ⟨hu, by rwa [Router.index_remove_ne (of_decide_eq_true huv)]⟩
  · change (router.routes m).filter _ = _
    rw [h.routes m]
    cases hm : owners m with
    | none => rfl
    | some u =>
      have hmistakes := h.mistakes_iff (v := v) hsound (h.owned m u hm).2
      by_cases huv : u = v
      · subst huv
        simp [Option.filter, hmistakes]
      · simp [Option.filter, hmistakes, huv, Router.index_remove_ne huv]

/-- The calls keep the owners. -/
theorem Router.Sliced.step {bridge : Bridge} (h : router.Sliced e owners)
    (hrealises : Realises e bridge router) (hsound : router.Sound e) {call : PathCall}
    (horderly : Orderly e ⟨bridge, owners⟩ call) :
    (router.step ofctl e call).Sliced e (ownersStep ofctl e bridge owners call) := by
  obtain ⟨hvalid, hcall⟩ := horderly
  cases call with
  | add outcome v =>
    obtain ⟨hv, hfresh, hdistinct⟩ := hvalid
    obtain ⟨⟨n, hn, hwired⟩, k, hk, hvirtual⟩ := hcall
    rw [hrealises.ports] at hfresh
    obtain ⟨-, hwsound, hwfresh⟩ := hrealises.wire hsound hfresh hdistinct
    obtain ⟨hsliced, he⟩ := h.wire hsound hn (hfresh e n hwired).1 hwired
    change (router.add e outcome v).Sliced e owners
    unfold Router.add
    dsimp only
    split_ifs with hbound
    · exact hsliced
    · exact hsliced.bindLine hwsound hv he (not_not.mp hbound) hk hvirtual (hwfresh k hvirtual).2
  | associate v text =>
    cases hm : ofctl.readMac text with
    | none => simpa [Router.step, ownersStep, hm] using h
    | some m =>
      simp only [Router.step, ownersStep, hm, Option.elim_some, Router.associate,
        hrealises.index_eq]
      split_ifs with hzero
      · exact h
      · refine h.setRoute m fun u hu => ?_
        rw [← Option.mem_some_iff.mp hu]
        exact ⟨hvalid, (not_or.mp hzero).1⟩
  | disassociate v text =>
    cases hm : ofctl.readMac text with
    | none => simpa [Router.step, ownersStep, hm] using h
    | some m =>
      simp only [Router.step, ownersStep, hm, Option.elim_some]
      exact h.setRoute m fun u hu => absurd hu (Option.not_mem_none u)
  | remove v => exact h.remove hsound hvalid
  | clear => exact absurd hcall not_false

end

/-- In orderly runs: from a wireless port packets go to the wire, and from there to the
interface that the sender is associated with. -/
theorem slices_follow_associations {s : Watched} (h : (watched ofctl e).ReachableIf (Orderly e) s)
    (packet : Packet) (o : ℕ) : Outputs s.bridge packet o ↔
      packet.dlType ∈ supportedProtocol ∧
        ((∃ v, v ≠ e ∧ s.bridge.ports v = some packet.inPort ∧ s.bridge.ports e = some o) ∨
          s.bridge.ports e = some packet.inPort ∧
            ∃ v, s.owners packet.dlSrc = some v ∧ s.bridge.ports v = some o) := by
  obtain ⟨router, hrealises, hsound, hsliced⟩ : ∃ router : Router,
      Realises e s.bridge router ∧ router.Sound e ∧ router.Sliced e s.owners := by
    apply h.invariant (I := fun s => ∃ router : Router,
      Realises e s.bridge router ∧ router.Sound e ∧ router.Sliced e s.owners)
    · refine ⟨_, realises_empty ofctl e, sound_empty e, ?_⟩
      refine ⟨fun _ _ hnone => absurd hnone (by simp [Router.empty]), ?_, ?_, ?_, fun _ => rfl⟩
      · exact fun v _ hv => absurd rfl hv
      · simp [Router.empty]
      · simp [watched]
    · rintro s call s' ⟨router, hrealises, hsound, hsliced⟩ horderly hstep
      obtain rfl := Option.some.inj hstep
      obtain ⟨hrealises', hsound'⟩ := realises_pathStep hrealises hsound horderly.1
      exact ⟨_, hrealises', hsound', hsliced.step hrealises hsound horderly⟩
  rw [hrealises.outputs_iff hsound, Router.forward_eq_some hsound, hrealises.ports, hsliced.lines,
    hsliced.routes]
  refine and_congr_right fun _ => or_congr Iff.rfl ?_
  constructor
  · rintro ⟨hin, hroute⟩
    obtain ⟨v, hv, hindex⟩ := Option.map_eq_some_iff.mp hroute
    obtain ⟨hne, hv0⟩ := hsliced.owned _ _ hv
    refine ⟨?_, v, hv, ?_⟩
    · rw [hin]
      exact Router.ports_of_index (hsliced.wired v hne hv0)
    · rw [← hindex]
      exact Router.ports_of_index hv0
  · rintro ⟨hwired, v, hv, hport⟩
    rw [Router.index_of_ports hwired, hv, Option.map_some, Router.index_of_ports hport]
    exact ⟨rfl, rfl⟩

theorem slices_follow_associations_roaming : ∃ s : Watched,
    (watched fullReader "eth0").ReachableIf (Orderly "eth0") s ∧
    s.owners stationMac = some "wlan1" ∧
    Outputs s.bridge ⟨1, stationMac, 0x0800⟩ 3 ∧ Outputs s.bridge ⟨2, stationMac, 0x0800⟩ 1 := by
  have horderly : (watched fullReader "eth0").Meets (Orderly "eth0")
      (watched fullReader "eth0").init roaming := by
    obtain ⟨hadd, hadd', hassociate, hassociate', -⟩ := valid_roaming
    exact ⟨⟨hadd, ⟨1, by decide, rfl⟩, 2, by decide, rfl⟩,
      ⟨hadd', ⟨4, by decide, rfl⟩, 3, by decide, rfl⟩, ⟨hassociate, trivial⟩,
      ⟨hassociate', trivial⟩, trivial⟩
  obtain ⟨s, hexec⟩ : ∃ s, (watched fullReader "eth0").exec (watched fullReader "eth0").init
      roaming = some s := ⟨_, rfl⟩
  have hreach := Machine.ReachableIf.exec .init roaming horderly hexec
  obtain ⟨howner, hwlan0, hwlan1, heth0⟩ : s.owners stationMac = some "wlan1" ∧
      s.bridge.ports "wlan0" = some 2 ∧ s.bridge.ports "wlan1" = some 3 ∧
      s.bridge.ports "eth0" = some 1 := by
    obtain rfl := Option.some.inj hexec
    decide +kernel
  refine ⟨s, hreach, howner, ?_, ?_⟩
  · rw [slices_follow_associations hreach]
    exact ⟨by decide, .inr ⟨heth0, "wlan1", howner, hwlan1⟩⟩
  · rw [slices_follow_associations hreach]
    exact ⟨by decide, .inl ⟨"wlan0", by decide, hwlan0, heth0⟩⟩

end AuroraRelay.Datapath
