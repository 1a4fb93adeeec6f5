import Mathlib.Data.Fintype.Sigma
import AuroraRelay.Lib.Transition
import AuroraRelay.SentPackets

/-!
# What the receiver delivers

Arrivals are pairs of a sent packet and one of its fragments.  The first part is
about arrival orders without loss and duplication, the second about any arrivals
at all.
-/

namespace AuroraRelay.FragmentReceiver
open Memory Tiling Transition WarpProtocol

variable {ι : Type*} [DecidableEq ι] (P : ι → SentPacket)

abbrev Arrival := Σ k, Fin (P k).count

variable {P}

def Arrival.fragment (a : Arrival P) : Fragment := (P a.1).fragment a.2

def received (as : List (Arrival P)) (k : ι) : Finset (Fin (P k).count) :=
  Finset.univ.filter fun j => (⟨k, j⟩ : Arrival P) ∈ as

def Incomplete (as : List (Arrival P)) (k : ι) : Prop :=
  (∃ j, (⟨k, j⟩ : Arrival P) ∈ as) ∧ ∃ j, (⟨k, j⟩ : Arrival P) ∉ as

theorem mem_received {as : List (Arrival P)} {k : ι} {j : Fin (P k).count} :
    j ∈ received as k ↔ (⟨k, j⟩ : Arrival P) ∈ as := by
  simp [received]

theorem received_same (as : List (Arrival P)) (a : Arrival P) :
    received (as ++ [a]) a.1 = insert a.2 (received as a.1) := by
  obtain ⟨k, j⟩ := a
  ext i
  simp [mem_received, or_comm]

theorem received_other (as : List (Arrival P)) {a : Arrival P} {k : ι} (h : k ≠ a.1) :
    received (as ++ [a]) k = received as k := by
  ext i
  have hne : (⟨k, i⟩ : Arrival P) ≠ a := fun he => h (congrArg Sigma.fst he)
  simp [mem_received, hne]

theorem incomplete_iff {as : List (Arrival P)} {k : ι} :
    Incomplete as k ↔ received as k ≠ ∅ ∧ received as k ≠ Finset.univ := by
  rw [← Finset.nonempty_iff_ne_empty, Ne, Finset.eq_univ_iff_forall, not_forall]
  simp only [Incomplete, Finset.Nonempty, mem_received]

theorem incomplete_other (as : List (Arrival P)) {a : Arrival P} {k : ι} (h : k ≠ a.1) :
    Incomplete (as ++ [a]) k ↔ Incomplete as k := by
  rw [incomplete_iff, incomplete_iff, received_other as h]

omit [DecidableEq ι] in
theorem Incomplete.count_ne_one {as : List (Arrival P)} {k : ι} (h : Incomplete as k) :
    (P k).count ≠ 1 := by
  obtain ⟨⟨i, hi⟩, j, hj⟩ := h
  intro hc
  have hij : i = j := Fin.ext (by omega)
  exact hj (hij ▸ hi)

/-- All fragments of all packets arrive, each once; at any time an id is used by at
most one incomplete packet, and at most twenty packets are incomplete. -/
structure DeliveryOrder (as : List (Arrival P)) : Prop where
  nodup : as.Nodup
  all : ∀ a : Arrival P, a ∈ as
  oneId : ∀ pre, pre <+: as → ∀ k k', Incomplete pre k → Incomplete pre k' →
    (P k).id = (P k').id → k = k'
  atMost : ∀ pre, pre <+: as → ∀ K : Finset ι, (∀ k ∈ K, Incomplete pre k) →
    K.card ≤ packetSpaces

/-- After the arrivals `pre` the receiver keeps exactly the incomplete packets. -/
structure Tracks (pre : List (Arrival P)) (r : Receiver) (T : UInt8 → Option Assembly) :
    Prop where
  refines : Refines r T
  incomplete : ∀ k, Incomplete pre k → T (P k).id = some ((P k).assembled (received pre k))
  only : ∀ id a, T id = some a → ∃ k, Incomplete pre k ∧ (P k).id = id

/-- With a full database there are twenty incomplete packets under other ids. -/
theorem Tracks.card_of_full {pre : List (Arrival P)} {r : Receiver}
    {T : UInt8 → Option Assembly} (h : Tracks pre r T) {f : Fragment} (hf : Full r f) :
    ∃ K : Finset ι, K.card = packetSpaces ∧
      ∀ k ∈ K, Incomplete pre k ∧ (P k).id ≠ f.id := by
  choose c hc hne using hf.slots
  have hk : ∀ i, ∃ k, Incomplete pre k ∧ (P k).id = (c i).id := by
    intro i
    cases hT : T (c i).id with
    | none => exact absurd rfl (h.refines.closed _ hT i (c i) (hc i))
    | some a => exact h.only _ a hT
  choose k hinc hid using hk
  have hinj : Function.Injective k := by
    intro i j hij
    apply h.refines.unique i j (c i) (c j) (hc i) (hc j)
    rw [← hid i, ← hid j, hij]
  refine ⟨Finset.univ.map ⟨k, hinj⟩, by simp, ?_⟩
  intro l hl
  obtain ⟨i, -, rfl⟩ := Finset.mem_map.mp hl
  exact ⟨hinc i, fun he => hne i ((hid i).symm.trans he)⟩

section Step

variable {pre : List (Arrival P)} {r : Receiver} {T : UInt8 → Option Assembly} {a : Arrival P}

omit [DecidableEq ι] in
/-- One arrival, at the id of its packet. -/
theorem arrival_refines (h : Refines r T) (hfull : ¬Full r a.fragment) :
    Refines (receive r a.fragment).1 (Function.update T (P a.1).id
        (Assembly.arrive (T (P a.1).id) ((P a.1).fragment a.2)).1) ∧
      (receive r a.fragment).2.Realizes
        (Assembly.arrive (T (P a.1).id) ((P a.1).fragment a.2)).2 :=
  receive_refines h ((P a.1).fragment_inBounds a.2) hfull

omit [DecidableEq ι] in
/-- The arrival of a packet of one fragment leaves the database as it is. -/
theorem arrival_refines_single (h : Refines r T) (hn : (P a.1).count = 1) :
    Refines (receive r a.fragment).1 T ∧
      (receive r a.fragment).2.Delivers (P a.1).bytes := by
  have hfull : ¬Full r a.fragment := fun hf => hf.1 (((P a.1).fragment_total a.2).mpr hn)
  have hs := arrival_refines h hfull
  rw [(P a.1).arrive_single hn, Function.update_eq_self] at hs
  exact ⟨hs.1, hs.2.delivers (P a.1).bytes_le⟩

/-- A packet of one fragment is handed over without touching the database. -/
theorem Tracks.step_single (h : Tracks pre r T) (hn : (P a.1).count = 1) :
    (receive r a.fragment).2.Delivers (P a.1).bytes ∧
      Tracks (pre ++ [a]) (receive r a.fragment).1 T := by
  have hs := arrival_refines_single h.refines hn
  have hinc (k : ι) : Incomplete (pre ++ [a]) k ↔ k ≠ a.1 ∧ Incomplete pre k := by
    by_cases hk : k = a.1
    · subst hk
      exact ⟨fun hi => absurd hn hi.count_ne_one, fun hi => absurd rfl hi.1⟩
    · rw [incomplete_other pre hk]
      exact ⟨fun hi => ⟨hk, hi⟩, fun hi => hi.2⟩
  refine ⟨hs.2, hs.1, fun k hk => ?_, fun id b hb => ?_⟩
  · obtain ⟨hne, hk'⟩ := (hinc k).mp hk
    rw [received_other pre hne]
    exact h.incomplete k hk'
  · obtain ⟨k, hk, hid⟩ := h.only id b hb
    have hne : k ≠ a.1 := fun he => hk.count_ne_one (he ▸ hn)
    exact ⟨k, (hinc k).mpr ⟨hne, hk⟩, hid⟩

/-- Setting the id of the arrived packet to what `pre ++ [a]` says of it. -/
theorem Tracks.update (h : Tracks pre r T) {r' : Receiver} {b : Option Assembly}
    (hr : Refines r' (Function.update T (P a.1).id b))
    (hid : ∀ k, k ≠ a.1 → Incomplete pre k → (P k).id ≠ (P a.1).id)
    (hnone : received (pre ++ [a]) a.1 = Finset.univ → b = none)
    (hsome : received (pre ++ [a]) a.1 ≠ Finset.univ →
      b = some ((P a.1).assembled (received (pre ++ [a]) a.1))) :
    Tracks (pre ++ [a]) r' (Function.update T (P a.1).id b) := by
  have hstarted : received (pre ++ [a]) a.1 ≠ ∅ := by
    rw [received_same]
    exact Finset.insert_ne_empty _ _
  refine ⟨hr, fun k hk => ?_, fun id c hc => ?_⟩
  · by_cases hka : k = a.1
    · subst hka
      rw [Function.update_self]
      exact hsome (incomplete_iff.mp hk).2
    · have hk' := (incomplete_other pre hka).mp hk
      rw [Function.update_of_ne (hid k hka hk'), received_other pre hka]
      exact h.incomplete k hk'
  · by_cases hida : id = (P a.1).id
    · subst hida
      rw [Function.update_self] at hc
      refine ⟨a.1, incomplete_iff.mpr ⟨hstarted, fun hu => ?_⟩, rfl⟩
      rw [hnone hu] at hc
      cases hc
    · rw [Function.update_of_ne hida] at hc
      obtain ⟨k, hk, hkid⟩ := h.only id c hc
      have hne : k ≠ a.1 := fun he => hida (he ▸ hkid.symm)
      exact ⟨k, (incomplete_other pre hne).mpr hk, hkid⟩

/-- The first fragment of a packet that has several makes it incomplete. -/
theorem incomplete_first (hn : (P a.1).count ≠ 1) (hempty : received pre a.1 = ∅) :
    Incomplete (pre ++ [a]) a.1 := by
  rw [incomplete_iff, received_same, hempty, insert_empty_eq]
  exact ⟨Finset.singleton_ne_empty _, (P a.1).singleton_ne_univ hn _⟩

variable (hn : (P a.1).count ≠ 1) (hnew : a ∉ pre)

include hnew in
theorem received_ne_univ : received pre a.1 ≠ Finset.univ :=
  fun hu => hnew (mem_received.mp (hu ▸ Finset.mem_univ a.2))

include hn hnew in
/-- No other incomplete packet uses the id of the arrived one. -/
theorem other_id
    (honePre : ∀ k k', Incomplete pre k → Incomplete pre k' → (P k).id = (P k').id → k = k')
    (hone : ∀ k k', Incomplete (pre ++ [a]) k → Incomplete (pre ++ [a]) k' →
      (P k).id = (P k').id → k = k')
    (k : ι) (hk : k ≠ a.1) (hki : Incomplete pre k) : (P k).id ≠ (P a.1).id := by
  intro he
  by_cases hempty : received pre a.1 = ∅
  · exact hk (hone k a.1 ((incomplete_other pre hk).mpr hki) (incomplete_first hn hempty) he)
  · exact hk (honePre k a.1 hki (incomplete_iff.mpr ⟨hempty, received_ne_univ hnew⟩) he)

include hn hnew in
/-- The arrived packet would be the twenty-first. -/
theorem Tracks.not_full (h : Tracks pre r T)
    (hmost : ∀ K : Finset ι, (∀ k ∈ K, Incomplete (pre ++ [a]) k) → K.card ≤ packetSpaces) :
    ¬Full r a.fragment := by
  intro hf
  obtain ⟨K, hcard, hK⟩ := h.card_of_full hf
  have hne : ∀ k ∈ K, k ≠ a.1 := fun k hk he => (hK k hk).2 (he ▸ rfl)
  have hempty : received pre a.1 = ∅ := by
    by_contra hempty
    have hT := h.incomplete a.1 (incomplete_iff.mpr ⟨hempty, received_ne_univ hnew⟩)
    exact h.refines.not_full hT hf
  have hle := hmost (insert a.1 K) fun k hk => by
    rcases Finset.mem_insert.mp hk with rfl | hk
    · exact incomplete_first hn hempty
    · exact (incomplete_other pre (hne k hk)).mpr (hK k hk).1
  rw [Finset.card_insert_of_notMem fun hm => hne a.1 hm rfl, hcard] at hle
  omega

/-- One arrival of a fragment that was not there before. -/
theorem Tracks.step (h : Tracks pre r T) (hnew : a ∉ pre)
    (honePre : ∀ k k', Incomplete pre k → Incomplete pre k' → (P k).id = (P k').id → k = k')
    (hone : ∀ k k', Incomplete (pre ++ [a]) k → Incomplete (pre ++ [a]) k' →
      (P k).id = (P k').id → k = k')
    (hmost : ∀ K : Finset ι, (∀ k ∈ K, Incomplete (pre ++ [a]) k) → K.card ≤ packetSpaces) :
    (∃ T', Tracks (pre ++ [a]) (receive r a.fragment).1 T') ∧
      (received (pre ++ [a]) a.1 = Finset.univ →
        (receive r a.fragment).2.Delivers (P a.1).bytes) ∧
      (received (pre ++ [a]) a.1 ≠ Finset.univ →
        (receive r a.fragment).2 = ⟨.waitingForFragment, none, none⟩) := by
  by_cases hn : (P a.1).count = 1
  · obtain ⟨hd, ht⟩ := h.step_single hn
    refine ⟨⟨T, ht⟩, fun _ => hd, fun hu => ?_⟩
    have hinc : Incomplete (pre ++ [a]) a.1 :=
      incomplete_iff.mpr ⟨by rw [received_same]; exact Finset.insert_ne_empty _ _, hu⟩
    exact absurd hn hinc.count_ne_one
  have hj : a.2 ∉ received pre a.1 := fun hm => hnew (mem_received.mp hm)
  have hid := other_id hn hnew honePre hone
  have hs := arrival_refines h.refines (h.not_full hn hnew hmost)
  by_cases hempty : received pre a.1 = ∅
  · have hT : T (P a.1).id = none := by
      cases hT : T (P a.1).id with
      | none => rfl
      | some b =>
        obtain ⟨k, hk, hkid⟩ := h.only _ b hT
        have hne : k ≠ a.1 := by
          rintro rfl
          exact (incomplete_iff.mp hk).1 hempty
        exact absurd hkid (hid k hne hk)
    have hnu := (incomplete_iff.mp (incomplete_first hn hempty)).2
    rw [hT, (P a.1).arrive_first hn a.2] at hs
    refine ⟨⟨_, h.update hs.1 hid (fun hu => absurd hu hnu) fun _ => ?_⟩,
      fun hu => absurd hu hnu, fun _ => hs.2⟩
    rw [received_same, hempty, insert_empty_eq]
  · rw [h.incomplete a.1 (incomplete_iff.mpr ⟨hempty, received_ne_univ hnew⟩)] at hs
    by_cases hu : insert a.2 (received pre a.1) = Finset.univ
    · rw [(P a.1).arrive_last hn hj hu] at hs
      rw [← received_same] at hu
      exact ⟨⟨_, h.update hs.1 hid (fun _ => rfl) fun hne => absurd hu hne⟩,
        fun _ => hs.2.delivers (P a.1).bytes_le, fun hne => absurd hu hne⟩
    · rw [(P a.1).arrive_middle hn hj hu] at hs
      rw [← received_same] at hu hs
      exact ⟨⟨_, h.update hs.1 hid (fun hn => absurd hn hu) fun _ => rfl⟩,
        fun hn => absurd hn hu, fun _ => hs.2⟩

end Step

theorem tracks_run {as : List (Arrival P)} (h : DeliveryOrder as) (pre : List (Arrival P))
    (hpre : pre <+: as) : ∃ T, Tracks pre (after freshReceiver (pre.map Arrival.fragment)) T := by
  induction pre using List.reverseRecOn with
  | nil =>
    refine ⟨fun _ => none, refines_fresh, fun k hk => ?_, fun id a ha => by cases ha⟩
    obtain ⟨⟨j, hj⟩, -⟩ := hk
    simp at hj
  | append_singleton pre a ih =>
    have hpre' : pre <+: as := (List.prefix_append pre [a]).trans hpre
    obtain ⟨T, hT⟩ := ih hpre'
    have hnd := h.nodup.sublist hpre.sublist
    have hnew : a ∉ pre := fun hm =>
      (List.nodup_append.mp hnd).2.2 a hm a (List.mem_singleton_self a) rfl
    have hstep := hT.step hnew (h.oneId pre hpre') (h.oneId _ hpre) (h.atMost _ hpre)
    rw [List.map_append, after_append]
    exact hstep.1

theorem exists_last {α : Type*} {p : α → Prop} [DecidablePred p] {l : List α}
    (h : ∃ a ∈ l, p a) : ∃ pre a post, l = pre ++ a :: post ∧ p a ∧ ∀ b ∈ post, ¬p b := by
  induction l with
  | nil => simp at h
  | cons a l ih =>
    by_cases hl : ∃ b ∈ l, p b
    · obtain ⟨pre, b, post, rfl, hb, hpost⟩ := ih hl
      exact ⟨a :: pre, b, post, rfl, hb, hpost⟩
    · have ha : p a := by simpa [hl] using h
      exact ⟨[], a, l, rfl, ha, fun b hb hpb => hl ⟨b, hb, hpb⟩⟩

/-- The fragments of a packet are all in exactly when none of them is still to come. -/
theorem received_univ_iff {as : List (Arrival P)} (h : DeliveryOrder as)
    {pre post : List (Arrival P)} {a : Arrival P} (he : as = pre ++ a :: post) :
    received (pre ++ [a]) a.1 = Finset.univ ↔ ∀ b ∈ post, b.1 ≠ a.1 := by
  have hsplit : as = (pre ++ [a]) ++ post := by simp [he]
  have hdisj := (List.nodup_append.mp (hsplit ▸ h.nodup)).2.2
  constructor
  · rintro hu ⟨k, j⟩ hb rfl
    have hj := mem_received.mp (hu ▸ Finset.mem_univ j)
    exact hdisj _ hj _ hb rfl
  · intro hpost
    refine Finset.eq_univ_iff_forall.mpr fun j => mem_received.mpr ?_
    have hm := h.all ⟨a.1, j⟩
    rw [hsplit, List.mem_append] at hm
    exact hm.resolve_right fun hb => hpost _ hb rfl

/-- The result of the call for the arrival after `pre`. -/
theorem result_of_arrival {as : List (Arrival P)} (h : DeliveryOrder as)
    {pre post : List (Arrival P)} {a : Arrival P} (he : as = pre ++ a :: post) :
    ∃ res, (results freshReceiver (as.map Arrival.fragment))[pre.length]? = some res ∧
      ((∀ b ∈ post, b.1 ≠ a.1) → res.Delivers (P a.1).bytes) ∧
      ((∃ b ∈ post, b.1 = a.1) → res = ⟨.waitingForFragment, none, none⟩) := by
  have hpre : pre <+: as := ⟨a :: post, he.symm⟩
  have hpre' : pre ++ [a] <+: as := ⟨post, by simp [he]⟩
  obtain ⟨T, hT⟩ := tracks_run h pre hpre
  have hnd : (pre ++ [a]).Nodup := h.nodup.sublist hpre'.sublist
  have hnew : a ∉ pre := fun hm =>
    (List.nodup_append.mp hnd).2.2 a hm a (List.mem_singleton_self a) rfl
  have hstep := (hT.step hnew (h.oneId pre hpre) (h.oneId _ hpre') (h.atMost _ hpre')).2
  have hlast := received_univ_iff h he
  refine ⟨_, ?_, fun hb => hstep.1 (hlast.mpr hb), fun hb => hstep.2 fun hu => ?_⟩
  · have hr := results_getElem? freshReceiver (pre.map Arrival.fragment)
      (post.map Arrival.fragment) a.fragment
    rw [List.length_map] at hr
    rw [he, List.map_append, List.map_cons, hr]
  · obtain ⟨b, hb, hba⟩ := hb
    exact hlast.mp hu b hb hba

/-- Whatever the order in which the fragments arrive: the call for the last fragment
of a packet hands over the packet, every other call waits, and so each packet is
delivered exactly once. -/
theorem reassembly_delivers_once {as : List (Arrival P)} (h : DeliveryOrder as) :
    (∀ pre a post, as = pre ++ a :: post →
      ∃ res, (results freshReceiver (as.map Arrival.fragment))[pre.length]? = some res ∧
        ((∀ b ∈ post, b.1 ≠ a.1) → res.Delivers (P a.1).bytes) ∧
        ((∃ b ∈ post, b.1 = a.1) → res.status = .waitingForFragment)) ∧
    ∀ k, ∃! t : ℕ, ∃ (a : Arrival P) (res : ReceiveResult), as[t]? = some a ∧ a.1 = k ∧
      (results freshReceiver (as.map Arrival.fragment))[t]? = some res ∧
      res.status = .readyToSend := by
  refine ⟨fun pre a post he => ?_, fun k => ?_⟩
  · obtain ⟨res, hr, hd, hw⟩ := result_of_arrival h he
    exact ⟨res, hr, hd, fun hb => by rw [hw hb]⟩
  · obtain ⟨pre, a, post, he, hk, hpost⟩ := exists_last (p := fun b : Arrival P => b.1 = k)
      ⟨⟨k, ⟨0, (P k).count_pos⟩⟩, h.all _, rfl⟩
    obtain ⟨res, hr, hd, -⟩ := result_of_arrival h he
    have hget : as[pre.length]? = some a := by simp [he]
    have hready := (hd fun b hb hba => hpost b hb (hba.trans hk)).1
    refine ⟨pre.length, ⟨a, res, hget, hk, hr, hready⟩, ?_⟩
    rintro t ⟨b, res', hb, hbk, hr', hready⟩
    -- a ready call has no later arrival of its packet, so it is the last one
    have ht : t < as.length := (List.getElem?_eq_some_iff.mp hb).1
    have hsplit : as = as.take t ++ b :: as.drop (t + 1) := by
      rw [← (List.getElem?_eq_some_iff.mp hb).2, List.getElem_cons_drop, List.take_append_drop]
    obtain ⟨res'', hr'', -, hw⟩ := result_of_arrival h hsplit
    rw [List.length_take, Nat.min_eq_left ht.le, hr'] at hr''
    obtain rfl := Option.some.inj hr''
    have hlast : ∀ c ∈ as.drop (t + 1), c.1 ≠ b.1 := by
      intro c hc hcb
      rw [hw ⟨c, hc, hcb⟩] at hready
      cases hready
    rcases lt_trichotomy t pre.length with hlt | heq | hgt
    · refine absurd (hk.trans hbk.symm) (hlast a ?_)
      rw [List.mem_iff_getElem?]
      exact ⟨pre.length - (t + 1), by rw [List.getElem?_drop, ← hget]; congr 1; omega⟩
    · exact heq
    · refine absurd hbk (hpost b ?_)
      rw [List.mem_iff_getElem?]
      refine ⟨t - (pre.length + 1), ?_⟩
      have hb' := hb
      rw [he, List.getElem?_append_right (by omega)] at hb'
      rw [← hb', show t - pre.length = t - (pre.length + 1) + 1 by omega, List.getElem?_cons_succ]

def SentPacket.bytewise (id : UInt8) (bytes : List UInt8) (h : bytes.length ≤ 255)
    (h0 : 0 < bytes.length) : SentPacket where
  id := id
  bytes := bytes
  count := bytes.length
  number := fun j => UInt8.ofNat j.val
  offset := fun j => j.val
  size := fun _ => 1
  bytes_le := h.trans (by decide)
  count_pos := h0
  count_le := h
  tiles :=
    { inside := fun j => j.isLt
      covered := fun p hp => ⟨⟨p, hp⟩, ⟨le_rfl, Nat.lt_succ_self p⟩,
        fun j hj => Fin.ext (Nat.le_antisymm hj.1 (Nat.le_of_lt_succ hj.2))⟩ }

def twoPackets : Bool → SentPacket
  | true => .bytewise 220 [1, 2] (by decide) (by decide)
  | false => .bytewise 221 [7, 8] (by decide) (by decide)

def interleaved : List (Arrival twoPackets) :=
  [⟨true, (1 : Fin 2)⟩, ⟨false, (0 : Fin 2)⟩, ⟨false, (1 : Fin 2)⟩, ⟨true, (0 : Fin 2)⟩]

theorem reassembly_delivers_once_interleaved :
    DeliveryOrder interleaved ∧
    ∀ k, ∃! t : ℕ, ∃ (a : Arrival twoPackets) (res : ReceiveResult), interleaved[t]? = some a ∧
      a.1 = k ∧ (results freshReceiver (interleaved.map Arrival.fragment))[t]? = some res ∧
      res.status = .readyToSend := by
  have hinj : ∀ k k', (twoPackets k).id = (twoPackets k').id → k = k' := by decide
  have h : DeliveryOrder interleaved :=
    { nodup := by decide
      all := by decide
      oneId := fun _ _ k k' _ _ => hinj k k'
      atMost := fun _ _ K _ => (Finset.card_le_univ K).trans (by decide) }
  exact ⟨h, (reassembly_delivers_once h).2⟩

def hasSlot (r : Receiver) (id : UInt8) : Bool :=
  (List.finRange packetSpaces).any fun i => (r.infoAddr i).any fun c => c.id = id

/-- `window id` lists the arrivals since the slot of `id` was allocated, and `last` keeps the
latest result with the window it belongs to. -/
structure Watched (P : ι → SentPacket) where
  receiver : Receiver
  window : UInt8 → List (Arrival P)
  last : Option (ReceiveResult × List (Arrival P))

def Watched.since (s : Watched P) (a : Arrival P) : List (Arrival P) :=
  (if hasSlot s.receiver (P a.1).id then s.window (P a.1).id else []) ++ [a]

def watch (P : ι → SentPacket) : Machine (Watched P) (Arrival P) where
  init := ⟨freshReceiver, fun _ => [], none⟩
  step s a :=
    let (r, res) := receive s.receiver a.fragment
    -- a packet of one fragment takes no slot
    if (P a.1).count = 1 then some ⟨r, s.window, some (res, [a])⟩
    else some ⟨r, Function.update s.window (P a.1).id (s.since a), some (res, s.since a)⟩

/-- The latest result, if it announces a packet, is exactly a sent packet all of
whose fragments are in the window. -/
def Watched.Genuine (s : Watched P) : Prop :=
  ∀ res w, s.last = some (res, w) → res.status = .readyToSend →
    ∃ k, (∀ j, (⟨k, j⟩ : Arrival P) ∈ w) ∧ res.Delivers (P k).bytes

/-- The fragment joins no slot that holds it already or that holds fragments of
another packet. -/
def Watched.Clean (s : Watched P) (a : Arrival P) : Prop :=
  (P a.1).count ≠ 1 → hasSlot s.receiver (P a.1).id →
    ∀ b ∈ s.window (P a.1).id, b.1 = a.1 ∧ b ≠ a

theorem hasSlot_iff {r : Receiver} {T : UInt8 → Option Assembly} (h : Refines r T) (id : UInt8) :
    hasSlot r id = true ↔ ∃ a, T id = some a := by
  have he : hasSlot r id = true ↔ ∃ i c, r.infoAddr i = some c ∧ c.id = id := by
    simp only [hasSlot, List.any_eq_true, List.mem_finRange, true_and, Option.any_eq_true,
      decide_eq_true_eq]
  rw [he]
  constructor
  · rintro ⟨i, c, hc, hid⟩
    cases hT : T id with
    | none => exact absurd hid (h.closed id hT i c hc)
    | some a => exact ⟨a, rfl⟩
  · rintro ⟨a, ha⟩
    obtain ⟨i, hi⟩ := h.opened id a ha
    obtain ⟨c, hc, hid, -⟩ := hi.info
    exact ⟨i, c, hc, hid⟩

/-- Every open slot holds some fragments, each once, of one packet: those of its window. -/
structure Watched.Sound (s : Watched P) (T : UInt8 → Option Assembly) : Prop where
  refines : Refines s.receiver T
  single : ∀ id a, T id = some a → ∃ k, (P k).id = id ∧ (P k).count ≠ 1 ∧
    a = (P k).assembled (received (s.window id) k) ∧
    s.window id ≠ [] ∧ ∀ b ∈ s.window id, b.1 = k
  genuine : s.Genuine

theorem Watched.Sound.step_single {s s' : Watched P} {T : UInt8 → Option Assembly} {a : Arrival P}
    (h : s.Sound T) (hn : (P a.1).count = 1) (hs : (watch P).step s a = some s') :
    s'.Sound T := by
  have hr := arrival_refines_single h.refines hn
  simp only [watch, if_pos hn, Option.some.injEq] at hs
  subst hs
  refine ⟨hr.1, h.single, ?_⟩
  rintro res w he -
  obtain ⟨rfl, rfl⟩ := Prod.mk.inj (Option.some.inj he)
  refine ⟨a.1, fun j => ?_, hr.2⟩
  have hj : j = a.2 := Fin.ext (by omega)
  rw [hj]
  exact List.mem_singleton_self a

/-- A fragment that opens a slot is not announced. -/
theorem Watched.Sound.step_opens {s s' : Watched P} {T : UInt8 → Option Assembly} {a : Arrival P}
    (h : s.Sound T) (hn : (P a.1).count ≠ 1) (hT : T (P a.1).id = none)
    (hs : (watch P).step s a = some s') : ∃ T', s'.Sound T' := by
  have ht : a.fragment.total ≠ 1 := fun h1 => hn (((P a.1).fragment_total a.2).mp h1)
  have hT' : T a.fragment.id = none := hT
  obtain ⟨T', hsub, hr, hw⟩ := receive_opens h.refines (f := a.fragment)
    ((P a.1).fragment_inBounds a.2) ht hT'
  have hslot : hasSlot s.receiver (P a.1).id ≠ true := by
    rw [Ne, hasSlot_iff h.refines, hT]
    simp
  have hsince : s.since a = [a] := by simp [Watched.since, hslot]
  simp only [watch, if_neg hn, Option.some.injEq, hsince] at hs
  subst hs
  refine ⟨_, hr, fun id b hb => ?_, ?_⟩
  · by_cases hid : id = (P a.1).id
    · subst hid
      have hb' : some (Assembly.opened a.fragment) = some b := by
        rw [← hb]
        exact (Function.update_self (a.fragment.id) _ T').symm
      have hrec : received [a] a.1 = {a.2} := by
        have hs := received_same ([] : List (Arrival P)) a
        simpa [received] using hs
      refine ⟨a.1, rfl, hn, ?_, ?_, ?_⟩ <;> simp only [Function.update_self]
      · rw [hrec, ← (P a.1).opened_fragment]
        exact (Option.some.inj hb').symm
      · simp
      · simp
    · have hb' : T' id = some b := by
        rw [← hb]
        exact (Function.update_of_ne hid _ _).symm
      simp only [Function.update_of_ne hid]
      exact h.single id b (hsub id b hb')
  · intro res w he hready
    obtain ⟨rfl, -⟩ := Prod.mk.inj (Option.some.inj he)
    rw [hw] at hready
    cases hready

/-- A fragment that joins a slot under `Clean`: it is another one of the same packet. -/
theorem Watched.Sound.step_joins {s s' : Watched P} {T : UInt8 → Option Assembly} {a : Arrival P}
    {b : Assembly} (h : s.Sound T) (hn : (P a.1).count ≠ 1) (hT : T (P a.1).id = some b)
    (hclean : s.Clean a) (hs : (watch P).step s a = some s') : ∃ T', s'.Sound T' := by
  have hslot : hasSlot s.receiver (P a.1).id = true := (hasSlot_iff h.refines _).mpr ⟨b, hT⟩
  have hc := hclean hn hslot
  obtain ⟨k, -, -, hb, hne, hwin⟩ := h.single _ b hT
  -- the window is not empty, and a clean arrival belongs to the packet it is about
  have hk : k = a.1 := by
    obtain ⟨c, hcm⟩ := List.exists_mem_of_ne_nil _ hne
    rw [← hwin c hcm]
    exact (hc c hcm).1
  subst hk
  have hnew : a ∉ s.window (P a.1).id := fun hm => (hc a hm).2 rfl
  have hj : a.2 ∉ received (s.window (P a.1).id) a.1 := fun hm => hnew (mem_received.mp hm)
  have hsince : s.since a = s.window (P a.1).id ++ [a] := by simp [Watched.since, hslot]
  have hmem : ∀ c ∈ s.window (P a.1).id ++ [a], c.1 = a.1 := by
    intro c hcm
    rcases List.mem_append.mp hcm with hcm | hcm
    · exact hwin c hcm
    · rw [List.mem_singleton.mp hcm]
  have hr := arrival_refines h.refines (h.refines.not_full hT)
  rw [hT, hb] at hr
  simp only [watch, if_neg hn, Option.some.injEq, hsince] at hs
  subst hs
  by_cases hu : insert a.2 (received (s.window (P a.1).id) a.1) = Finset.univ
  · rw [(P a.1).arrive_last hn hj hu] at hr
    refine ⟨_, hr.1, fun id c hc => ?_, ?_⟩
    · by_cases hid : id = (P a.1).id
      · subst hid
        rw [Function.update_self] at hc
        cases hc
      · rw [Function.update_of_ne hid] at hc
        simp only [Function.update_of_ne hid]
        exact h.single id c hc
    · rintro res w he -
      obtain ⟨rfl, rfl⟩ := Prod.mk.inj (Option.some.inj he)
      refine ⟨a.1, fun j => ?_, hr.2.delivers (P a.1).bytes_le⟩
      rw [← received_same] at hu
      exact mem_received.mp (hu ▸ Finset.mem_univ j)
  · rw [(P a.1).arrive_middle hn hj hu] at hr
    refine ⟨_, hr.1, fun id c hc => ?_, ?_⟩
    · by_cases hid : id = (P a.1).id
      · subst hid
        rw [Function.update_self] at hc
        refine ⟨a.1, rfl, hn, ?_, ?_, ?_⟩ <;> simp only [Function.update_self]
        · rw [received_same]
          exact (Option.some.inj hc).symm
        · simp
        · exact hmem
      · rw [Function.update_of_ne hid] at hc
        simp only [Function.update_of_ne hid]
        exact h.single id c hc
    · intro res w he hready
      obtain ⟨rfl, -⟩ := Prod.mk.inj (Option.some.inj he)
      rw [show (receive s.receiver a.fragment).2 = _ from hr.2] at hready
      cases hready

theorem Watched.Sound.step {s s' : Watched P} {T : UInt8 → Option Assembly} {a : Arrival P}
    (h : s.Sound T) (hclean : s.Clean a) (hs : (watch P).step s a = some s') :
    ∃ T', s'.Sound T' := by
  by_cases hn : (P a.1).count = 1
  · exact ⟨T, h.step_single hn hs⟩
  · cases hT : T (P a.1).id with
    | none => exact h.step_opens hn hT hs
    | some b => exact h.step_joins hn hT hclean hs

/-- As long as no fragment joins a slot that holds it already or holds another
packet's fragments, whatever is lost, repeated or reordered: every packet announced
is one that was sent, complete since its slot was allocated. -/
theorem reassembly_genuine (P : ℕ → SentPacket) {s : Watched P}
    (h : (watch P).ReachableIf Watched.Clean s) : s.Genuine := by
  have hsound : ∃ T, s.Sound T := by
    have hinit : (watch P).init.Sound fun _ => none :=
      ⟨refines_fresh, fun _ _ ha => (by cases ha), fun _ _ he => (by cases he)⟩
    refine h.invariant (I := fun s => ∃ T, s.Sound T) ⟨_, hinit⟩ ?_
    rintro s a s' ⟨T, hT⟩ hclean hs
    exact hT.step hclean hs
  obtain ⟨T, hT⟩ := hsound
  exact hT.genuine

def bytePairs (k : ℕ) : SentPacket := .bytewise (assignedId k) [1, 2] (by decide) (by decide)

/-- The two fragments of the first packet. -/
theorem reassembly_genuine_pair : ∃ s, (watch bytePairs).ReachableIf Watched.Clean s ∧
    (∃ res w, s.last = some (res, w) ∧ res.status = .readyToSend) ∧ s.Genuine := by
  have hexec := (Machine.ReachableIf.init (M := watch bytePairs) (C := Watched.Clean)).exec
    [⟨0, (0 : Fin 2)⟩, ⟨0, (1 : Fin 2)⟩] ?_ rfl
  · exact ⟨_, hexec, ⟨_, _, rfl, rfl⟩, reassembly_genuine bytePairs hexec⟩
  · refine And.intro (fun _ hs => absurd hs (by decide)) (And.intro (fun _ _ b hb => ?_) trivial)
    have hb' : b = ⟨0, (0 : Fin 2)⟩ := List.mem_singleton.mp hb
    subst hb'
    decide

/-- The first fragment of a packet arriving twice is announced as the packet. -/
theorem duplicate_announced : ∃ P : ℕ → SentPacket, (∀ k, (P k).id = assignedId k) ∧
    ∃ s, (watch P).Reachable s ∧ ¬s.Genuine := by
  refine ⟨bytePairs, fun _ => rfl, _, Machine.reachable_of_exec
    [⟨0, (0 : Fin 2)⟩, ⟨0, (0 : Fin 2)⟩] rfl, fun hg => ?_⟩
  obtain ⟨k, hall, -⟩ := hg _ _ rfl rfl
  have h1 : (⟨k, (1 : Fin 2)⟩ : Arrival bytePairs) ∈
      ([⟨0, (0 : Fin 2)⟩, ⟨0, (0 : Fin 2)⟩] : List (Arrival bytePairs)) := hall (1 : Fin 2)
  have h0 : ∀ b ∈ ([⟨0, (0 : Fin 2)⟩, ⟨0, (0 : Fin 2)⟩] : List (Arrival bytePairs)),
      b.2.val = 0 := by decide
  exact Nat.one_ne_zero (h0 _ h1)

end AuroraRelay.FragmentReceiver
