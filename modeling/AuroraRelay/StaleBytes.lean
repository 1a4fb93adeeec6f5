import Mathlib.Algebra.Order.BigOperators.Group.List
import Mathlib.Algebra.Order.Group.Nat
import AuroraRelay.Noninterference

/-!
# The bytes that are left behind

A packet of an id that leaves a byte out is delivered with whatever the memory held
there.  Another id can put any byte it likes in that place: the search returns the
last free slot, so two packets of other ids decide which slot comes next and what
is in it and behind it.
-/

namespace AuroraRelay.FragmentReceiver
open Memory WarpProtocol

theorem packets_spec {current fs g : List Fragment} (hw : Waiting current)
    (hg : g ∈ packets current fs) : g.length ≤ 256 ∧ ∀ f ∈ g, f ∈ current ∨ f ∈ fs := by
  induction fs generalizing current with
  | nil => cases hg
  | cons f fs ih =>
    rcases arrive_gathered_cases hw f with ⟨-, hp, -⟩ | ⟨-, hw', hp, -⟩ | ⟨-, hp, -⟩
    · rw [hp] at hg
      obtain ⟨hlen, hmem⟩ := ih hw hg
      exact ⟨hlen, fun k hk => (hmem k hk).imp_right (List.mem_cons_of_mem _)⟩
    · rw [hp] at hg
      obtain ⟨hlen, hmem⟩ := ih hw' hg
      refine ⟨hlen, fun k hk => ?_⟩
      have := hmem k hk
      grind
    · rw [hp, List.mem_cons] at hg
      rcases hg with rfl | hg
      · refine ⟨?_, fun k hk => by grind⟩
        rw [List.length_append]
        cases current with
        | nil => simp
        | cons k ks => exact lt_of_lt_of_le (hw k rfl) (announced_le k)
      · obtain ⟨hlen, hmem⟩ := ih (fun _ h => by cases h) hg
        exact ⟨hlen, fun k hk => by grind⟩

/-- The open packet is the beginning of the next one completed. -/
theorem mem_head_packets {current fs g : List Fragment} (hw : Waiting current)
    (hg : (packets current fs).head? = some g) : ∀ f ∈ current, f ∈ g := by
  induction fs generalizing current with
  | nil => cases hg
  | cons f fs ih =>
    intro k hk
    rcases arrive_gathered_cases hw f with ⟨-, hp, -⟩ | ⟨-, hw', hp, -⟩ | ⟨-, hp, -⟩
    · exact ih hw (by rwa [hp] at hg) k hk
    · exact ih hw' (by rwa [hp] at hg) k (List.mem_append_left _ hk)
    · rw [hp] at hg
      obtain rfl := Option.some.inj hg
      exact List.mem_append_left _ hk

theorem dataLength_le {g : List Fragment} (hb : ∀ f ∈ g, f.InBounds) :
    dataLength g ≤ g.length * packetBytes := by
  have h : ∀ n ∈ g.map fun f => f.data.length, n ≤ packetBytes := by
    simp only [List.mem_map, forall_exists_index, and_imp, forall_apply_eq_imp_iff₂]
    exact fun f hf => le_trans (Nat.le_add_left _ _) (hb f hf)
  simpa [dataLength] using List.sum_le_card_nsmul _ _ h

/-- A byte left out of a packet: inside the slot or the first one behind it. -/
theorem exists_uncovered {g : List Fragment} (hb : ∀ f ∈ g, f.InBounds) (hc : ¬Covering g) :
    ∃ p ≤ packetBytes, p < dataLength g ∧ ∀ f ∈ g, ¬f.Covers p := by
  obtain ⟨p, hp, hn⟩ : ∃ p < dataLength g, ∀ f ∈ g, ¬f.Covers p := by
    simpa [Covering] using hc
  by_cases hle : p ≤ packetBytes
  · exact ⟨p, hle, hp, hn⟩
  · refine ⟨packetBytes, le_rfl, by omega, fun f hf hcov => ?_⟩
    exact absurd hcov.2 (not_lt.mpr (hb f hf))

/-- The assembly of an id after its fragments `fs`. -/
def assemblyAfter (a : Option Assembly) (fs : List Fragment) : Option Assembly :=
  fs.foldl (fun a f => (Assembly.arrive a f).1) a

theorem assemblyAfter_cons (a : Option Assembly) (f : Fragment) (fs : List Fragment) :
    assemblyAfter a (f :: fs) = assemblyAfter (Assembly.arrive a f).1 fs := rfl

/-- Before the first fragment of a completed packet nothing is open. -/
theorem packets_split {current fs g : List Fragment} (hw : Waiting current)
    (hg : g ∈ packets current fs) :
    (packets current fs).head? = some g ∨ ∃ fs₁ fs₂, fs = fs₁ ++ fs₂ ∧
      assemblyAfter (gathered current) fs₁ = none ∧ (packets [] fs₂).head? = some g := by
  induction fs generalizing current with
  | nil => cases hg
  | cons f fs ih =>
    rcases arrive_gathered_cases hw f with ⟨-, hp, ha⟩ | ⟨-, hw', hp, ha⟩ | ⟨-, hp, a, -, ha⟩
    · rw [hp] at hg ⊢
      refine (ih hw hg).imp_right ?_
      rintro ⟨fs₁, fs₂, rfl, h1, h2⟩
      exact ⟨f :: fs₁, fs₂, rfl, by rw [assemblyAfter_cons, ha]; exact h1, h2⟩
    · rw [hp] at hg ⊢
      refine (ih hw' hg).imp_right ?_
      rintro ⟨fs₁, fs₂, rfl, h1, h2⟩
      exact ⟨f :: fs₁, fs₂, rfl, by rw [assemblyAfter_cons, ha]; exact h1, h2⟩
    · rw [hp, List.mem_cons] at hg
      rw [hp]
      rcases hg with rfl | hg
      · exact .inl rfl
      · right
        rcases ih (fun _ h => by cases h) hg with h | ⟨fs₁, fs₂, rfl, h1, h2⟩
        · exact ⟨[f], fs, rfl, by rw [assemblyAfter_cons, ha]; rfl, h⟩
        · exact ⟨f :: fs₁, fs₂, rfl, by rw [assemblyAfter_cons, ha]; exact h1, h2⟩

theorem arriveAt_place (r : Receiver) (f : Fragment) (found : Fin packetSpaces) :
    ∃ info, (arriveAt r f.info (fun i => f.data.getD i 0) (UInt32.ofNat f.data.length) found).1 =
        r.place found f info ∧
      ∀ buffer, (arriveAt r f.info (fun i => f.data.getD i 0) (UInt32.ofNat f.data.length)
        found).2.packetAddress = some buffer →
        buffer = slotAddress (r.place found f info) found := by
  cases hi : r.infoAddr found with
  | none =>
    simp only [arriveAt, hi]
    exact ⟨_, rfl, fun _ h => by cases h⟩
  | some c =>
    simp only [arriveAt, hi]
    split_ifs
    · exact ⟨_, rfl, fun _ h => (Option.some.inj h).symm⟩
    · exact ⟨_, rfl, fun _ h => by cases h⟩

theorem receive_single (r : Receiver) {f : Fragment} (ht : f.total = 1) :
    (receive r f).1 = r := by
  rw [receive_eq, fragmentArrive_single (by exact ht)]

theorem receive_found {r : Receiver} {f : Fragment} {found : Fin packetSpaces}
    (ht : f.total ≠ 1) (hf : findPacketId r f.id = some found) :
    receive r f = arriveAt r f.info (fun i => f.data.getD i 0) (UInt32.ofNat f.data.length)
      found := by
  rw [receive_eq, fragmentArrive_found (by exact ht) hf]

/-- The slot of an open id is the one the search returns. -/
theorem Refines.found {r : Receiver} {T : UInt8 → Option Assembly} (h : Refines r T)
    {i : Fin packetSpaces} {c : FragmentInfo} (hc : r.infoAddr i = some c) :
    findPacketId r c.id = some i := by
  rcases findPacketId_cases r c.id with ⟨j, d, hf, hd, hid⟩ | ⟨j, -, -, hnew⟩ | ⟨-, hall⟩
  · rw [hf, h.unique j i d c hd hc hid]
  · exact absurd rfl (hnew i c hc)
  · obtain ⟨d, hd, hne⟩ := hall i
    rw [hc] at hd
    exact absurd (Option.some.inj hd ▸ rfl) hne

/-- The next fragment of `id` goes to slot `i`, and the byte at `p` from its start
is `b`. -/
structure Stale (id : UInt8) (i : Fin packetSpaces) (p : ℕ) (b : UInt8) (r : Receiver) :
    Prop where
  found : findPacketId r id = some i
  byte : slotAddress r i p = b

/-- A fragment that does not write the byte and leaves its packet open. -/
theorem Stale.step {id : UInt8} {i : Fin packetSpaces} {p : ℕ} {b : UInt8} {r : Receiver}
    {T T' : UInt8 → Option Assembly} (h : Stale id i p b r) (hT : Refines r T) {f : Fragment}
    (hf : f.id = id) (ht : f.total ≠ 1) (hb : f.InBounds) (hn : ¬f.Covers p)
    (hT' : Refines (receive r f).1 T') {a : Assembly} (ha : T' id = some a) :
    Stale id i p b (receive r f).1 := by
  obtain ⟨info, hr, -⟩ := arriveAt_place r f i
  rw [← receive_found ht (by rw [hf, h.found])] at hr
  refine ⟨?_, by rw [hr, place_slot_outside hb info hn, h.byte]⟩
  obtain ⟨j, hj⟩ := hT'.opened id a ha
  obtain ⟨c, hc, hid, -⟩ := hj.info
  have hji : j = i := by
    by_contra hne
    -- the slot was open before, so the search would have returned it
    rw [hr, place_info_other info hne] at hc
    have hf' := hT.found hc
    rw [hid, h.found] at hf'
    exact hne (Option.some.inj hf').symm
  rw [← hji, ← hid]
  exact hT'.found hc

/-- The byte is delivered with the next packet, in a call that does not depend on
the receiver. -/
theorem Stale.delivered {id : UInt8} {i : Fin packetSpaces} {p : ℕ} {current fs g : List Fragment}
    (hw : Waiting current) (hid : ∀ f ∈ fs, f.id = id) (hb : ∀ f ∈ fs, f.InBounds)
    (hg : (packets current fs).head? = some g) (hp : p < dataLength g) (hlt : dataLength g < 2 ^ 32)
    (hn : ∀ f ∈ g, ¬f.Covers p) :
    ∃ n : ℕ, ∀ r T b, Refines r T → T id = gathered current → Stale id i p b r →
      ∃ length bytes, (viewsOf id r fs)[n]? =
          some (Status.readyToSend, some (length, bytes)) ∧ bytes[p]? = some b := by
  induction fs generalizing current with
  | nil => cases hg
  | cons f fs ih =>
    obtain ⟨hf, hid⟩ := List.forall_mem_cons.mp hid
    obtain ⟨hbf, hb⟩ := List.forall_mem_cons.mp hb
    have hviews : ∀ r, viewsOf id r (f :: fs) =
        (receive r f).2.view :: viewsOf id (receive r f).1 fs := fun r => if_pos hf
    have hstep : ∀ r T b, Refines r T → T id = gathered current → Stale id i p b r →
        Refines (receive r f).1
          (Function.update T id (Assembly.arrive (gathered current) f).1) ∧
        (receive r f).2.Realizes (Assembly.arrive (gathered current) f).2 := by
      intro r T b hT hcur hs
      have hfull : ¬Full r f := fun h => by simpa [hf, hs.found] using h.2
      simpa only [hf, hcur] using receive_refines hT hbf hfull
    rcases arrive_gathered_cases hw f with
      ⟨ht, hpk, -⟩ | ⟨ht, hw', hpk, ha⟩ | ⟨ht, hpk, a, hga, ha⟩
    · -- a single fragment bounces back and leaves the receiver as it is
      obtain ⟨n, hn⟩ := ih hw hid hb (by rwa [hpk] at hg)
      refine ⟨n + 1, fun r T b hT hcur hs => ?_⟩
      rw [hviews, List.getElem?_cons_succ, receive_single r ht]
      exact hn r T b hT hcur hs
    · rw [hpk] at hg
      have hmem : f ∈ g := mem_head_packets hw' hg f (by simp)
      obtain ⟨n, hn'⟩ := ih hw' hid hb hg
      refine ⟨n + 1, fun r T b hT hcur hs => ?_⟩
      obtain ⟨hT', -⟩ := hstep r T b hT hcur hs
      rw [ha] at hT'
      obtain ⟨a, hga⟩ : ∃ a, gathered (current ++ [f]) = some a := by
        cases current <;> exact ⟨_, rfl⟩
      rw [hviews, List.getElem?_cons_succ]
      refine hn' _ _ b hT' (Function.update_self ..) ?_
      exact hs.step hT hf ht hbf (hn f hmem) hT' (by rw [Function.update_self, hga])
    · rw [hpk] at hg
      obtain rfl := Option.some.inj hg
      refine ⟨0, fun r T b hT hcur hs => ?_⟩
      -- the buffer handed over is the slot itself
      obtain ⟨-, hres⟩ := hstep r T b hT hcur hs
      rw [ha] at hres
      obtain ⟨buffer, info, hres, hlen, -⟩ := hres
      have hlen' : info.length.toNat = dataLength (current ++ [f]) := by
        rw [hlen, (gathered_spec hga).1, UInt32.toNat_ofNat', Nat.mod_eq_of_lt hlt]
      have hbuf : buffer p = b := by
        obtain ⟨info', -, hbuffer⟩ := arriveAt_place r f i
        rw [← receive_found ht (by rw [hf, hs.found]), hres] at hbuffer
        rw [hbuffer buffer rfl, place_slot_outside hbf info' (hn f (by simp)), hs.byte]
      refine ⟨info.length, load buffer 0 info.length.toNat, ?_, ?_⟩
      · rw [hviews, hres]
        rfl
      · rw [load_getElem? (by rwa [hlen']), Nat.zero_add, hbuf]

theorem findLoop_taken {db : Fin packetSpaces → Option FragmentInfo} {id : UInt8}
    {is : List (Fin packetSpaces)} (h : ∀ j ∈ is, ∃ c, db j = some c ∧ c.id ≠ id)
    (output : Option (Fin packetSpaces)) : findLoop db id is output = output := by
  induction is with
  | nil => rfl
  | cons j is ih =>
    obtain ⟨⟨c, hc, hne⟩, h⟩ := List.forall_mem_cons.mp h
    simp only [findLoop, hc, if_neg hne, ih h]

theorem findLoop_last {db : Fin packetSpaces → Option FragmentInfo} {id : UInt8}
    {is : List (Fin packetSpaces)} (hs : is.Pairwise (· < ·)) {i : Fin packetSpaces} (hi : i ∈ is)
    (hfree : db i = none) (hnew : ∀ j c, db j = some c → c.id ≠ id)
    (hlast : ∀ j, i < j → db j ≠ none) (output : Option (Fin packetSpaces)) :
    findLoop db id is output = some i := by
  induction is generalizing output with
  | nil => cases hi
  | cons j is ih =>
    obtain ⟨hj, hs⟩ := List.pairwise_cons.mp hs
    by_cases he : i = j
    · subst he
      simp only [findLoop, hfree]
      refine findLoop_taken (fun k hk => ?_) _
      obtain ⟨c, hc⟩ := Option.ne_none_iff_exists'.mp (hlast k (hj k hk))
      exact ⟨c, hc, hnew k c hc⟩
    · have hmem : i ∈ is := (List.mem_cons.mp hi).resolve_left he
      cases hc : db j with
      | none => simp only [findLoop, hc, ih hs hmem]
      | some c => simp only [findLoop, hc, if_neg (hnew j c hc), ih hs hmem]

/-- A new id gets the last free slot. -/
theorem findPacketId_last {r : Receiver} {id : UInt8} {i : Fin packetSpaces}
    (hfree : r.infoAddr i = none) (hnew : ∀ j c, r.infoAddr j = some c → c.id ≠ id)
    (hlast : ∀ j, i < j → r.infoAddr j ≠ none) : findPacketId r id = some i :=
  findLoop_last (List.pairwise_lt_finRange _) (List.mem_finRange i) hfree hnew hlast none

def filler (id number b : UInt8) : Fragment := ⟨id, number, 2, 0, List.replicate packetBytes b⟩

def fillers (j k b : UInt8) : List Fragment := [filler j 0 b, filler k 0 b, filler k 1 b]

theorem filler_inBounds (id number b : UInt8) : (filler id number b).InBounds := by
  simp [filler, Fragment.InBounds]

theorem place_filler (r : Receiver) (found : Fin packetSpaces) (id number b : UInt8)
    (info : Option FragmentInfo) {p : ℕ} (hp : p < packetBytes) :
    slotAddress (r.place found (filler id number b) info) found p = b := by
  refine place_slot_inside (filler_inBounds id number b) info (Nat.zero_le p) ?_ ?_
  · simpa [filler] using hp
  · simp [filler, hp]

/-- A new id opens its packet in the last free slot. -/
theorem receive_new {r : Receiver} {T : UInt8 → Option Assembly} (h : Refines r T) {f : Fragment}
    (hb : f.InBounds) (ht : f.total ≠ 1) {i : Fin packetSpaces} (hfree : r.infoAddr i = none)
    (hnew : ∀ j c, r.infoAddr j = some c → c.id ≠ f.id)
    (hlast : ∀ j, i < j → r.infoAddr j ≠ none) :
    (receive r f).1 = r.place i f (some f.openedInfo) ∧
      Refines (r.place i f (some f.openedInfo))
        (Function.update T f.id (some (Assembly.opened f))) := by
  obtain ⟨hr, hR⟩ := arriveAt_opens h hb hfree hnew
  rw [receive_found ht (findPacketId_last hfree hnew hlast), hr]
  exact ⟨rfl, hR⟩

section Fillers

variable {r : Receiver} {j k b : UInt8}

theorem lt_last_slot {i : Fin packetSpaces} (h : 18 < i) : i = 19 :=
  le_antisymm (Fin.le_last i) h

theorem after_fillers (h : ∀ i, r.infoAddr i = none) (hjk : j ≠ k) :
    after r (fillers j k b) =
      ((r.place 19 (filler j 0 b) (some (filler j 0 b).openedInfo)).place 18 (filler k 0 b)
        (some (filler k 0 b).openedInfo)).place 18 (filler k 1 b) none := by
  have ht : ∀ id number, (filler id number b).total ≠ 1 := by simp [filler]
  obtain ⟨h1, hR1⟩ := receive_new (i := 19) (refines_none h) (filler_inBounds j 0 b) (ht j 0)
    (h 19) (by simp [h]) fun i hi => absurd hi (not_lt.mpr (Fin.le_last i))
  have hnew : ∀ i c, (r.place 19 (filler j 0 b) (some (filler j 0 b).openedInfo)).infoAddr i =
      some c → c.id ≠ k := by
    intro i c hc
    by_cases hi : i = 19
    · rw [hi, place_info_same] at hc
      obtain rfl := Option.some.inj hc
      exact hjk
    · rw [place_info_other _ hi, h] at hc
      cases hc
  obtain ⟨h2, hR2⟩ := receive_new (i := 18) hR1 (filler_inBounds k 0 b) (ht k 0)
    (by rw [place_info_other _ (by decide), h]) hnew
    fun i hi => by rw [lt_last_slot hi, place_info_same]; exact Option.some_ne_none _
  have hf : findPacketId _ (filler k 1 b).id = some 18 :=
    hR2.found (c := (filler k 0 b).openedInfo) (place_info_same _)
  have hz : (filler k 0 b).openedInfo.totalNumberFragment - 1 = 0 := show 2 - 1 - 1 = 0 by decide
  have h3 := receive_found (ht k 1) hf
  simp only [arriveAt, place_info_same, hz, if_true] at h3
  change (receive (receive (receive r (filler j 0 b)).1 (filler k 0 b)).1 (filler k 1 b)).1 = _
  rw [h1, h2, h3]
  rfl

/-- The slot that is next is full of `b`, and so is the one behind it. -/
theorem stale_fillers (h : ∀ i, r.infoAddr i = none) (hjk : j ≠ k) {id : UInt8} (hj : j ≠ id)
    {p : ℕ} (hp : p ≤ packetBytes) : Stale id 18 p b (after r (fillers j k b)) := by
  rw [after_fillers h hjk]
  refine ⟨findPacketId_last (place_info_same _) (fun i c hc => ?_) fun i hi => ?_, ?_⟩
  · by_cases h8 : i = 18
    · rw [h8, place_info_same] at hc
      cases hc
    · rw [place_info_other _ h8, place_info_other _ h8] at hc
      by_cases h9 : i = 19
      · rw [h9, place_info_same] at hc
        obtain rfl := Option.some.inj hc
        exact hj
      · rw [place_info_other _ h9, h] at hc
        cases hc
  · rw [lt_last_slot hi, place_info_other _ (by decide), place_info_other _ (by decide),
      place_info_same]
    exact Option.some_ne_none _
  · rcases lt_or_eq_of_le hp with hlt | rfl
    · exact place_filler _ _ _ _ _ _ hlt
    · -- the first byte behind slot 18 is the first byte of slot 19
      change slotAddress _ 19 0 = b
      rw [place_slot_other (filler_inBounds k 1 b) _ (by decide) (by decide),
        place_slot_other (filler_inBounds k 0 b) _ (by decide) (by decide)]
      exact place_filler _ _ _ _ _ _ (by decide)

end Fillers

/-- Every id goes through its own fragments, whatever comes in between. -/
theorem after_refines {r : Receiver} {T : UInt8 → Option Assembly} (h : Refines r T)
    {fs : List Fragment} (hb : ∀ f ∈ fs, f.InBounds) (hp : NeverPurged r fs) :
    Refines (after r fs) fun id => assemblyAfter (T id) (fs.filter fun f => f.id = id) := by
  induction fs generalizing r T with
  | nil => exact h
  | cons f fs ih =>
    obtain ⟨hbf, hb⟩ := List.forall_mem_cons.mp hb
    have hstep := ih (receive_refines h hbf hp.1).1 hb hp.2
    have hT : (fun id => assemblyAfter (T id) ((f :: fs).filter fun f => f.id = id)) = fun id =>
        assemblyAfter (Function.update T f.id (Assembly.arrive (T f.id) f).1 id)
          (fs.filter fun f => f.id = id) := by
      funext id
      by_cases hf : f.id = id
      · subst hf
        simp [assemblyAfter_cons]
      · simp [hf, Function.update_of_ne (Ne.symm hf)]
    rw [hT]
    exact hstep

theorem neverPurged_of_few {r : Receiver} {T : UInt8 → Option Assembly} (h : Refines r T)
    {S : Finset UInt8} (hS : S.card ≤ packetSpaces) (hT : ∀ id, id ∉ S → T id = none)
    {fs : List Fragment} (hb : ∀ f ∈ fs, f.InBounds) (hf : ∀ f ∈ fs, f.id ∈ S) :
    NeverPurged r fs := by
  induction fs generalizing r T with
  | nil => trivial
  | cons f fs ih =>
    obtain ⟨hbf, hb⟩ := List.forall_mem_cons.mp hb
    obtain ⟨hff, hf⟩ := List.forall_mem_cons.mp hf
    have hfull := h.not_full_of_few hS hT hff
    refine ⟨hfull, ih (receive_refines h hbf hfull).1 (fun id hid => ?_) hb hf⟩
    have hne : id ≠ f.id := fun he => hid (he ▸ hff)
    rw [Function.update_of_ne hne, hT id hid]

theorem neverPurged_append {r : Receiver} {fs gs : List Fragment} :
    NeverPurged r (fs ++ gs) ↔ NeverPurged r fs ∧ NeverPurged (after r fs) gs := by
  induction fs generalizing r with
  | nil => simp [NeverPurged, after]
  | cons f fs ih => exact (and_congr_right fun _ => ih).trans and_assoc.symm

theorem viewsOf_append (id : UInt8) (r : Receiver) (fs gs : List Fragment) :
    viewsOf id r (fs ++ gs) = viewsOf id r fs ++ viewsOf id (after r fs) gs := by
  induction fs generalizing r with
  | nil => rfl
  | cons f fs ih =>
    by_cases hf : f.id = id
    · simp only [List.cons_append, viewsOf, if_pos hf, ih]
      rfl
    · simp only [List.cons_append, viewsOf, if_neg hf, ih]
      rfl

theorem viewsOf_length (id : UInt8) (r : Receiver) (fs : List Fragment) :
    (viewsOf id r fs).length = (fs.filter fun f => f.id = id).length := by
  induction fs generalizing r with
  | nil => rfl
  | cons f fs ih => by_cases hf : f.id = id <;> simp [viewsOf, hf, ih]

def byteOf (vs : List View) (n p : ℕ) : Option UInt8 := do
  let v ← vs[n]?
  let d ← v.2
  d.2[p]?

/-- The calls for an id return the same in every interleaving with other ids. -/
def Independent (id : UInt8) (own : List Fragment) : Prop :=
  ∀ fs : List Fragment, (∀ f ∈ fs, f.InBounds) → NeverPurged freshReceiver fs →
    fs.filter (fun f => f.id = id) = own →
      viewsOf id freshReceiver fs = viewsOf id freshReceiver own

section Interleaving

variable {id b : UInt8} {own₁ own₂ : List Fragment}

def filled (id b : UInt8) (own₁ own₂ : List Fragment) : List Fragment :=
  own₁ ++ (fillers (id + 1) (id + 2) b ++ own₂)

theorem filler_ids (id : UInt8) : id + 1 ≠ id + 2 ∧ id + 1 ≠ id ∧ id + 2 ≠ id := by
  grind

theorem mem_fillers {f : Fragment} (hf : f ∈ fillers (id + 1) (id + 2) b) :
    f.InBounds ∧ (f.id = id + 1 ∨ f.id = id + 2) := by
  simp only [fillers, List.mem_cons, List.not_mem_nil, or_false] at hf
  rcases hf with rfl | rfl | rfl
  · exact ⟨filler_inBounds _ _ _, .inl rfl⟩
  · exact ⟨filler_inBounds _ _ _, .inr rfl⟩
  · exact ⟨filler_inBounds _ _ _, .inr rfl⟩

theorem filter_fillers : (fillers (id + 1) (id + 2) b).filter (fun f => f.id = id) = [] := by
  rw [List.filter_eq_nil_iff]
  intro f hf
  obtain ⟨-, h1, h2⟩ := filler_ids id
  rcases (mem_fillers hf).2 with h | h <;> simp [h, h1, h2]

theorem filter_filled (hid : ∀ f ∈ own₁ ++ own₂, f.id = id) :
    (filled id b own₁ own₂).filter (fun f => f.id = id) = own₁ ++ own₂ := by
  rw [filled, List.filter_append, List.filter_append, filter_fillers, List.nil_append,
    ← List.filter_append]
  exact List.filter_eq_self.mpr (by simpa using hid)

theorem filled_inBounds (hb : ∀ f ∈ own₁ ++ own₂, f.InBounds) :
    ∀ f ∈ filled id b own₁ own₂, f.InBounds := by
  intro f hf
  rcases List.mem_append.mp hf with h | h
  · exact hb f (List.mem_append_left _ h)
  · rcases List.mem_append.mp h with h | h
    · exact (mem_fillers h).1
    · exact hb f (List.mem_append_right _ h)

/-- Three ids are too few to fill the database. -/
theorem filled_neverPurged (hid : ∀ f ∈ own₁ ++ own₂, f.id = id)
    (hb : ∀ f ∈ own₁ ++ own₂, f.InBounds) :
    NeverPurged freshReceiver (filled id b own₁ own₂) := by
  have hcard : ({id, id + 1, id + 2} : Finset UInt8).card ≤ packetSpaces :=
    le_trans Finset.card_le_three (by decide)
  refine neverPurged_of_few refines_fresh hcard (fun _ _ => rfl) (filled_inBounds hb) ?_
  intro f hf
  simp only [Finset.mem_insert, Finset.mem_singleton]
  rcases List.mem_append.mp hf with h | h
  · exact .inl (hid f (List.mem_append_left _ h))
  · rcases List.mem_append.mp h with h | h
    · exact .inr (mem_fillers h).2
    · exact .inl (hid f (List.mem_append_right _ h))

/-- Where a packet that leaves byte `p` out is completed, the fillers decide the byte. -/
theorem filled_delivers {g : List Fragment} {p : ℕ} (hid : ∀ f ∈ own₁ ++ own₂, f.id = id)
    (hb : ∀ f ∈ own₁ ++ own₂, f.InBounds) (hclosed : assemblyAfter none own₁ = none)
    (hg : (packets [] own₂).head? = some g) (hp : p ≤ packetBytes) (hlt : p < dataLength g)
    (hlen : dataLength g < 2 ^ 32) (hn : ∀ f ∈ g, ¬f.Covers p) :
    ∃ n, ∀ b, byteOf (viewsOf id freshReceiver (filled id b own₁ own₂)) n p = some b := by
  have hw : Waiting [] := fun _ h => by cases h
  have hid₁ : ∀ f ∈ own₁, f.id = id := fun f hf => hid f (List.mem_append_left _ hf)
  have hid₂ : ∀ f ∈ own₂, f.id = id := fun f hf => hid f (List.mem_append_right _ hf)
  have hb₁ : ∀ f ∈ own₁, f.InBounds := fun f hf => hb f (List.mem_append_left _ hf)
  have hb₂ : ∀ f ∈ own₂, f.InBounds := fun f hf => hb f (List.mem_append_right _ hf)
  obtain ⟨n, hdel⟩ := Stale.delivered (i := 18) hw hid₂ hb₂ hg hlt hlen hn
  refine ⟨own₁.length + n, fun b => ?_⟩
  obtain ⟨hp₁, hp₂⟩ := neverPurged_append.mp (filled_neverPurged (b := b) hid hb)
  -- so far only `id` has sent anything, and its last packet is complete
  have hnone : ∀ i, (after freshReceiver own₁).infoAddr i = none := by
    have hR := after_refines refines_fresh hb₁ hp₁
    intro i
    by_contra hne
    obtain ⟨c, hc⟩ := Option.ne_none_iff_exists'.mp hne
    refine hR.closed c.id ?_ i c hc rfl
    by_cases hci : c.id = id
    · rw [List.filter_eq_self.mpr (by simpa [hci] using hid₁), hclosed]
    · have hf : own₁.filter (fun f => f.id = c.id) = [] :=
        List.filter_eq_nil_iff.mpr fun f hf => by simpa [hid₁ f hf] using Ne.symm hci
      rw [hf]
      rfl
  obtain ⟨hjk, hj, -⟩ := filler_ids id
  have hstale : Stale id 18 p b (after (after freshReceiver own₁) (fillers (id + 1) (id + 2) b)) :=
    stale_fillers hnone hjk hj hp
  have hR := after_refines (refines_none hnone) (fun f hf => (mem_fillers hf).1)
    (neverPurged_append.mp hp₂).1
  obtain ⟨length, bytes, hv, hbyte⟩ := hdel _ _ b hR (by rw [filter_fillers]; rfl) hstale
  have hlen₁ : (viewsOf id freshReceiver own₁).length = own₁.length := by
    rw [viewsOf_length, List.filter_eq_self.mpr (by simpa using hid₁)]
  have hnil : ∀ r, viewsOf id r (fillers (id + 1) (id + 2) b) = [] := by
    intro r
    rw [← List.length_eq_zero_iff, viewsOf_length, filter_fillers]
    rfl
  rw [byteOf, filled, viewsOf_append, viewsOf_append, hnil, List.nil_append,
    List.getElem?_append_right (by omega), hlen₁, Nat.add_sub_cancel_left, hv]
  exact hbyte

end Interleaving

/-- A packet that leaves a byte out shows which byte another id left there: two runs
that differ in the fillers before it have different results. -/
theorem not_independent {own g : List Fragment} {id : UInt8} (hid : ∀ f ∈ own, f.id = id)
    (hb : ∀ f ∈ own, f.InBounds) (hg : g ∈ packets [] own) (hc : ¬Covering g) :
    ¬Independent id own := by
  intro hall
  have hw : Waiting [] := fun _ h => by cases h
  obtain ⟨hcount, hmem⟩ := packets_spec hw hg
  have hbg : ∀ f ∈ g, f.InBounds := fun f hf => hb f ((hmem f hf).resolve_left List.not_mem_nil)
  have hlen : dataLength g < 2 ^ 32 := by
    have := dataLength_le hbg
    simp only [packetBytes] at this
    omega
  obtain ⟨p, hp, hlt, hn⟩ := exists_uncovered hbg hc
  obtain ⟨own₁, own₂, rfl, hclosed, hhead⟩ : ∃ own₁ own₂, own = own₁ ++ own₂ ∧
      assemblyAfter none own₁ = none ∧ (packets [] own₂).head? = some g := by
    rcases packets_split hw hg with h | h
    · exact ⟨[], own, rfl, rfl, h⟩
    · exact h
  obtain ⟨n, hbyte⟩ := filled_delivers hid hb hclosed hhead hp hlt hlen hn
  -- both runs would deliver the byte of the run of `id` alone
  have heq : ∀ b, byteOf (viewsOf id freshReceiver (own₁ ++ own₂)) n p = some b := by
    intro b
    rw [← hbyte b, hall _ (filled_inBounds hb) (filled_neverPurged hid hb) (filter_filled hid)]
  exact absurd ((heq 0).symm.trans (heq 1)) (by decide)

/-- Other ids make no difference to the results of an id exactly if each of its
packets covers all the bytes that are handed over with it. -/
theorem independent_iff_covering {own : List Fragment} {id : UInt8} (hid : ∀ f ∈ own, f.id = id)
    (hb : ∀ f ∈ own, f.InBounds) :
    Independent id own ↔ ∀ g ∈ packets [] own, Covering g := by
  constructor
  · intro hall g hg
    by_contra hc
    exact not_independent hid hb hg hc hall
  · intro hc fs hfs hp hown
    rw [← hown] at hc ⊢
    exact results_eq_alone hfs hp id hc

/-- A packet whose two fragments follow each other, and one whose first byte is left out. -/
theorem independent_pair :
    Independent 5 [⟨5, 0, 2, 0, [1]⟩, ⟨5, 1, 2, 1, [2]⟩] ∧
      ¬Independent 5 [⟨5, 0, 2, 1, [1]⟩, ⟨5, 1, 2, 1, [2]⟩] :=
  ⟨(independent_iff_covering (by decide) (by decide)).mpr (by decide),
    fun h => absurd ((independent_iff_covering (by decide) (by decide)).mp h) (by decide)⟩

/-- Both fragments of a packet of id 5 write the second byte; the first one comes
from the packet of id 3 that had the slot before. -/
theorem stale_byte_delivered :
    ¬∀ fs : List Fragment, (∀ f ∈ fs, f.InBounds) → NeverPurged freshReceiver fs → ∀ id,
      viewsOf id freshReceiver fs =
        viewsOf id freshReceiver (fs.filter fun f => f.id = id) := by
  intro h
  have h5 := h [⟨3, 0, 2, 0, [9]⟩, ⟨3, 1, 2, 1, [9]⟩, ⟨5, 0, 2, 1, [1]⟩, ⟨5, 1, 2, 1, [2]⟩]
    (by decide) (by decide) 5
  revert h5
  decide

end AuroraRelay.FragmentReceiver
