import AuroraRelay.FragmentReceiver

/-!
# Reassembly, one packet id at a time

The receiver keeps twenty slots; what it is for is simpler.  For each id there is
at most one packet being put together, of which only the bytes written since it
was opened count.  `Assembly.arrive` is that view of one id, with no slots and no
buffers, and `receive_refines` says that the receiver carries it out for all ids
at once as long as it does not run out of slots.
-/

namespace AuroraRelay.FragmentReceiver
open Memory WarpProtocol

structure Fragment where
  id : UInt8
  number : UInt8
  total : UInt8
  offset : UInt16
  data : List UInt8
  deriving DecidableEq

/-- The write stays inside a slot buffer. -/
def Fragment.InBounds (f : Fragment) : Prop := f.offset.toNat + f.data.length ≤ packetBytes

instance (f : Fragment) : Decidable f.InBounds := inferInstanceAs (Decidable (_ ≤ _))

/-- The received buffer: five header bytes, then the data. -/
def Fragment.wire (f : Fragment) : List UInt8 :=
  [f.id, f.number, f.total, ((f.offset >>> 8) &&& 0xff).toUInt8, (f.offset &&& 0xff).toUInt8] ++
    f.data

def receive (r : Receiver) (f : Fragment) : Receiver × ReceiveResult :=
  packetReceive r (fun i => f.wire.getD i 0) (UInt32.ofNat f.wire.length)

def after (r : Receiver) (fs : List Fragment) : Receiver :=
  fs.foldl (fun r f => (receive r f).1) r

def results (r : Receiver) : List Fragment → List ReceiveResult
  | [] => []
  | f :: fs => (receive r f).2 :: results (receive r f).1 fs

theorem after_append (r : Receiver) (fs gs : List Fragment) :
    after r (fs ++ gs) = after (after r fs) gs := List.foldl_append

theorem results_getElem? (r : Receiver) (fs gs : List Fragment) (f : Fragment) :
    (results r (fs ++ f :: gs))[fs.length]? = some (receive (after r fs) f).2 := by
  induction fs generalizing r with
  | nil => rfl
  | cons g fs ih => exact ih (receive r g).1

/-- The database has no slot left for the fragment, so it is going to be purged. -/
def Full (r : Receiver) (f : Fragment) : Prop := f.total ≠ 1 ∧ findPacketId r f.id = none

instance (r : Receiver) (f : Fragment) : Decidable (Full r f) :=
  inferInstanceAs (Decidable (_ ∧ _))

theorem Full.slots {r : Receiver} {f : Fragment} (h : Full r f) :
    ∀ i, ∃ c, r.infoAddr i = some c ∧ c.id ≠ f.id := full_of_not_found h.2

def Fragment.info (f : Fragment) : FragmentInfo := createInfo f.id f.number f.offset f.total

def Fragment.openedInfo (f : Fragment) : FragmentInfo :=
  { f.info with
    length := UInt32.ofNat f.data.length
    totalNumberFragment := f.total - 1
    byteOffset := 0 }

theorem receive_eq (r : Receiver) (f : Fragment) :
    receive r f =
      fragmentArrive r f.info (fun i => f.data.getD i 0) (UInt32.ofNat f.data.length) := by
  have hw : f.wire.length = f.data.length + 5 := by simp [Fragment.wire]
  have hlen : UInt32.ofNat f.wire.length - UInt32.ofNat fragmentInfoLength =
      UInt32.ofNat f.data.length := by
    rw [hw, UInt32.ofNat_add]
    exact UInt32.add_sub_cancel _ _
  change fragmentArrive r (createInfo f.id f.number _ f.total) (fun i => f.data.getD i 0)
    (UInt32.ofNat f.wire.length - UInt32.ofNat fragmentInfoLength) = _
  rw [hlen]
  exact congrArg (fun o => fragmentArrive r (createInfo f.id f.number o f.total) _ _)
    (uint16_of_bytes f.offset)

/-- A packet being put together: how many fragments its first header still waits
for, the sum of the lengths so far, and the bytes written since it was opened. -/
structure Assembly where
  remaining : UInt8
  length : UInt32
  written : ℕ → Option UInt8

def Fragment.patch (f : Fragment) (written : ℕ → Option UInt8) : ℕ → Option UInt8 :=
  fun p => if f.offset.toNat ≤ p ∧ p < f.offset.toNat + f.data.length then
    f.data[p - f.offset.toNat]? else written p

inductive Outcome
  | waiting
  | ready (length : UInt32) (bytes : ℕ → Option UInt8)

namespace Assembly

def opened (f : Fragment) : Assembly where
  remaining := f.total - 1
  length := UInt32.ofNat f.data.length
  written := f.patch fun _ => none

def extend (a : Assembly) (f : Fragment) : Assembly where
  remaining := a.remaining - 1
  length := a.length + UInt32.ofNat f.data.length
  written := f.patch a.written

/-- The effect of a fragment on the assembly of its id. -/
def arrive (a : Option Assembly) (f : Fragment) : Option Assembly × Outcome :=
  if f.total = 1 then (a, .ready (UInt32.ofNat f.data.length) fun p => f.data[p]?)
  else
    match a with
    | none => (some (opened f), .waiting)
    | some a =>
      if (a.extend f).remaining = 0 then (none, .ready (a.extend f).length (a.extend f).written)
      else (some (a.extend f), .waiting)

end Assembly

/-- A result agrees with an outcome: where the outcome knows a byte, the returned
buffer has it. -/
def ReceiveResult.Realizes (res : ReceiveResult) : Outcome → Prop
  | .waiting => res = ⟨.waitingForFragment, none, none⟩
  | .ready length bytes => ∃ buffer info, res = ⟨.readyToSend, some buffer, some info⟩ ∧
      info.length = length ∧ ∀ p b, bytes p = some b → buffer p = b

structure Holds (r : Receiver) (i : Fin packetSpaces) (id : UInt8) (a : Assembly) : Prop where
  info : ∃ c, r.infoAddr i = some c ∧ c.id = id ∧ c.totalNumberFragment = a.remaining ∧
    c.length = a.length
  inside : ∀ p b, a.written p = some b → p < packetBytes
  bytes : ∀ p b, a.written p = some b → slotAddress r i p = b

/-- The receiver keeps the assemblies `T`, one slot for each open id. -/
structure Refines (r : Receiver) (T : UInt8 → Option Assembly) : Prop where
  unique : ∀ i j c d, r.infoAddr i = some c → r.infoAddr j = some d → c.id = d.id → i = j
  closed : ∀ id, T id = none → ∀ i c, r.infoAddr i = some c → c.id ≠ id
  opened : ∀ id a, T id = some a → ∃ i, Holds r i id a

theorem refines_none {r : Receiver} (h : ∀ i, r.infoAddr i = none) :
    Refines r fun _ => none where
  unique i j c d hc := by simp [h i] at hc
  closed _ _ i c hc := by simp [h i] at hc
  opened id a ha := by cases ha

theorem refines_fresh : Refines freshReceiver fun _ => none := refines_none fun _ => rfl

theorem refines_purge (r : Receiver) : Refines (purgeDatabase r) fun _ => none :=
  refines_none fun i => by rw [purgeDatabase_eq]

/-- The slot of an open id is found, so its fragments never find the database full. -/
theorem Refines.not_full {r : Receiver} {T : UInt8 → Option Assembly} (h : Refines r T)
    {f : Fragment} {a : Assembly} (hT : T f.id = some a) : ¬Full r f := by
  intro hf
  obtain ⟨i, hi⟩ := h.opened f.id a hT
  obtain ⟨c, hc, hid, -⟩ := hi.info
  obtain ⟨d, hd, hne⟩ := hf.slots i
  rw [hc] at hd
  exact hne (Option.some.inj hd ▸ hid)

theorem patch_some {f : Fragment} {w : ℕ → Option UInt8} {p : ℕ} {b : UInt8}
    (h : f.patch w p = some b) :
    (f.offset.toNat ≤ p ∧ p < f.offset.toNat + f.data.length ∧
      f.data[p - f.offset.toNat]? = some b) ∨
    (¬(f.offset.toNat ≤ p ∧ p < f.offset.toNat + f.data.length) ∧ w p = some b) := by
  by_cases hp : f.offset.toNat ≤ p ∧ p < f.offset.toNat + f.data.length
  · rw [Fragment.patch, if_pos hp] at h
    exact .inl ⟨hp.1, hp.2, h⟩
  · rw [Fragment.patch, if_neg hp] at h
    exact .inr ⟨hp, h⟩

section Copy

variable {r : Receiver} {f : Fragment} {found : Fin packetSpaces}

def Receiver.place (r : Receiver) (found : Fin packetSpaces) (f : Fragment)
    (info : Option FragmentInfo) : Receiver :=
  updateDatabase (copyFragment r found f.offset (fun i => f.data.getD i 0)
    (UInt32.ofNat f.data.length)) found info

theorem dataLength_toNat (hb : f.InBounds) :
    (UInt32.ofNat f.data.length).toNat = f.data.length := by
  have h : f.offset.toNat + f.data.length ≤ 2048 := hb
  rw [UInt32.toNat_ofNat']
  exact Nat.mod_eq_of_lt (by omega)

theorem place_slot (hb : f.InBounds) (info : Option FragmentInfo) (j : Fin packetSpaces)
    (p : ℕ) :
    slotAddress (r.place found f info) j p =
      store r.packetAddresses (2048 * found.val + f.offset.toNat) (fun i => f.data.getD i 0)
        f.data.length (2048 * j.val + p) := by
  rw [← dataLength_toNat hb]
  rfl

theorem place_slot_other (hb : f.InBounds) (info : Option FragmentInfo) {j : Fin packetSpaces}
    (hj : j ≠ found) {p : ℕ} (hp : p < packetBytes) :
    slotAddress (r.place found f info) j p = slotAddress r j p := by
  have h : f.offset.toNat + f.data.length ≤ 2048 := hb
  have hp' : p < 2048 := hp
  have hne : j.val ≠ found.val := fun he => hj (Fin.ext he)
  rw [place_slot hb, store_outside (by omega)]
  rfl

theorem place_slot_outside (hb : f.InBounds) (info : Option FragmentInfo) {p : ℕ}
    (hp : ¬(f.offset.toNat ≤ p ∧ p < f.offset.toNat + f.data.length)) :
    slotAddress (r.place found f info) found p = slotAddress r found p := by
  rw [place_slot hb, store_outside (by omega)]
  rfl

theorem place_slot_inside (hb : f.InBounds) (info : Option FragmentInfo) {p : ℕ} {b : UInt8}
    (h1 : f.offset.toNat ≤ p) (h2 : p < f.offset.toNat + f.data.length)
    (hd : f.data[p - f.offset.toNat]? = some b) :
    slotAddress (r.place found f info) found p = b := by
  rw [place_slot hb, store_inside (by omega) (by omega), Nat.add_sub_add_left,
    List.getD_eq_getElem?_getD, hd]
  rfl

@[simp] theorem place_info_same (info : Option FragmentInfo) :
    (r.place found f info).infoAddr found = info := Function.update_self _ _ _

theorem place_info_other (info : Option FragmentInfo) {j : Fin packetSpaces} (hj : j ≠ found) :
    (r.place found f info).infoAddr j = r.infoAddr j := Function.update_of_ne hj _ _

theorem Holds.place_other {j : Fin packetSpaces} {id : UInt8} {a : Assembly}
    (h : Holds r j id a) (hb : f.InBounds) (info : Option FragmentInfo) (hj : j ≠ found) :
    Holds (r.place found f info) j id a where
  info := by rw [place_info_other info hj]; exact h.info
  inside := h.inside
  bytes p b hp := by
    rw [place_slot_other hb info hj (h.inside p b hp)]
    exact h.bytes p b hp

/-- Copying a fragment over a slot whose known bytes are `w` leaves the patched ones. -/
theorem place_bytes (hb : f.InBounds) (info : Option FragmentInfo) {w : ℕ → Option UInt8}
    (hw : ∀ p b, w p = some b → p < packetBytes ∧ slotAddress r found p = b)
    {p : ℕ} {b : UInt8} (hp : f.patch w p = some b) :
    p < packetBytes ∧ slotAddress (r.place found f info) found p = b := by
  rcases patch_some hp with ⟨h1, h2, hd⟩ | ⟨hout, hwp⟩
  · exact ⟨lt_of_lt_of_le h2 hb, place_slot_inside hb info h1 h2 hd⟩
  · rw [place_slot_outside hb info hout]
    exact hw p b hwp

end Copy

theorem Holds.infoAddr_ne {r : Receiver} {i : Fin packetSpaces} {id : UInt8} {a : Assembly}
    (h : Holds r i id a) {j : Fin packetSpaces} (hj : ∀ c, r.infoAddr j = some c → c.id ≠ id) :
    i ≠ j := by
  rintro rfl
  obtain ⟨c, hc, hid, -⟩ := h.info
  exact hj c hc hid

/-- Setting the entry of one slot to a header of `id`, or freeing it, keeps the
other ids where they are. -/
theorem Refines.place {r : Receiver} {T : UInt8 → Option Assembly} (h : Refines r T)
    {f : Fragment} (hb : f.InBounds) {found : Fin packetSpaces}
    (hfound : ∀ c, r.infoAddr found = some c → c.id = f.id)
    (hothers : ∀ j c, j ≠ found → r.infoAddr j = some c → c.id ≠ f.id)
    {info : Option FragmentInfo} {a : Option Assembly}
    (hid : ∀ c, info = some c → c.id = f.id)
    (hnone : a = none → info = none)
    (hsome : ∀ a', a = some a' → Holds (r.place found f info) found f.id a') :
    Refines (r.place found f info) (Function.update T f.id a) where
  unique i j c d hc hd he := by
    by_cases hi : i = found <;> by_cases hj : j = found
    · rw [hi, hj]
    · rw [hi, place_info_same] at hc
      rw [place_info_other info hj] at hd
      exact absurd (he.symm.trans (hid c hc)) (hothers j d hj hd)
    · rw [hj, place_info_same] at hd
      rw [place_info_other info hi] at hc
      exact absurd (he.trans (hid d hd)) (hothers i c hi hc)
    · rw [place_info_other info hi] at hc
      rw [place_info_other info hj] at hd
      exact h.unique i j c d hc hd he
  closed id hT i c hc := by
    by_cases hf : id = f.id
    · subst hf
      rw [Function.update_self] at hT
      by_cases hi : i = found
      · rw [hi, place_info_same, hnone hT] at hc
        cases hc
      · rw [place_info_other info hi] at hc
        exact hothers i c hi hc
    · rw [Function.update_of_ne hf] at hT
      by_cases hi : i = found
      · rw [hi, place_info_same] at hc
        exact fun he => hf (he.symm.trans (hid c hc))
      · rw [place_info_other info hi] at hc
        exact h.closed id hT i c hc
  opened id a' hT := by
    by_cases hf : id = f.id
    · subst hf
      rw [Function.update_self] at hT
      exact ⟨found, hsome a' hT⟩
    · rw [Function.update_of_ne hf] at hT
      obtain ⟨i, hi⟩ := h.opened id a' hT
      have hne : i ≠ found := hi.infoAddr_ne fun c hc he => hf (he.symm.trans (hfound c hc))
      exact ⟨i, hi.place_other hb info hne⟩

/-- The first fragment of an id opens its assembly in a free slot. -/
theorem arriveAt_opens {r : Receiver} {T : UInt8 → Option Assembly} (h : Refines r T)
    {f : Fragment} (hb : f.InBounds) {found : Fin packetSpaces}
    (hfree : r.infoAddr found = none) (hnew : ∀ j c, r.infoAddr j = some c → c.id ≠ f.id) :
    arriveAt r f.info (fun i => f.data.getD i 0) (UInt32.ofNat f.data.length) found =
        (r.place found f (some f.openedInfo), ⟨.waitingForFragment, none, none⟩) ∧
      Refines (r.place found f (some f.openedInfo))
        (Function.update T f.id (some (Assembly.opened f))) := by
  have hw : ∀ p b, f.patch (fun _ => none) p = some b → p < packetBytes ∧
      slotAddress (r.place found f (some f.openedInfo)) found p = b :=
    fun p b hp => place_bytes hb _ (fun _ _ h => by cases h) hp
  refine ⟨?_, h.place hb (by simp [hfree]) (fun j c _ => hnew j c) ?_ (by simp) ?_⟩
  · simp only [arriveAt, hfree]
    rfl
  · intro c hc
    rw [← Option.some.inj hc]
    rfl
  · intro a' ha
    rw [← Option.some.inj ha]
    exact ⟨⟨_, place_info_same _, rfl, rfl, rfl⟩, fun p b hp => (hw p b hp).1,
      fun p b hp => (hw p b hp).2⟩

/-- A further fragment extends the assembly, and closes it when none remains. -/
theorem arriveAt_extends {r : Receiver} {T : UInt8 → Option Assembly} (h : Refines r T)
    {f : Fragment} (hb : f.InBounds) {found : Fin packetSpaces} {a : Assembly}
    (hT : T f.id = some a) {c : FragmentInfo} (hc : r.infoAddr found = some c)
    (hid : c.id = f.id) (ht : f.total ≠ 1) :
    Refines (arriveAt r f.info (fun i => f.data.getD i 0) (UInt32.ofNat f.data.length) found).1
        (Function.update T f.id (Assembly.arrive (some a) f).1) ∧
      (arriveAt r f.info (fun i => f.data.getD i 0) (UInt32.ofNat f.data.length) found).2.Realizes
        (Assembly.arrive (some a) f).2 := by
  obtain ⟨i, hi⟩ := h.opened f.id a hT
  obtain ⟨c', hc', hid', htot, hlen⟩ := hi.info
  -- an id has one slot, so the slot found is the one that holds the assembly
  have hif : i = found := h.unique i found c' c hc' hc (hid'.trans hid.symm)
  subst hif
  rw [hc] at hc'
  cases hc'
  have hothers : ∀ j d, j ≠ i → r.infoAddr j = some d → d.id ≠ f.id :=
    fun j d hj hd he => hj (h.unique j i d c hd hc (he.trans hid.symm))
  have hfound : ∀ d, r.infoAddr i = some d → d.id = f.id := by
    intro d hd
    rw [hc] at hd
    exact Option.some.inj hd ▸ hid
  have hw : ∀ (info : Option FragmentInfo) p b, (a.extend f).written p = some b →
      p < packetBytes ∧ slotAddress (r.place i f info) i p = b :=
    fun info p b hp => place_bytes hb info (fun q d hq => ⟨hi.inside q d hq, hi.bytes q d hq⟩) hp
  by_cases hz : (a.extend f).remaining = 0
  · have hz' : c.totalNumberFragment - 1 = 0 := by rw [htot]; exact hz
    have ha : Assembly.arrive (some a) f =
        (none, .ready (a.extend f).length (a.extend f).written) := by
      simp [Assembly.arrive, ht, hz]
    have hr : arriveAt r f.info (fun i => f.data.getD i 0) (UInt32.ofNat f.data.length) i =
        (r.place i f none, ⟨.readyToSend, some (slotAddress (r.place i f none) i),
          some { c with
            length := c.length + UInt32.ofNat f.data.length
            totalNumberFragment := c.totalNumberFragment - 1 }⟩) := by
      simp only [arriveAt, hc, hz', if_true]
      rfl
    rw [ha, hr]
    refine ⟨h.place hb hfound hothers (by simp) (by simp) (by simp), _, _, rfl, ?_, ?_⟩
    · exact congrArg (· + _) hlen
    · exact fun p b hp => (hw none p b hp).2
  · have hz' : ¬c.totalNumberFragment - 1 = 0 := by rw [htot]; exact hz
    have ha : Assembly.arrive (some a) f = (some (a.extend f), .waiting) := by
      simp [Assembly.arrive, ht, hz]
    have hr : arriveAt r f.info (fun i => f.data.getD i 0) (UInt32.ofNat f.data.length) i =
        (r.place i f (some { c with
            length := c.length + UInt32.ofNat f.data.length
            totalNumberFragment := c.totalNumberFragment - 1 }),
          ⟨.waitingForFragment, none, none⟩) := by
      simp only [arriveAt, hc, hz', if_false]
      rfl
    rw [ha, hr]
    refine ⟨h.place hb hfound hothers ?_ (by simp) ?_, rfl⟩
    · intro d hd
      rw [← Option.some.inj hd]
      exact hid
    · intro a' ha'
      rw [← Option.some.inj ha']
      exact ⟨⟨_, place_info_same _, hid, congrArg (· - 1) htot, congrArg (· + _) hlen⟩,
        fun p b hp => (hw none p b hp).1, fun p b hp => (hw _ p b hp).2⟩

/-- One call carries out `Assembly.arrive` for the fragment's id and changes no
other id, unless it finds the database full. -/
theorem receive_refines {r : Receiver} {T : UInt8 → Option Assembly} (h : Refines r T)
    {f : Fragment} (hb : f.InBounds) (hfull : ¬Full r f) :
    Refines (receive r f).1 (Function.update T f.id (Assembly.arrive (T f.id) f).1) ∧
      (receive r f).2.Realizes (Assembly.arrive (T f.id) f).2 := by
  rw [receive_eq]
  by_cases ht : f.total = 1
  · have ha : Assembly.arrive (T f.id) f =
        (T f.id, .ready (UInt32.ofNat f.data.length) fun p => f.data[p]?) := if_pos ht
    rw [fragmentArrive_single (by exact ht), ha, Function.update_eq_self]
    refine ⟨h, _, _, rfl, rfl, fun p b hp => ?_⟩
    simp only [List.getD_eq_getElem?_getD, hp]
    rfl
  · have hnf : findPacketId r f.id ≠ none := fun hn => hfull ⟨ht, hn⟩
    rcases findPacketId_cases r f.id with ⟨i, c, hf, hc, hid⟩ | ⟨i, hf, hn, hnew⟩ | ⟨hf, -⟩
    · rw [fragmentArrive_found (by exact ht) hf]
      cases hT : T f.id with
      | none => exact absurd hid (h.closed f.id hT i c hc)
      | some a => exact arriveAt_extends h hb hT hc hid ht
    · rw [fragmentArrive_found (by exact ht) hf]
      have hT : T f.id = none := by
        cases hT : T f.id with
        | none => rfl
        | some a =>
          obtain ⟨j, hj⟩ := h.opened f.id a hT
          obtain ⟨c, hc, hid, -⟩ := hj.info
          exact absurd hid (hnew j c hc)
      obtain ⟨hr, href⟩ := arriveAt_opens h hb hn hnew
      have ha : Assembly.arrive (T f.id) f = (some (Assembly.opened f), .waiting) := by
        simp [Assembly.arrive, ht, hT]
      rw [hr, ha]
      exact ⟨href, rfl⟩
    · exact absurd hf hnf

/-- A full database is purged, and the fragment opens the only assembly. -/
theorem receive_full {r : Receiver} {f : Fragment} (hfull : Full r f) :
    receive r f = receive (purgeDatabase r) f ∧ ¬Full (purgeDatabase r) f := by
  refine ⟨?_, ?_⟩
  · rw [receive_eq, receive_eq]
    exact fragmentArrive_full hfull.1 hfull.2
  · obtain ⟨i, hi⟩ := findPacketId_purgeDatabase r f.id
    rintro ⟨-, hn⟩
    simp [hi] at hn

/-- The first fragment of an id always opens an assembly, at the price of all the
others when the database is full. -/
theorem receive_opens {r : Receiver} {T : UInt8 → Option Assembly} (h : Refines r T)
    {f : Fragment} (hb : f.InBounds) (ht : f.total ≠ 1) (hT : T f.id = none) :
    ∃ T', (∀ id a, T' id = some a → T id = some a) ∧
      Refines (receive r f).1 (Function.update T' f.id (some (Assembly.opened f))) ∧
      (receive r f).2 = ⟨.waitingForFragment, none, none⟩ := by
  have ha : Assembly.arrive none f = (some (Assembly.opened f), .waiting) := by
    simp [Assembly.arrive, ht]
  by_cases hfull : Full r f
  · obtain ⟨he, hnf⟩ := receive_full hfull
    have hs := receive_refines (refines_purge r) hb hnf
    rw [he]
    rw [ha] at hs
    exact ⟨fun _ => none, fun id a h => (by cases h), hs⟩
  · have hs := receive_refines h hb hfull
    rw [hT, ha] at hs
    exact ⟨T, fun _ _ h => h, hs⟩

end AuroraRelay.FragmentReceiver
