import AuroraRelay.Reassembly

namespace AuroraRelay.FragmentReceiver
open Memory

/-- What a caller gets to see: the status and, with a packet, its length and that
many bytes of the buffer. -/
abbrev View := Status × Option (UInt32 × List UInt8)

def ReceiveResult.view (res : ReceiveResult) : View :=
  match res.packetAddress, res.infoAddress with
  | some buffer, some info => (res.status, some (info.length, load buffer 0 info.length.toNat))
  | _, _ => (res.status, none)

def viewsOf (id : UInt8) : Receiver → List Fragment → List View
  | _, [] => []
  | r, f :: fs =>
    let (r', res) := receive r f
    if f.id = id then res.view :: viewsOf id r' fs else viewsOf id r' fs

def NeverPurged : Receiver → List Fragment → Prop
  | _, [] => True
  | r, f :: fs => ¬Full r f ∧ NeverPurged (receive r f).1 fs

instance decidableNeverPurged : ∀ r fs, Decidable (NeverPurged r fs)
  | _, [] => .isTrue trivial
  | r, f :: fs => @instDecidableAnd _ _ _ (decidableNeverPurged (receive r f).1 fs)

/-- How many fragments a header announces: the count-down wraps at zero. -/
def Fragment.announced (f : Fragment) : ℕ := if f.total = 0 then 256 else f.total.toNat

/-- The completed packets, each with its fragments in order of arrival: as many as
the first of them announced.  `current` are the fragments of the open one. -/
def packets : List Fragment → List Fragment → List (List Fragment)
  | _, [] => []
  | current, f :: fs =>
    if f.total = 1 then packets current fs
    else
      let current := current ++ [f]
      if (current.headD f).announced = current.length then current :: packets [] fs
      else packets current fs

def Fragment.Covers (f : Fragment) (p : ℕ) : Prop :=
  f.offset.toNat ≤ p ∧ p < f.offset.toNat + f.data.length

instance (f : Fragment) (p : ℕ) : Decidable (f.Covers p) := inferInstanceAs (Decidable (_ ∧ _))

def dataLength (fs : List Fragment) : ℕ := (fs.map fun f => f.data.length).sum

/-- The fragments of a packet leave no byte out. -/
def Covering (fs : List Fragment) : Prop := ∀ p < dataLength fs, ∃ f ∈ fs, f.Covers p

instance (fs : List Fragment) : Decidable (Covering fs) := inferInstanceAs (Decidable (∀ _, _ → _))

def gathered : List Fragment → Option Assembly
  | [] => none
  | f :: fs => some (fs.foldl Assembly.extend (Assembly.opened f))

def Waiting (current : List Fragment) : Prop :=
  ∀ f ∈ current.head?, current.length < f.announced

theorem extends_remaining (a : Assembly) (fs : List Fragment) :
    (fs.foldl Assembly.extend a).remaining = a.remaining - UInt8.ofNat fs.length := by
  induction fs generalizing a with
  | nil => simp
  | cons f fs ih =>
    rw [List.foldl_cons, ih, List.length_cons, UInt8.ofNat_add]
    change a.remaining - 1 - UInt8.ofNat fs.length = a.remaining - (UInt8.ofNat fs.length + 1)
    grind

theorem extends_length (a : Assembly) (fs : List Fragment) :
    (fs.foldl Assembly.extend a).length = a.length + UInt32.ofNat (dataLength fs) := by
  induction fs generalizing a with
  | nil => simp [dataLength]
  | cons f fs ih =>
    rw [List.foldl_cons, ih]
    simp only [Assembly.extend, dataLength, List.map_cons, List.sum_cons, UInt32.ofNat_add,
      UInt32.add_assoc]

theorem patch_isSome (f : Fragment) (w : ℕ → Option UInt8) (p : ℕ) :
    (f.patch w p).isSome ↔ f.Covers p ∨ (w p).isSome := by
  by_cases h : f.Covers p
  · have hlt : p - f.offset.toNat < f.data.length := by
      have := h.1
      have := h.2
      omega
    simp [Fragment.patch, if_pos (show _ ∧ _ from h), h, hlt]
  · simp [Fragment.patch, if_neg (show ¬(_ ∧ _) from h), h]

theorem extends_written (a : Assembly) (fs : List Fragment) (p : ℕ) :
    ((fs.foldl Assembly.extend a).written p).isSome ↔
      (a.written p).isSome ∨ ∃ f ∈ fs, f.Covers p := by
  induction fs generalizing a with
  | nil => simp
  | cons f fs ih =>
    rw [List.foldl_cons, ih, Assembly.extend, patch_isSome]
    simp only [List.mem_cons, exists_eq_or_imp]
    tauto

/-- The known bytes of an assembly are those its fragments cover. -/
theorem gathered_spec {current : List Fragment} {a : Assembly} (h : gathered current = some a) :
    a.length = UInt32.ofNat (dataLength current) ∧
      ∀ p, (a.written p).isSome ↔ ∃ f ∈ current, f.Covers p := by
  cases current with
  | nil => cases h
  | cons f fs =>
    obtain rfl := Option.some.inj h
    refine ⟨?_, fun p => ?_⟩
    · rw [extends_length]
      simp [Assembly.opened, dataLength, UInt32.ofNat_add]
    · rw [extends_written, Assembly.opened, patch_isSome]
      simp

theorem announced_le (f : Fragment) : f.announced ≤ 256 := by
  have := f.total.toNat_lt
  unfold Fragment.announced
  split_ifs <;> omega

theorem total_toNat (f : Fragment) : f.total.toNat = f.announced % 256 := by
  unfold Fragment.announced
  split_ifs with h0
  · simp [h0]
  · exact (Nat.mod_eq_of_lt f.total.toNat_lt).symm

/-- The count-down reaches zero exactly with the last fragment announced. -/
theorem remaining_eq_zero_iff {f g : Fragment} {fs : List Fragment}
    (hlt : (f :: fs).length < f.announced) :
    (((fs.foldl Assembly.extend (Assembly.opened f)).extend g).remaining = 0) ↔
      f.announced = (f :: fs ++ [g]).length := by
  have hr : ((fs.foldl Assembly.extend (Assembly.opened f)).extend g).remaining =
      f.total - 1 - UInt8.ofNat fs.length - 1 := by
    simp only [Assembly.extend, extends_remaining, Assembly.opened]
  have hle := announced_le f
  rw [hr, ← UInt8.toNat_inj]
  simp only [UInt8.toNat_sub, UInt8.toNat_ofNat', total_toNat, List.length_cons,
    List.length_append, UInt8.toNat_one, UInt8.toNat_zero, List.length_nil] at hlt ⊢
  omega

/-- The first fragment of a packet. -/
theorem arrive_gathered_nil {f : Fragment} (ht : f.total ≠ 1) :
    Assembly.arrive (gathered []) f = (gathered [f], .waiting) ∧ 1 < f.announced := by
  refine ⟨by simp [Assembly.arrive, gathered, ht], ?_⟩
  unfold Fragment.announced
  split_ifs with h0
  · decide
  · have h0' : f.total.toNat ≠ 0 := fun h => h0 (UInt8.toNat_inj.mp h)
    have h1' : f.total.toNat ≠ 1 := fun h => ht (UInt8.toNat_inj.mp h)
    omega

/-- A further fragment of a packet. -/
theorem arrive_gathered_cons {f g : Fragment} {fs : List Fragment} (ht : g.total ≠ 1)
    (hlt : (f :: fs).length < f.announced) :
    ∃ a, gathered (f :: fs ++ [g]) = some a ∧ Assembly.arrive (gathered (f :: fs)) g =
      if f.announced = (f :: fs ++ [g]).length then (none, .ready a.length a.written)
      else (some a, .waiting) := by
  have hg : gathered (f :: fs ++ [g]) =
      some ((fs.foldl Assembly.extend (Assembly.opened f)).extend g) := by
    simp [gathered]
  refine ⟨_, hg, ?_⟩
  simp only [Assembly.arrive, ht, if_false, gathered, remaining_eq_zero_iff hlt]

/-- What a fragment of the id can do: bounce back, join the open packet or complete it. -/
theorem arrive_gathered_cases {current : List Fragment} (hw : Waiting current) (f : Fragment) :
    (f.total = 1 ∧ (∀ fs, packets current (f :: fs) = packets current fs) ∧
      Assembly.arrive (gathered current) f =
        (gathered current, .ready (UInt32.ofNat f.data.length) fun p => f.data[p]?)) ∨
    (f.total ≠ 1 ∧ Waiting (current ++ [f]) ∧
      (∀ fs, packets current (f :: fs) = packets (current ++ [f]) fs) ∧
      Assembly.arrive (gathered current) f = (gathered (current ++ [f]), .waiting)) ∨
    (f.total ≠ 1 ∧ (∀ fs, packets current (f :: fs) = (current ++ [f]) :: packets [] fs) ∧
      ∃ a, gathered (current ++ [f]) = some a ∧
        Assembly.arrive (gathered current) f = (none, .ready a.length a.written)) := by
  by_cases ht : f.total = 1
  · exact .inl ⟨ht, fun fs => by simp [packets, ht], if_pos ht⟩
  cases current with
  | nil =>
    -- the first of several fragments is never the last one
    obtain ⟨ha, h1⟩ := arrive_gathered_nil ht
    refine .inr (.inl ⟨ht, fun g hg => ?_, fun fs => by simp [packets, ht, h1.ne'], ha⟩)
    obtain rfl := Option.some.inj hg
    exact h1
  | cons g gs =>
    obtain ⟨a, hg, ha⟩ := arrive_gathered_cons ht (hw g rfl)
    have hhead : (g :: gs ++ [f]).headD f = g := rfl
    by_cases hl : g.announced = (g :: gs ++ [f]).length
    · rw [if_pos hl] at ha
      refine .inr (.inr ⟨ht, fun fs => ?_, a, hg, ha⟩)
      simp only [packets, ht, if_false, hhead, if_pos hl]
    · rw [if_neg hl, ← hg] at ha
      refine .inr (.inl ⟨ht, fun k hk => ?_, fun fs => ?_, ha⟩)
      · obtain rfl := Option.some.inj hk
        have := hw g rfl
        rw [List.length_append] at hl ⊢
        simp only [List.length_cons, List.length_nil] at *
        omega
      · simp only [packets, ht, if_false, hhead, if_neg hl]

def Outcome.Known (o : Outcome) : Prop :=
  ∀ length bytes, o = .ready length bytes → ∀ p < length.toNat, (bytes p).isSome

theorem ReceiveResult.Realizes.view_eq {res res' : ReceiveResult} {o : Outcome}
    (h : res.Realizes o) (h' : res'.Realizes o) (hk : o.Known) : res.view = res'.view := by
  cases o with
  | waiting =>
    rw [show res = _ from h, show res' = _ from h']
  | ready length bytes =>
    obtain ⟨buffer, info, rfl, hlen, hb⟩ := h
    obtain ⟨buffer', info', rfl, hlen', hb'⟩ := h'
    have hload : load buffer 0 length.toNat = load buffer' 0 length.toNat := by
      refine load_congr fun p hp => ?_
      obtain ⟨b, hp'⟩ := Option.isSome_iff_exists.mp (hk _ _ rfl p hp)
      rw [Nat.zero_add, hb p b hp', hb' p b hp']
    simp only [ReceiveResult.view, hlen, hlen', hload]

/-- One fragment of the id: the packet that it completes, if any, has all its bytes. -/
theorem arrive_known {current : List Fragment} (hw : Waiting current) (f : Fragment)
    (fs : List Fragment) (hc : ∀ g ∈ packets current (f :: fs), Covering g) :
    (Assembly.arrive (gathered current) f).2.Known ∧
      ∃ current', (Assembly.arrive (gathered current) f).1 = gathered current' ∧
        Waiting current' ∧ ∀ g ∈ packets current' fs, Covering g := by
  rcases arrive_gathered_cases hw f with
    ⟨-, hp, ha⟩ | ⟨-, hw', hp, ha⟩ | ⟨-, hp, a, hg, ha⟩
  · rw [hp] at hc
    rw [ha]
    refine ⟨?_, current, rfl, hw, hc⟩
    rintro _ _ ⟨⟩ p hlt
    rw [UInt32.toNat_ofNat'] at hlt
    simpa using lt_of_lt_of_le hlt (Nat.mod_le _ _)
  · rw [hp] at hc
    rw [ha]
    exact ⟨fun _ _ h => (by cases h), current ++ [f], rfl, hw', hc⟩
  · rw [hp, List.forall_mem_cons] at hc
    obtain ⟨hlen, hwritten⟩ := gathered_spec hg
    rw [ha]
    refine ⟨?_, [], rfl, fun _ h => (by cases h), hc.2⟩
    rintro _ _ ⟨⟩ p hlt
    rw [hlen, UInt32.toNat_ofNat'] at hlt
    exact (hwritten p).mpr (hc.1 p (lt_of_lt_of_le hlt (Nat.mod_le _ _)))

/-- The receiver of a run and one that was fed the fragments of `id` only. -/
structure Alongside (id : UInt8) (current : List Fragment) (r alone : Receiver) : Prop where
  waiting : Waiting current
  refines : ∃ T, Refines r T ∧ T id = gathered current
  alone : ∃ T, Refines alone T ∧ T id = gathered current ∧ ∀ j, j ≠ id → T j = none

/-- Fragments of at most twenty ids never find the database full. -/
theorem Refines.not_full_of_few {r : Receiver} {T : UInt8 → Option Assembly} (h : Refines r T)
    {S : Finset UInt8} (hS : S.card ≤ packetSpaces) (hT : ∀ id, id ∉ S → T id = none)
    {f : Fragment} (hf : f.id ∈ S) : ¬Full r f := by
  intro hfull
  choose c hc hne using hfull.slots
  have hmem : ∀ i, (c i).id ∈ S.erase f.id := by
    intro i
    refine Finset.mem_erase.mpr ⟨hne i, ?_⟩
    by_contra hn
    exact h.closed _ (hT _ hn) i _ (hc i) rfl
  have hcard := Finset.card_le_card_of_injOn (s := Finset.univ) (fun i => (c i).id)
    (fun i _ => hmem i) fun i _ j _ he => h.unique i j _ _ (hc i) (hc j) he
  have hpos := Finset.card_pos.mpr ⟨_, hf⟩
  rw [Finset.card_univ, Fintype.card_fin, Finset.card_erase_of_mem hf] at hcard
  omega

theorem Alongside.not_full {id : UInt8} {current : List Fragment} {r alone : Receiver}
    (h : Alongside id current r alone) {f : Fragment} (hf : f.id = id) : ¬Full alone f := by
  obtain ⟨T, hT, -, hnone⟩ := h.alone
  have hcard : ({id} : Finset UInt8).card ≤ packetSpaces := by
    rw [Finset.card_singleton]
    decide
  exact hT.not_full_of_few hcard (by simpa using hnone) (by simpa using hf)

theorem Alongside.views_eq {id : UInt8} {fs current : List Fragment} {r alone : Receiver}
    (h : Alongside id current r alone) (hb : ∀ f ∈ fs, f.InBounds) (hp : NeverPurged r fs)
    (hc : ∀ g ∈ packets current (fs.filter fun f => f.id = id), Covering g) :
    viewsOf id r fs = viewsOf id alone (fs.filter fun f => f.id = id) := by
  -- the two receivers may use different slots: all they share is the assembly of `id`
  induction fs generalizing current r alone with
  | nil => rfl
  | cons f fs ih =>
    obtain ⟨hbf, hb⟩ := List.forall_mem_cons.mp hb
    obtain ⟨T, hT, hcur⟩ := h.refines
    obtain ⟨hr, hres⟩ := receive_refines hT hbf hp.1
    by_cases hf : f.id = id
    · obtain ⟨T', hT', hcur', hnone⟩ := h.alone
      obtain ⟨hr', hres'⟩ := receive_refines hT' hbf (h.not_full hf)
      have hfilter : (f :: fs).filter (fun f => f.id = id) =
          f :: fs.filter fun f => f.id = id := List.filter_cons_of_pos (by simpa using hf)
      rw [hfilter] at hc
      obtain ⟨hknown, current', hnext, hw', hc'⟩ := arrive_known h.waiting f _ hc
      rw [hf, hcur] at hr hres
      rw [hf, hcur'] at hr' hres'
      have hnext' : Alongside id current' (receive r f).1 (receive alone f).1 :=
        { waiting := hw'
          refines := ⟨_, hr, by rw [Function.update_self, hnext]⟩
          alone := ⟨_, hr', by rw [Function.update_self, hnext],
            fun j hj => by rw [Function.update_of_ne hj, hnone j hj]⟩ }
      simp only [viewsOf, hfilter, if_pos hf]
      rw [hres.view_eq hres' hknown, ih hnext' hb hp.2 hc']
    · have hfilter : (f :: fs).filter (fun f => f.id = id) = fs.filter fun f => f.id = id :=
        List.filter_cons_of_neg (by simpa using hf)
      rw [hfilter] at hc ⊢
      have hnext : Alongside id current (receive r f).1 alone :=
        { h with refines := ⟨_, hr, by rw [Function.update_of_ne (Ne.symm hf), hcur]⟩ }
      simp only [viewsOf, if_neg hf]
      exact ih hnext hb hp.2 hc

/-- If no packet of `id` leaves a byte out, the calls for `id` return what they would
return had no other fragment arrived. -/
theorem results_eq_alone {fs : List Fragment} (hb : ∀ f ∈ fs, f.InBounds)
    (hp : NeverPurged freshReceiver fs) (id : UInt8)
    (hc : ∀ g ∈ packets [] (fs.filter fun f => f.id = id), Covering g) :
    viewsOf id freshReceiver fs =
      viewsOf id freshReceiver (fs.filter fun f => f.id = id) := by
  have h : Alongside id [] freshReceiver freshReceiver :=
    { waiting := fun _ h => by cases h
      refines := ⟨_, refines_fresh, rfl⟩
      alone := ⟨_, refines_fresh, rfl, fun _ _ => rfl⟩ }
  exact h.views_eq hb hp hc

end AuroraRelay.FragmentReceiver
