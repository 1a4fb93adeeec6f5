import AuroraRelay.FragmentReceiver

namespace AuroraRelay.FragmentReceiver
open Memory WarpProtocol

section Header

variable (packetBuffer : ℕ → UInt8)

def byteOffset : UInt16 :=
  ((packetBuffer fragmentByteOffsetMsb).toUInt16 <<< 8) +
    (packetBuffer fragmentByteOffsetLsb).toUInt16

def header : FragmentInfo :=
  createInfo (packetBuffer fragmentIdIndex) (packetBuffer fragmentNumberIndex)
    (byteOffset packetBuffer) (packetBuffer fragmentTotalNumberIndex)

def fragmentData : ℕ → UInt8 := fun i => packetBuffer (i + fragmentInfoLength)

end Header

def nextInfo (newInfo : FragmentInfo) (dataLength : UInt32) :
    Option FragmentInfo → Option FragmentInfo
  | none => some { newInfo with
      length := dataLength
      totalNumberFragment := newInfo.totalNumberFragment - 1
      byteOffset := 0 }
  | some previousInfo =>
    if previousInfo.totalNumberFragment - 1 = 0 then none
    else some { previousInfo with
      length := previousInfo.length + dataLength
      totalNumberFragment := previousInfo.totalNumberFragment - 1 }

theorem arriveAt_fst (r : Receiver) (newInfo : FragmentInfo) (newPacket : ℕ → UInt8)
    (dataLength : UInt32) (found : Fin packetSpaces) :
    (arriveAt r newInfo newPacket dataLength found).1 =
      updateDatabase (copyFragment r found newInfo.byteOffset newPacket dataLength) found
        (nextInfo newInfo dataLength (r.infoAddr found)) := by
  cases hc : r.infoAddr found with
  | none => simp only [arriveAt, hc, nextInfo]
  | some previousInfo =>
    simp only [arriveAt, hc, nextInfo]
    split_ifs <;> rfl

@[simp] theorem updateDatabase_same (r : Receiver) (i : Fin packetSpaces)
    (info : Option FragmentInfo) : (updateDatabase r i info).infoAddr i = info :=
  Function.update_self _ _ _

theorem updateDatabase_other (r : Receiver) {i j : Fin packetSpaces} (h : j ≠ i)
    (info : Option FragmentInfo) : (updateDatabase r i info).infoAddr j = r.infoAddr j :=
  Function.update_of_ne h _ _

@[simp] theorem copyFragment_infoAddr (r : Receiver) (i : Fin packetSpaces) (byteOffset : UInt16)
    (newPacket : ℕ → UInt8) (dataLength : UInt32) :
    (copyFragment r i byteOffset newPacket dataLength).infoAddr = r.infoAddr := rfl

/-- The receiver that has a slot for the id: purged, if the search finds none. -/
def settled (r : Receiver) (id : UInt8) : Receiver :=
  if findPacketId r id = none then purgeDatabase r else r

section Settled

variable {r : Receiver} {id : UInt8} {i j : Fin packetSpaces} {c : FragmentInfo}

theorem settled_of_found (h : findPacketId r id = some i) : settled r id = r :=
  if_neg (by simp [h])

theorem exists_slot (r : Receiver) (id : UInt8) : ∃ i, findPacketId (settled r id) id = some i := by
  cases h : findPacketId r id with
  | none =>
    rw [settled, if_pos h]
    exact findPacketId_purgeDatabase r id
  | some i => exact ⟨i, by rw [settled_of_found h, h]⟩

/-- A purge leaves no entry. -/
theorem settled_of_entry (h : (settled r id).infoAddr j = some c) : settled r id = r := by
  rw [settled] at h ⊢
  split_ifs at h ⊢ with hfull
  · rw [purgeDatabase_eq] at h
    cases h
  · rfl

@[simp] theorem settled_packetAddresses (r : Receiver) (id : UInt8) :
    (settled r id).packetAddresses = r.packetAddresses := by
  rw [settled]
  split_ifs
  · rw [purgeDatabase_eq]
  · rfl

end Settled

variable {r : Receiver} {packetBuffer : ℕ → UInt8} {dataLength : UInt32} {i : Fin packetSpaces}

theorem packetReceive_single (h : (header packetBuffer).totalNumberFragment = 1) :
    (packetReceive r packetBuffer dataLength).1 = r := by
  change (fragmentArrive r (header packetBuffer) _ _).1 = r
  rw [fragmentArrive_single h]

/-- A fragment that does not bounce back is copied into the slot of its id, which gets the
next entry. -/
theorem packetReceive_slot (h : (header packetBuffer).totalNumberFragment ≠ 1)
    (hi : findPacketId (settled r (header packetBuffer).id) (header packetBuffer).id = some i) :
    (packetReceive r packetBuffer dataLength).1 =
      updateDatabase
        (copyFragment (settled r (header packetBuffer).id) i (byteOffset packetBuffer)
          (fragmentData packetBuffer) (dataLength - 5)) i
        (nextInfo (header packetBuffer) (dataLength - 5)
          ((settled r (header packetBuffer).id).infoAddr i)) := by
  change (fragmentArrive r (header packetBuffer) (fragmentData packetBuffer) (dataLength - 5)).1 = _
  cases hf : findPacketId r (header packetBuffer).id with
  | none =>
    have hs : settled r (header packetBuffer).id = purgeDatabase r := if_pos hf
    rw [hs] at hi ⊢
    rw [fragmentArrive_full h hf, fragmentArrive_found h hi, arriveAt_fst]
    rfl
  | some found =>
    rw [settled_of_found hf] at hi ⊢
    rw [fragmentArrive_found h hi, arriveAt_fst]
    rfl

/-- The fragment is not copied, or has no data, or is copied to addresses of one slot. -/
def WritesInside (packetBuffer : ℕ → UInt8) (dataLength : UInt32) : Prop :=
  (header packetBuffer).totalNumberFragment = 1 ∨ dataLength = 5 ∨
    5 ≤ dataLength.toNat ∧ (byteOffset packetBuffer).toNat + (dataLength.toNat - 5) ≤ packetBytes

/-- A call of `packet_receive` that stays inside the slot buffers. -/
structure Call where
  packetBuffer : ℕ → UInt8
  dataLength : UInt32
  inside : WritesInside packetBuffer dataLength

def Call.info (call : Call) : FragmentInfo := header call.packetBuffer

/-- The call is one of the fragments of the id that are counted. -/
def Call.Counts (call : Call) (id : UInt8) : Prop :=
  call.info.id = id ∧ call.info.totalNumberFragment ≠ 1

instance (call : Call) (id : UInt8) : Decidable (call.Counts id) :=
  inferInstanceAs (Decidable (_ ∧ _))

def receiveCall (r : Receiver) (call : Call) : Receiver :=
  (packetReceive r call.packetBuffer call.dataLength).1

def receiveCalls (r : Receiver) (calls : List Call) : Receiver := calls.foldl receiveCall r

structure Opens (r : Receiver) (call : Call) (i : Fin packetSpaces) : Prop where
  several : call.info.totalNumberFragment ≠ 1
  slot : findPacketId (settled r call.info.id) call.info.id = some i
  free : (settled r call.info.id).infoAddr i = none

def NotOpened (i : Fin packetSpaces) : Receiver → List Call → Prop
  | _, [] => True
  | r, call :: calls => ¬Opens r call i ∧ NotOpened i (receiveCall r call) calls

theorem notOpened_concat {calls : List Call} {call : Call} (h : NotOpened i r calls)
    (hcall : ¬Opens (receiveCalls r calls) call i) : NotOpened i r (calls ++ [call]) := by
  induction calls generalizing r with
  | nil => exact ⟨hcall, trivial⟩
  | cons first calls ih => exact ⟨h.1, ih h.2 hcall⟩

theorem receiveCalls_append (r : Receiver) (calls later : List Call) :
    receiveCalls r (calls ++ later) = receiveCalls (receiveCalls r calls) later :=
  List.foldl_append

def UniqueIds (r : Receiver) : Prop :=
  ∀ i j c d, r.infoAddr i = some c → r.infoAddr j = some d → c.id = d.id → i = j

section Step

variable {call : Call} {j : Fin packetSpaces} {c : FragmentInfo}

theorem Opens.fresh (h : Opens r call i) :
    ∀ j c, r.infoAddr j = some c → c.id ≠ call.info.id := by
  intro j c hc
  cases hf : findPacketId r call.info.id with
  | none =>
    obtain ⟨d, hd, hne⟩ := full_of_not_found hf j
    rw [hc] at hd
    exact Option.some.inj hd ▸ hne
  | some k =>
    have hs := settled_of_found hf
    exact fresh_of_found (hs ▸ h.slot) (hs ▸ h.free) j c hc

/-- Only the slot that the search finds can hold the id. -/
theorem id_ne_of_found (hr : UniqueIds r) {id : UInt8} (hi : findPacketId r id = some i)
    (hj : j ≠ i) (hc : r.infoAddr j = some c) : c.id ≠ id := by
  cases hd : r.infoAddr i with
  | none => exact fresh_of_found hi hd j c hc
  | some d => exact fun he => hj (hr j i c d hc hd (he.trans (id_of_found hi hd).symm))

def Comes (r : Receiver) (call : Call) (j : Fin packetSpaces) (c : FragmentInfo) : Prop :=
  (Opens r call j ∧ c.id = call.info.id ∧
    c.totalNumberFragment = call.info.totalNumberFragment - 1) ∨
  (¬Opens r call j ∧ ∃ d, r.infoAddr j = some d ∧ c.id = d.id ∧
    c.totalNumberFragment = d.totalNumberFragment - (if call.Counts d.id then 1 else 0) ∧
    (d.totalNumberFragment ≠ 0 → c.totalNumberFragment ≠ 0))

/-- An entry that the call has not touched. -/
theorem comes_of_kept (hopens : ¬Opens r call j) (hcounts : ¬call.Counts c.id)
    (hc : r.infoAddr j = some c) : Comes r call j c := by
  refine .inr ⟨hopens, c, hc, rfl, ?_, id⟩
  rw [if_neg hcounts]
  exact (UInt8.sub_zero _).symm

theorem comes_of_slot (ht : call.info.totalNumberFragment ≠ 1)
    (hi : findPacketId (settled r call.info.id) call.info.id = some i) {dataLength : UInt32}
    (hc : nextInfo call.info dataLength ((settled r call.info.id).infoAddr i) = some c) :
    Comes r call i c := by
  cases hd : (settled r call.info.id).infoAddr i with
  | none =>
    rw [hd, nextInfo, Option.some.injEq] at hc
    subst hc
    exact .inl ⟨⟨ht, hi, hd⟩, rfl, rfl⟩
  | some d =>
    have hid : d.id = call.info.id := id_of_found hi hd
    have hs := settled_of_entry hd
    rw [hd, nextInfo] at hc
    split_ifs at hc with hz
    rw [Option.some.injEq] at hc
    subst hc
    refine .inr ⟨fun hopens => ?_, d, hs ▸ hd, rfl, ?_, fun _ => hz⟩
    · rw [hopens.free] at hd
      cases hd
    · rw [if_pos ⟨hid.symm, ht⟩]

/-- The call has opened the slot, or the entry was there before and has counted the call if
it is one of its fragments. -/
theorem receiveCall_entry (hr : UniqueIds r) (h : (receiveCall r call).infoAddr j = some c) :
    Comes r call j c := by
  by_cases ht : call.info.totalNumberFragment = 1
  · rw [receiveCall, packetReceive_single ht] at h
    exact comes_of_kept (fun hopens => hopens.several ht) (fun hcounts => hcounts.2 ht) h
  · obtain ⟨i, hi⟩ := exists_slot r call.info.id
    rw [receiveCall, packetReceive_slot ht hi] at h
    by_cases hj : j = i
    · subst hj
      rw [updateDatabase_same] at h
      exact comes_of_slot ht hi h
    · rw [updateDatabase_other _ hj, copyFragment_infoAddr] at h
      have hs := settled_of_entry h
      change settled r call.info.id = r at hs
      rw [hs] at hi
      refine comes_of_kept (fun hopens => hj ?_) (fun hcounts => ?_) (hs ▸ h)
      · exact Option.some.inj ((hs ▸ hopens.slot).symm.trans hi)
      · exact id_ne_of_found hr hi hj (hs ▸ h) hcounts.1.symm

theorem UniqueIds.receiveCall (hr : UniqueIds r) (call : Call) :
    UniqueIds (receiveCall r call) := by
  intro j k c d hc hd he
  rcases receiveCall_entry hr hc with ⟨hj, hcid, -⟩ | ⟨-, c', hc', hcid, -⟩
  · rcases receiveCall_entry hr hd with ⟨hk, -⟩ | ⟨-, d', hd', hdid, -⟩
    · exact Option.some.inj (hj.slot.symm.trans hk.slot)
    · exact absurd (hdid.symm.trans (he.symm.trans hcid)) (hj.fresh k d' hd')
  · rcases receiveCall_entry hr hd with ⟨hk, hdid, -⟩ | ⟨-, d', hd', hdid, -⟩
    · exact absurd (hcid.symm.trans (he.trans hdid)) (hk.fresh j c' hc')
    · exact hr j k c' d' hc' hd' (hcid.symm.trans (he.trans hdid))

end Step

/-- The entry of slot `i` is what the call that opened it announced, less the fragments of
its id since then. -/
structure Accounted (r : Receiver) (calls : List Call) (i : Fin packetSpaces)
    (c : FragmentInfo) : Prop where
  waiting : c.totalNumberFragment ≠ 0
  count : ∃ before opener since, calls = before ++ opener :: since ∧
    Opens (receiveCalls r before) opener i ∧
    NotOpened i (receiveCalls r (before ++ [opener])) since ∧ opener.info.id = c.id ∧
    c.totalNumberFragment = opener.info.totalNumberFragment -
      UInt8.ofNat ((opener :: since).countP fun call => call.Counts c.id)

theorem accounted_concat {calls : List Call} {call : Call} {c : FragmentInfo}
    (hc : Comes (receiveCalls r calls) call i c)
    (h : ∀ d, (receiveCalls r calls).infoAddr i = some d → Accounted r calls i d) :
    Accounted r (calls ++ [call]) i c := by
  rcases hc with ⟨hopens, hid, htotal⟩ | ⟨hopens, d, hd, hid, htotal, hwaiting⟩
  · refine ⟨?_, calls, call, [], rfl, hopens, trivial, hid.symm, ?_⟩
    · rw [htotal]
      have hseveral := hopens.several
      grind
    · have hcounts : call.Counts c.id := ⟨hid.symm, hopens.several⟩
      rw [htotal, List.countP_singleton, if_pos (decide_eq_true hcounts)]
      rfl
  · obtain ⟨hne, before, opener, since, rfl, hopened, hsince, hopener, hcount⟩ := h d hd
    refine ⟨hwaiting hne, before, opener, since ++ [call], by simp, hopened, ?_, ?_, ?_⟩
    · refine notOpened_concat hsince ?_
      rwa [← receiveCalls_append, List.append_assoc]
    · rw [hid, hopener]
    · rw [htotal, hcount, hid, ← List.cons_append, List.countP_append, List.countP_singleton,
        UInt8.ofNat_add]
      by_cases hcounts : call.Counts d.id
      · rw [if_pos hcounts, if_pos (decide_eq_true hcounts)]
        grind
      · rw [if_neg hcounts, if_neg (mt of_decide_eq_true hcounts)]
        grind

def reached (r : Receiver) (calls : List Call) : Receiver :=
  receiveCalls (initializeReceiver r) calls

theorem reached_concat (r : Receiver) (calls : List Call) (call : Call) :
    reached r (calls ++ [call]) = receiveCall (reached r calls) call :=
  receiveCalls_append _ calls [call]

theorem uniqueIds_reached (r : Receiver) (calls : List Call) : UniqueIds (reached r calls) := by
  induction calls using List.reverseRecOn with
  | nil =>
    intro i j c d hc
    cases hc
  | append_singleton calls call ih =>
    rw [reached_concat]
    exact ih.receiveCall call

theorem accounted_reached (r : Receiver) (calls : List Call) {c : FragmentInfo}
    (h : (reached r calls).infoAddr i = some c) : Accounted (initializeReceiver r) calls i c := by
  induction calls using List.reverseRecOn generalizing c with
  | nil => cases h
  | append_singleton calls call ih =>
    rw [reached_concat] at h
    exact accounted_concat (receiveCall_entry (uniqueIds_reached r calls) h) fun d hd => ih hd

def Purges (r : Receiver) (packetBuffer : ℕ → UInt8) : Prop :=
  (header packetBuffer).totalNumberFragment ≠ 1 ∧
    findPacketId r (header packetBuffer).id = none

instance (r : Receiver) (packetBuffer : ℕ → UInt8) : Decidable (Purges r packetBuffer) :=
  inferInstanceAs (Decidable (_ ∧ _))

def Call.arrive (call : Call) (fuel : ℕ) (r : Receiver) : Option (Receiver × ReceiveResult) :=
  fragmentArriveFuel fuel r call.info (fragmentData call.packetBuffer) (call.dataLength - 5)

/-- The first call of `fragment_arrive` does not return before it has called itself. -/
def Retries (r : Receiver) (call : Call) : Prop := call.arrive 1 r = none

theorem retries_iff (r : Receiver) (call : Call) : Retries r call ↔ Purges r call.packetBuffer := by
  rw [Retries, Call.arrive, fragmentArriveFuel, Purges]
  by_cases ht : call.info.totalNumberFragment = 1
  · rw [if_pos ht]
    exact iff_of_false (by simp) fun h => h.1 ht
  · rw [if_neg ht]
    change _ ↔ _ ∧ findPacketId r call.info.id = none
    cases findPacketId r call.info.id with
    | none => exact iff_of_true rfl ⟨ht, rfl⟩
    | some found => exact iff_of_false (by simp) fun h => by cases h.2

/-- Without a purge, the entries of the other slots are kept. -/
theorem packetReceive_other (h : ¬Purges r packetBuffer)
    (hi : findPacketId r (header packetBuffer).id ≠ some i) :
    (packetReceive r packetBuffer dataLength).1.infoAddr i = r.infoAddr i := by
  by_cases ht : (header packetBuffer).totalNumberFragment = 1
  · rw [packetReceive_single ht]
  · obtain ⟨found, hf⟩ := Option.ne_none_iff_exists'.mp fun hf => h ⟨ht, hf⟩
    have hs := settled_of_found hf
    have hne : i ≠ found := by
      rintro rfl
      exact hi hf
    rw [packetReceive_slot ht (hs.symm ▸ hf), updateDatabase_other _ hne, copyFragment_infoAddr, hs]

/-- After any calls from an initialized receiver: ids are in one slot, every entry counts
what its packet still waits for, and the next call returns, with one purge at most, and only
when all slots are taken by other ids. -/
theorem receiver_database_invariant (r : Receiver) (calls : List Call) :
    UniqueIds (reached r calls) ∧
    (∀ i c, (reached r calls).infoAddr i = some c →
      Accounted (initializeReceiver r) calls i c) ∧
    ∀ call : Call, (call.arrive 2 (reached r calls)).isSome ∧
      (Retries (reached r calls) call →
        ∀ i, ∃ c, (reached r calls).infoAddr i = some c ∧ c.id ≠ call.info.id) ∧
      (¬Retries (reached r calls) call → ∀ i c, (reached r calls).infoAddr i = some c →
        c.id ≠ call.info.id → (reached r (calls ++ [call])).infoAddr i = some c) := by
  refine ⟨uniqueIds_reached r calls, fun i c hc => accounted_reached r calls hc, fun call => ?_⟩
  refine ⟨fragmentArriveFuel_isSome 0 _ _ _ _,
    fun h => full_of_not_found ((retries_iff _ call).mp h).2, fun h i c hc hid => ?_⟩
  rw [reached_concat, receiveCall, packetReceive_other, hc]
  · exact fun hpurges => h ((retries_iff _ call).mpr hpurges)
  · exact fun hf => hid (id_of_found hf hc)

def firstOfThree : Call := ⟨fun i => [5, 1, 3, 0, 0].getD i 170, 9, .inr (.inr (by decide))⟩
def secondOfThree : Call := ⟨fun i => [5, 2, 3, 0, 4].getD i 187, 9, .inr (.inr (by decide))⟩

/-- Two of three fragments are here, in the last slot, and one is waited for. -/
theorem receiver_database_invariant_two :
    ∃ c, (reached freshReceiver [firstOfThree, secondOfThree]).infoAddr 19 = some c ∧
      c.id = 5 ∧ c.totalNumberFragment = 1 ∧
      Accounted (initializeReceiver freshReceiver) [firstOfThree, secondOfThree] 19 c :=
  ⟨⟨5, 1, 1, 0, 8⟩, by rfl, by rfl, by rfl,
    (receiver_database_invariant freshReceiver [firstOfThree, secondOfThree]).2.1 19 _ (by rfl)⟩

end AuroraRelay.FragmentReceiver
