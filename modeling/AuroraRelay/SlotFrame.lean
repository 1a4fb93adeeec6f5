import AuroraRelay.ReceiverDatabase

namespace AuroraRelay.FragmentReceiver
open Memory WarpProtocol

def InSlot (i : Fin packetSpaces) (a : ℕ) : Prop :=
  packetBytes * i ≤ a ∧ a < packetBytes * (i + 1)

instance (i : Fin packetSpaces) (a : ℕ) : Decidable (InSlot i a) :=
  inferInstanceAs (Decidable (_ ∧ _))

/-- The bytes that a call changes are in the slot of the fragment's id, and without a purge
the other occupied slots keep their bytes and their entries. -/
structure KeepsToSlot (r : Receiver) (packetBuffer : ℕ → UInt8) (dataLength : UInt32) : Prop where
  bytes : ∀ a, (packetReceive r packetBuffer dataLength).1.packetAddresses a ≠
      r.packetAddresses a →
    ∃ i, findPacketId (settled r (header packetBuffer).id) (header packetBuffer).id = some i ∧
      InSlot i a
  others : ¬Purges r packetBuffer → ∀ j, (r.infoAddr j).isSome →
    findPacketId r (header packetBuffer).id ≠ some j →
    (packetReceive r packetBuffer dataLength).1.infoAddr j = r.infoAddr j ∧
      ∀ a, InSlot j a → (packetReceive r packetBuffer dataLength).1.packetAddresses a =
        r.packetAddresses a

theorem toNat_sub_five (dataLength : UInt32) :
    5 ≤ dataLength.toNat ∧ (dataLength - 5).toNat = dataLength.toNat - 5 ∨
    dataLength.toNat < 5 ∧ (dataLength - 5).toNat = dataLength.toNat + (2 ^ 32 - 5) := by
  have hlt := dataLength.toNat_lt
  have hfive : (5 : UInt32).toNat = 5 := rfl
  rw [UInt32.toNat_sub, hfive]
  omega

/-- A write of fewer than five bytes would be one of almost four gigabytes. -/
theorem writesInside_iff (packetBuffer : ℕ → UInt8) (dataLength : UInt32) :
    WritesInside packetBuffer dataLength ↔
      (header packetBuffer).totalNumberFragment = 1 ∨ (dataLength - 5).toNat = 0 ∨
        (byteOffset packetBuffer).toNat + (dataLength - 5).toNat ≤ packetBytes := by
  have hfive : dataLength = 5 ↔ dataLength.toNat = 5 := UInt32.toNat_inj.symm
  have hslot : packetBytes = 2048 := rfl
  rw [WritesInside, hfive]
  refine or_congr_right ?_
  rcases toNat_sub_five dataLength with ⟨hle, hlength⟩ | ⟨hlt, hlength⟩
  · rw [hlength]
    omega
  · rw [hlength]
    omega

variable {r : Receiver} {packetBuffer : ℕ → UInt8} {dataLength : UInt32} {i j : Fin packetSpaces}

theorem exists_other (byte : UInt8) : ∃ other, other ≠ byte := ⟨byte + 1, by grind⟩

theorem InSlot.eq {a : ℕ} (hi : InSlot i a) (hj : InSlot j a) : i = j := by
  have hi' : 2048 * i.val ≤ a ∧ a < 2048 * (i.val + 1) := hi
  have hj' : 2048 * j.val ≤ a ∧ a < 2048 * (j.val + 1) := hj
  exact Fin.ext (by omega)

theorem settled_infoAddr (r : Receiver) (id : UInt8) :
    (settled r id).infoAddr =
      if findPacketId r id = none then fun _ => none else r.infoAddr := by
  rw [settled]
  split_ifs
  · rw [purgeDatabase_eq]
  · rfl

/-- The bytes after the call. -/
theorem packetReceive_packetAddresses (h : (header packetBuffer).totalNumberFragment ≠ 1)
    (hi : findPacketId (settled r (header packetBuffer).id) (header packetBuffer).id = some i) :
    (packetReceive r packetBuffer dataLength).1.packetAddresses =
      store r.packetAddresses (packetBytes * i + (byteOffset packetBuffer).toNat)
        (fragmentData packetBuffer) (dataLength - 5).toNat := by
  rw [packetReceive_slot h hi]
  change store (settled r (header packetBuffer).id).packetAddresses _ _ _ = _
  rw [settled_packetAddresses]

theorem keepsToSlot_of_writesInside (h : WritesInside packetBuffer dataLength) (r : Receiver) :
    KeepsToSlot r packetBuffer dataLength := by
  by_cases ht : (header packetBuffer).totalNumberFragment = 1
  · constructor
    · intro a hne
      rw [packetReceive_single ht] at hne
      exact absurd rfl hne
    · intro _ j _ _
      rw [packetReceive_single ht]
      exact ⟨rfl, fun _ _ => rfl⟩
  · obtain ⟨i, hi⟩ := exists_slot r (header packetBuffer).id
    have hbytes : ∀ a, (packetReceive r packetBuffer dataLength).1.packetAddresses a ≠
        r.packetAddresses a → InSlot i a := by
      rw [packetReceive_packetAddresses ht hi]
      refine fun a => (store_within_iff exists_other).mpr ?_ r.packetAddresses a
      have hin := ((writesInside_iff packetBuffer dataLength).mp h).resolve_left ht
      rw [Nat.mul_succ]
      omega
    refine ⟨fun a hne => ⟨i, hi, hbytes a hne⟩, fun hpurges j _ hother => ?_⟩
    refine ⟨packetReceive_other hpurges hother, fun a ha => ?_⟩
    by_contra hne
    obtain rfl : j = i := ha.eq (hbytes a hne)
    obtain ⟨found, hf⟩ := Option.ne_none_iff_exists'.mp fun hf => hpurges ⟨ht, hf⟩
    rw [settled_of_found hf] at hi
    exact hother hi

/-- The slot depends on the database only. -/
theorem slot_of_database (packetAddresses packetAddresses' : ℕ → UInt8)
    (infoAddr : Fin packetSpaces → Option FragmentInfo) (id : UInt8) :
    findPacketId (settled ⟨packetAddresses, infoAddr⟩ id) id =
      findPacketId (settled ⟨packetAddresses', infoAddr⟩ id) id := by
  rw [findPacketId, findPacketId, settled_infoAddr, settled_infoAddr]
  rfl

/-- A fragment touches nothing but its own slot, whatever the slots hold, exactly when it is
not copied, has no data, or ends inside the slot. -/
theorem keeps_to_slot_iff (infoAddr : Fin packetSpaces → Option FragmentInfo)
    (packetBuffer : ℕ → UInt8) (dataLength : UInt32) :
    (∀ packetAddresses, KeepsToSlot ⟨packetAddresses, infoAddr⟩ packetBuffer dataLength) ↔
      WritesInside packetBuffer dataLength := by
  constructor
  · intro h
    rw [writesInside_iff, or_iff_not_imp_left]
    intro ht
    obtain ⟨i, hi⟩ := exists_slot ⟨fun _ => 0, infoAddr⟩ (header packetBuffer).id
    have hwithin : ∀ mem a, store mem (packetBytes * i + (byteOffset packetBuffer).toNat)
        (fragmentData packetBuffer) (dataLength - 5).toNat a ≠ mem a →
        packetBytes * i ≤ a ∧ a < packetBytes * (i + 1) := by
      intro mem a hne
      have hslot := (slot_of_database mem (fun _ => 0) infoAddr _).trans hi
      rw [← packetReceive_packetAddresses (r := ⟨mem, infoAddr⟩) ht hslot] at hne
      obtain ⟨j, hj, ha⟩ := (h mem).bytes a hne
      obtain rfl : i = j := Option.some.inj (hslot.symm.trans hj)
      exact ha
    rcases (store_within_iff exists_other).mp hwithin with hzero | ⟨-, hend⟩
    · exact .inl hzero
    · rw [Nat.mul_succ] at hend
      exact .inr (by omega)
  · exact fun h packetAddresses => keepsToSlot_of_writesInside h _

def spilling : ℕ → UInt8 := fun i => [7, 0, 2, 8, 0, 1].getD i 0

def lastOccupied : Receiver :=
  ⟨fun _ => 0, fun i => if i = 19 then some ⟨9, 0, 1, 0, 4⟩ else none⟩

/-- The byte is stored in front of what id 9 has received. -/
theorem spills_into_next_slot : ¬KeepsToSlot lastOccupied spilling 6 := by
  intro h
  have hkept := (h.others (by decide) 19 rfl (by decide)).2 38912 (by decide)
  exact absurd hkept (by decide)

end AuroraRelay.FragmentReceiver
