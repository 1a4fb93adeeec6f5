import Mathlib.Data.List.FinRange
import AuroraRelay.WarpProtocol

/-!
# The fragment receiver

`fragment_receiver.cpp`: a database of twenty slots, each with a pointer to the
header of the first fragment that arrived for its packet and a 2048-byte buffer.
The buffers are one static array, here a flat memory in which slot `i` starts at
address `2048 * i`; a received buffer is read through its pointer, so it too is a
function of the index.
-/

namespace AuroraRelay.FragmentReceiver
open Memory WarpProtocol

abbrev packetSpaces : ℕ := 20
abbrev packetBytes : ℕ := 2048

abbrev fragmentInfoLength : ℕ := 5
abbrev fragmentIdIndex : ℕ := 0
abbrev fragmentNumberIndex : ℕ := 1
abbrev fragmentTotalNumberIndex : ℕ := 2
abbrev fragmentByteOffsetMsb : ℕ := 3
abbrev fragmentByteOffsetLsb : ℕ := 4

inductive Status
  | readyToSend
  | waitingForFirstFragment
  | waitingForFragment
  deriving DecidableEq

structure ReceiveResult where
  status : Status
  packetAddress : Option (ℕ → UInt8)
  infoAddress : Option FragmentInfo

structure Receiver where
  packetAddresses : ℕ → UInt8
  infoAddr : Fin packetSpaces → Option FragmentInfo

def initializeReceiver (r : Receiver) : Receiver := { r with infoAddr := fun _ => none }

/-- The receiver at program start: static storage is zero. -/
def freshReceiver : Receiver := initializeReceiver ⟨fun _ => 0, fun _ => none⟩

def updateDatabase (r : Receiver) (index : Fin packetSpaces) (newInfo : Option FragmentInfo) :
    Receiver :=
  { r with infoAddr := Function.update r.infoAddr index newInfo }

def purgeDatabase (r : Receiver) : Receiver :=
  (List.finRange packetSpaces).foldl (fun r i => updateDatabase r i none) r

/-- The source leaves `length` as `malloc` found it; every branch of
`fragment_arrive` that keeps the struct sets it first. -/
def createInfo (id number : UInt8) (byteOffset : UInt16) (totalNumberFragment : UInt8) :
    FragmentInfo :=
  ⟨id, number, totalNumberFragment, byteOffset, 0⟩

/-- The search loop: the slot of the id, else the last free slot seen. -/
def findLoop (infoAddr : Fin packetSpaces → Option FragmentInfo) (id : UInt8) :
    List (Fin packetSpaces) → Option (Fin packetSpaces) → Option (Fin packetSpaces)
  | [], output => output
  | i :: is, output =>
    match infoAddr i with
    | some current => if current.id = id then some i else findLoop infoAddr id is output
    | none => findLoop infoAddr id is (some i)

/-- `none` is the invalid index `PACKET_SPACES`. -/
def findPacketId (r : Receiver) (id : UInt8) : Option (Fin packetSpaces) :=
  findLoop r.infoAddr id (List.finRange packetSpaces) none

/-- `packet_addresses[found]`. -/
def slotAddress (r : Receiver) (found : Fin packetSpaces) : ℕ → UInt8 :=
  fun p => r.packetAddresses (packetBytes * found.val + p)

/-- `memmove(packet_addresses[found] + byte_offset, new_packet, data_length)`. -/
def copyFragment (r : Receiver) (found : Fin packetSpaces) (byteOffset : UInt16)
    (newPacket : ℕ → UInt8) (dataLength : UInt32) : Receiver :=
  let start := packetBytes * found.val + byteOffset.toNat
  { r with packetAddresses := store r.packetAddresses start newPacket dataLength.toNat }

def arriveAt (r : Receiver) (newInfo : FragmentInfo) (newPacket : ℕ → UInt8)
    (dataLength : UInt32) (found : Fin packetSpaces) : Receiver × ReceiveResult :=
  match r.infoAddr found with
  | none =>
    let r := copyFragment r found newInfo.byteOffset newPacket dataLength
    let newInfo := { newInfo with
      length := dataLength
      totalNumberFragment := newInfo.totalNumberFragment - 1
      byteOffset := 0 }
    (updateDatabase r found (some newInfo), ⟨.waitingForFragment, none, none⟩)
  | some previousInfo =>
    let r := copyFragment r found newInfo.byteOffset newPacket dataLength
    let previousInfo := { previousInfo with
      length := previousInfo.length + dataLength
      totalNumberFragment := previousInfo.totalNumberFragment - 1 }
    if previousInfo.totalNumberFragment = 0 then
      (updateDatabase r found none,
        ⟨.readyToSend, some (slotAddress r found), some previousInfo⟩)
    else
      (updateDatabase r found (some previousInfo), ⟨.waitingForFragment, none, none⟩)

/-- `fragment_arrive` with a bound on its depth; a full database is purged and the
function calls itself again. -/
def fragmentArriveFuel :
    ℕ → Receiver → FragmentInfo → (ℕ → UInt8) → UInt32 → Option (Receiver × ReceiveResult)
  | 0, _, _, _, _ => none
  | fuel + 1, r, newInfo, newPacket, dataLength =>
    if newInfo.totalNumberFragment = 1 then
      some (r, ⟨.readyToSend, some newPacket, some { newInfo with length := dataLength }⟩)
    else
      match findPacketId r newInfo.id with
      | none => fragmentArriveFuel fuel (purgeDatabase r) newInfo newPacket dataLength
      | some found => some (arriveAt r newInfo newPacket dataLength found)

theorem findLoop_cases (db : Fin packetSpaces → Option FragmentInfo) (id : UInt8)
    (is : List (Fin packetSpaces)) (output : Option (Fin packetSpaces)) :
    (∃ i ∈ is, ∃ c, db i = some c ∧ c.id = id ∧ findLoop db id is output = some i) ∨
    (∃ i ∈ is, db i = none ∧ findLoop db id is output = some i ∧
      ∀ j ∈ is, ∀ c, db j = some c → c.id ≠ id) ∨
    (findLoop db id is output = output ∧ ∀ j ∈ is, ∃ c, db j = some c ∧ c.id ≠ id) := by
  induction is generalizing output with
  | nil => exact .inr (.inr ⟨rfl, by simp⟩)
  | cons i is ih =>
    rw [findLoop]
    cases hi : db i with
    | some current =>
      by_cases hc : current.id = id
      · exact .inl ⟨i, List.mem_cons_self, current, hi, hc, if_pos hc⟩
      · have he : (if current.id = id then some i else findLoop db id is output) =
            findLoop db id is output := if_neg hc
        simp only [he]
        have hhead : ∀ c, db i = some c → c.id ≠ id := by
          intro c h
          rw [hi] at h
          exact Option.some.inj h ▸ hc
        rcases ih output with ⟨j, hj, c, hjc, hid, hf⟩ | ⟨j, hj, hn, hf, hall⟩ | ⟨hf, hall⟩
        · exact .inl ⟨j, List.mem_cons_of_mem _ hj, c, hjc, hid, hf⟩
        · refine .inr (.inl ⟨j, List.mem_cons_of_mem _ hj, hn, hf, ?_⟩)
          exact List.forall_mem_cons.mpr ⟨hhead, hall⟩
        · exact .inr (.inr ⟨hf, List.forall_mem_cons.mpr ⟨⟨current, hi, hc⟩, hall⟩⟩)
    | none =>
      -- the free slot is the output unless the id or another free slot comes later
      have hhead : ∀ c, db i = some c → c.id ≠ id := by simp [hi]
      rcases ih (some i) with ⟨j, hj, c, hjc, hid, hf⟩ | ⟨j, hj, hn, hf, hall⟩ | ⟨hf, hall⟩
      · exact .inl ⟨j, List.mem_cons_of_mem _ hj, c, hjc, hid, hf⟩
      · refine .inr (.inl ⟨j, List.mem_cons_of_mem _ hj, hn, hf, ?_⟩)
        exact List.forall_mem_cons.mpr ⟨hhead, hall⟩
      · refine .inr (.inl ⟨i, List.mem_cons_self, hi, hf, ?_⟩)
        refine List.forall_mem_cons.mpr ⟨hhead, fun j hj c hc => ?_⟩
        obtain ⟨d, hd, hne⟩ := hall j hj
        rw [hd] at hc
        exact Option.some.inj hc ▸ hne

/-- The search finds the slot of the id; if there is none, a free slot; and the
invalid index only when every slot holds another id. -/
theorem findPacketId_cases (r : Receiver) (id : UInt8) :
    (∃ i c, findPacketId r id = some i ∧ r.infoAddr i = some c ∧ c.id = id) ∨
    (∃ i, findPacketId r id = some i ∧ r.infoAddr i = none ∧
      ∀ j c, r.infoAddr j = some c → c.id ≠ id) ∨
    (findPacketId r id = none ∧ ∀ j, ∃ c, r.infoAddr j = some c ∧ c.id ≠ id) := by
  have hmem (j : Fin packetSpaces) : j ∈ List.finRange packetSpaces := List.mem_finRange j
  rcases findLoop_cases r.infoAddr id (List.finRange packetSpaces) none with
    ⟨i, -, c, hc, hid, hf⟩ | ⟨i, -, hn, hf, hall⟩ | ⟨hf, hall⟩
  · exact .inl ⟨i, c, hf, hc, hid⟩
  · exact .inr (.inl ⟨i, hf, hn, fun j => hall j (hmem j)⟩)
  · exact .inr (.inr ⟨hf, fun j => hall j (hmem j)⟩)

section Found

variable {r : Receiver} {id : UInt8} {i : Fin packetSpaces} {c : FragmentInfo}

theorem id_of_found (h : findPacketId r id = some i) (hc : r.infoAddr i = some c) : c.id = id := by
  rcases findPacketId_cases r id with ⟨j, d, hf, hd, hid⟩ | ⟨j, hf, hn, -⟩ | ⟨hf, -⟩
  · obtain rfl : i = j := Option.some.inj (h.symm.trans hf)
    rw [hc] at hd
    exact Option.some.inj hd ▸ hid
  · obtain rfl : i = j := Option.some.inj (h.symm.trans hf)
    rw [hc] at hn
    cases hn
  · rw [h] at hf
    cases hf

theorem fresh_of_found (h : findPacketId r id = some i) (hn : r.infoAddr i = none) :
    ∀ j c, r.infoAddr j = some c → c.id ≠ id := by
  rcases findPacketId_cases r id with ⟨j, d, hf, hd, -⟩ | ⟨j, -, -, hall⟩ | ⟨hf, -⟩
  · obtain rfl : i = j := Option.some.inj (h.symm.trans hf)
    rw [hn] at hd
    cases hd
  · exact hall
  · rw [h] at hf
    cases hf

theorem full_of_not_found (h : findPacketId r id = none) :
    ∀ j, ∃ c, r.infoAddr j = some c ∧ c.id ≠ id := by
  rcases findPacketId_cases r id with ⟨j, d, hf, -⟩ | ⟨j, hf, -⟩ | ⟨-, hall⟩
  · rw [h] at hf
    cases hf
  · rw [h] at hf
    cases hf
  · exact hall

end Found

theorem purge_loop (is : List (Fin packetSpaces)) (r : Receiver) :
    is.foldl (fun r i => updateDatabase r i none) r =
      { r with infoAddr := fun i => if i ∈ is then none else r.infoAddr i } := by
  induction is generalizing r with
  | nil => simp
  | cons i is ih =>
    rw [List.foldl_cons, ih]
    congr 1
    funext j
    by_cases hj : j = i
    · simp [updateDatabase, hj]
    · simp [updateDatabase, hj]

theorem purgeDatabase_eq (r : Receiver) :
    purgeDatabase r = { r with infoAddr := fun _ => none } := by
  simp [purgeDatabase, purge_loop]

theorem findPacketId_purgeDatabase (r : Receiver) (id : UInt8) :
    ∃ i, findPacketId (purgeDatabase r) id = some i := by
  rw [purgeDatabase_eq]
  rcases findPacketId_cases { r with infoAddr := fun _ => none } id with
    ⟨i, c, hf, -, -⟩ | ⟨i, hf, -, -⟩ | ⟨-, hall⟩
  · exact ⟨i, hf⟩
  · exact ⟨i, hf⟩
  · obtain ⟨c, hc, -⟩ := hall 0
    cases hc

theorem fragmentArriveFuel_isSome (fuel : ℕ) (r : Receiver) (newInfo : FragmentInfo)
    (newPacket : ℕ → UInt8) (dataLength : UInt32) :
    (fragmentArriveFuel (fuel + 2) r newInfo newPacket dataLength).isSome := by
  rw [fragmentArriveFuel]
  split_ifs with h1
  · rfl
  · cases hf : findPacketId r newInfo.id with
    | some found => rfl
    | none =>
      -- the purged database has a free slot, so the second call does not purge again
      obtain ⟨i, hi⟩ := findPacketId_purgeDatabase r newInfo.id
      simp [fragmentArriveFuel, h1, hi]

/-- Two levels are enough: the function retries itself at most once. -/
def fragmentArrive (r : Receiver) (newInfo : FragmentInfo) (newPacket : ℕ → UInt8)
    (dataLength : UInt32) : Receiver × ReceiveResult :=
  (fragmentArriveFuel 2 r newInfo newPacket dataLength).get
    (fragmentArriveFuel_isSome 0 r newInfo newPacket dataLength)

def packetReceive (r : Receiver) (packetBuffer : ℕ → UInt8) (dataLength : UInt32) :
    Receiver × ReceiveResult :=
  let id := packetBuffer fragmentIdIndex
  let fragmentNumber := packetBuffer fragmentNumberIndex
  let totalNumberFragment := packetBuffer fragmentTotalNumberIndex
  let byteOffset := ((packetBuffer fragmentByteOffsetMsb).toUInt16 <<< 8) +
    (packetBuffer fragmentByteOffsetLsb).toUInt16
  let fragmentInfo := createInfo id fragmentNumber byteOffset totalNumberFragment
  fragmentArrive r fragmentInfo (fun i => packetBuffer (i + fragmentInfoLength))
    (dataLength - UInt32.ofNat fragmentInfoLength)

theorem fragmentArrive_single {r : Receiver} {newInfo : FragmentInfo} {newPacket : ℕ → UInt8}
    {dataLength : UInt32} (h : newInfo.totalNumberFragment = 1) :
    fragmentArrive r newInfo newPacket dataLength =
      (r, ⟨.readyToSend, some newPacket, some { newInfo with length := dataLength }⟩) := by
  simp [fragmentArrive, fragmentArriveFuel, h]

theorem fragmentArrive_found {r : Receiver} {newInfo : FragmentInfo} {newPacket : ℕ → UInt8}
    {dataLength : UInt32} {found : Fin packetSpaces} (h : newInfo.totalNumberFragment ≠ 1)
    (hf : findPacketId r newInfo.id = some found) :
    fragmentArrive r newInfo newPacket dataLength =
      arriveAt r newInfo newPacket dataLength found := by
  simp [fragmentArrive, fragmentArriveFuel, h, hf]

theorem fragmentArrive_full {r : Receiver} {newInfo : FragmentInfo} {newPacket : ℕ → UInt8}
    {dataLength : UInt32} (h : newInfo.totalNumberFragment ≠ 1)
    (hf : findPacketId r newInfo.id = none) :
    fragmentArrive r newInfo newPacket dataLength =
      fragmentArrive (purgeDatabase r) newInfo newPacket dataLength := by
  obtain ⟨i, hi⟩ := findPacketId_purgeDatabase r newInfo.id
  rw [fragmentArrive_found h hi]
  simp [fragmentArrive, fragmentArriveFuel, h, hf, hi]

end AuroraRelay.FragmentReceiver
