import AuroraRelay.Lib.Tiling
import AuroraRelay.Reassembly

/-!
# Packets cut into fragments

A sent packet carries its tiling.  `assembled p A` is the assembly of its id after
exactly the fragments of `A` have come in, and `arrive_first`, `arrive_middle` and
`arrive_last` say what one more of them does.
-/

namespace AuroraRelay.FragmentReceiver
open Memory Tiling

structure SentPacket where
  id : UInt8
  bytes : List UInt8
  count : ℕ
  number : Fin count → UInt8
  offset : Fin count → ℕ
  size : Fin count → ℕ
  bytes_le : bytes.length ≤ packetBytes
  count_pos : 0 < count
  count_le : count ≤ 255
  tiles : Tiles offset size bytes.length

namespace SentPacket

variable (p : SentPacket)

def fragment (j : Fin p.count) : Fragment where
  id := p.id
  number := p.number j
  total := UInt8.ofNat p.count
  offset := UInt16.ofNat (p.offset j)
  data := (p.bytes.drop (p.offset j)).take (p.size j)

def InFragment (j : Fin p.count) (q : ℕ) : Prop := p.offset j ≤ q ∧ q < p.offset j + p.size j

instance (j : Fin p.count) (q : ℕ) : Decidable (p.InFragment j q) :=
  inferInstanceAs (Decidable (_ ∧ _))

theorem fragment_offset (j : Fin p.count) : (p.fragment j).offset.toNat = p.offset j := by
  have h1 := p.tiles.inside j
  have h2 : p.bytes.length ≤ 2048 := p.bytes_le
  change (UInt16.ofNat (p.offset j)).toNat = p.offset j
  rw [UInt16.toNat_ofNat']
  exact Nat.mod_eq_of_lt (by omega)

theorem fragment_length (j : Fin p.count) : (p.fragment j).data.length = p.size j := by
  have h1 := p.tiles.inside j
  change ((p.bytes.drop (p.offset j)).take (p.size j)).length = p.size j
  rw [List.length_take, List.length_drop]
  omega

theorem fragment_inBounds (j : Fin p.count) : (p.fragment j).InBounds := by
  rw [Fragment.InBounds, fragment_offset, fragment_length]
  exact (p.tiles.inside j).trans p.bytes_le

theorem fragment_total (j : Fin p.count) : (p.fragment j).total = 1 ↔ p.count = 1 := by
  have h := p.count_le
  rw [← UInt8.toNat_inj]
  change (UInt8.ofNat p.count).toNat = 1 ↔ _
  rw [UInt8.toNat_ofNat', Nat.mod_eq_of_lt (by omega)]

theorem fragment_data {j : Fin p.count} {q : ℕ} (h : p.InFragment j q) :
    (p.fragment j).data[q - p.offset j]? = p.bytes[q]? := by
  obtain ⟨h1, h2⟩ := h
  change ((p.bytes.drop (p.offset j)).take (p.size j))[q - p.offset j]? = _
  rw [List.getElem?_take_of_lt (by omega), List.getElem?_drop]
  congr 1
  omega

theorem fragment_patch (j : Fin p.count) (w : ℕ → Option UInt8) (q : ℕ) :
    (p.fragment j).patch w q = if p.InFragment j q then p.bytes[q]? else w q := by
  rw [Fragment.patch, fragment_offset, fragment_length]
  change (if p.InFragment j q then (p.fragment j).data[q - p.offset j]? else w q) = _
  by_cases h : p.InFragment j q
  · rw [if_pos h, if_pos h, fragment_data p h]
  · rw [if_neg h, if_neg h]

/-- The assembly after exactly the fragments of `A`. -/
def assembled (A : Finset (Fin p.count)) : Assembly where
  remaining := UInt8.ofNat (p.count - A.card)
  length := UInt32.ofNat (∑ j ∈ A, p.size j)
  written := fun q => if ∃ j ∈ A, p.InFragment j q then p.bytes[q]? else none

theorem ofNat_sub_one {n : ℕ} (h : 0 < n) : UInt8.ofNat n - 1 = UInt8.ofNat (n - 1) := by
  have hn : n = n - 1 + 1 := by omega
  rw [hn, UInt8.ofNat_add]
  exact UInt8.add_sub_cancel _ _

theorem opened_fragment (j : Fin p.count) : Assembly.opened (p.fragment j) = p.assembled {j} := by
  have hw : (p.fragment j).patch (fun _ => none) =
      fun q => if ∃ i ∈ ({j} : Finset (Fin p.count)), p.InFragment i q then p.bytes[q]?
        else none := by
    funext q
    rw [fragment_patch]
    simp
  have hr : (p.fragment j).total - 1 = UInt8.ofNat (p.count - 1) := ofNat_sub_one p.count_pos
  simp only [Assembly.opened, assembled, hw, hr, fragment_length, Finset.card_singleton,
    Finset.sum_singleton]

theorem extend_fragment {A : Finset (Fin p.count)} {j : Fin p.count} (hj : j ∉ A) :
    (p.assembled A).extend (p.fragment j) = p.assembled (insert j A) := by
  have hc : (insert j A).card = A.card + 1 := Finset.card_insert_of_notMem hj
  have hle : (insert j A).card ≤ p.count := by
    simpa using Finset.card_le_univ (insert j A)
  have hw : (p.fragment j).patch (p.assembled A).written = (p.assembled (insert j A)).written := by
    funext q
    rw [fragment_patch]
    by_cases h : p.InFragment j q
    · have he : ∃ i ∈ insert j A, p.InFragment i q := ⟨j, Finset.mem_insert_self j A, h⟩
      simp only [assembled, if_pos h, if_pos he]
    · simp [assembled, h]
  have hr : UInt8.ofNat (p.count - A.card) - 1 = UInt8.ofNat (p.count - (insert j A).card) := by
    rw [ofNat_sub_one (by omega)]
    congr 1
    omega
  have hl : UInt32.ofNat (∑ i ∈ A, p.size i) + UInt32.ofNat (p.fragment j).data.length =
      UInt32.ofNat (∑ i ∈ insert j A, p.size i) := by
    rw [Finset.sum_insert hj, fragment_length, UInt32.ofNat_add, UInt32.add_comm]
  change Assembly.mk (UInt8.ofNat (p.count - A.card) - 1)
    (UInt32.ofNat (∑ i ∈ A, p.size i) + UInt32.ofNat (p.fragment j).data.length)
    ((p.fragment j).patch (p.assembled A).written) = _
  rw [hw, hr, hl]
  rfl

theorem assembled_remaining (A : Finset (Fin p.count)) :
    (p.assembled A).remaining = 0 ↔ A = Finset.univ := by
  have hle : A.card ≤ p.count := by simpa using Finset.card_le_univ A
  have h255 := p.count_le
  have hcard : p.count - A.card = 0 ↔ A = Finset.univ := by
    rw [← Finset.card_eq_iff_eq_univ, Fintype.card_fin]
    omega
  rw [← hcard, ← UInt8.toNat_inj]
  change (UInt8.ofNat (p.count - A.card)).toNat = 0 ↔ _
  rw [UInt8.toNat_ofNat', Nat.mod_eq_of_lt (by omega)]

/-- All the fragments together are the packet. -/
theorem assembled_univ :
    (p.assembled Finset.univ).length = UInt32.ofNat p.bytes.length ∧
    (p.assembled Finset.univ).written = fun q => p.bytes[q]? := by
  refine ⟨congrArg UInt32.ofNat p.tiles.sum_size, ?_⟩
  funext q
  by_cases hq : q < p.bytes.length
  · obtain ⟨j, hj, -⟩ := p.tiles.covered q hq
    exact if_pos ⟨j, Finset.mem_univ j, hj⟩
  · have hn : p.bytes[q]? = none := List.getElem?_eq_none (by omega)
    simp [assembled, hn]

theorem singleton_ne_univ (hn : p.count ≠ 1) (j : Fin p.count) :
    ({j} : Finset (Fin p.count)) ≠ Finset.univ := by
  intro hu
  have hc := congrArg Finset.card hu
  rw [Finset.card_singleton, Finset.card_univ, Fintype.card_fin] at hc
  exact hn hc.symm

/-- The first fragment of a packet that has several. -/
theorem arrive_first (hn : p.count ≠ 1) (j : Fin p.count) :
    Assembly.arrive none (p.fragment j) = (some (p.assembled {j}), .waiting) := by
  have ht : ¬(p.fragment j).total = 1 := fun h => hn ((p.fragment_total j).mp h)
  simp [Assembly.arrive, ht, opened_fragment]

/-- A fragment that completes the packet. -/
theorem arrive_last (hn : p.count ≠ 1) {A : Finset (Fin p.count)} {j : Fin p.count} (hj : j ∉ A)
    (hA : insert j A = Finset.univ) :
    Assembly.arrive (some (p.assembled A)) (p.fragment j) =
      (none, .ready (UInt32.ofNat p.bytes.length) fun q => p.bytes[q]?) := by
  have ht : ¬(p.fragment j).total = 1 := fun h => hn ((p.fragment_total j).mp h)
  simp [Assembly.arrive, ht, extend_fragment p hj, hA, (p.assembled_remaining _).mpr,
    p.assembled_univ.1, p.assembled_univ.2]

/-- A fragment after which others are still missing. -/
theorem arrive_middle (hn : p.count ≠ 1) {A : Finset (Fin p.count)} {j : Fin p.count} (hj : j ∉ A)
    (hA : insert j A ≠ Finset.univ) :
    Assembly.arrive (some (p.assembled A)) (p.fragment j) =
      (some (p.assembled (insert j A)), .waiting) := by
  have ht : ¬(p.fragment j).total = 1 := fun h => hn ((p.fragment_total j).mp h)
  have hr : ¬(p.assembled (insert j A)).remaining = 0 :=
    fun h => hA ((p.assembled_remaining _).mp h)
  simp [Assembly.arrive, ht, extend_fragment p hj, hr]

/-- A packet of one fragment, whatever is being assembled under its id. -/
theorem arrive_single (hn : p.count = 1) (a : Option Assembly) (j : Fin p.count) :
    Assembly.arrive a (p.fragment j) =
      (a, .ready (UInt32.ofNat p.bytes.length) fun q => p.bytes[q]?) := by
  have hsub : ∀ i : Fin p.count, i = j := fun i => Fin.ext (by omega)
  have hin : ∀ q < p.bytes.length, p.InFragment j q := by
    intro q hq
    obtain ⟨i, hi, -⟩ := p.tiles.covered q hq
    exact hsub i ▸ hi
  have hsum : p.size j = p.bytes.length := by
    have h := p.tiles.sum_size
    rwa [Finset.sum_eq_single j (fun i _ hi => absurd (hsub i) hi) (by simp)] at h
  have hoff : p.offset j = 0 := by
    have := p.tiles.inside j
    omega
  have hdata : (p.fragment j).data = p.bytes := by
    change (p.bytes.drop (p.offset j)).take (p.size j) = p.bytes
    rw [hoff, hsum, List.drop_zero, List.take_length]
  have ht := (p.fragment_total j).mpr hn
  simp only [Assembly.arrive, if_pos ht, hdata]

end SentPacket

/-- The result hands over exactly the packet. -/
def ReceiveResult.Delivers (res : ReceiveResult) (bytes : List UInt8) : Prop :=
  res.status = .readyToSend ∧ ∃ buffer info, res.packetAddress = some buffer ∧
    res.infoAddress = some info ∧ info.length.toNat = bytes.length ∧
    load buffer 0 bytes.length = bytes

theorem ReceiveResult.Realizes.delivers {res : ReceiveResult} {bytes : List UInt8}
    (hl : bytes.length ≤ packetBytes)
    (h : res.Realizes (.ready (UInt32.ofNat bytes.length) fun q => bytes[q]?)) :
    res.Delivers bytes := by
  obtain ⟨buffer, info, rfl, hlen, hb⟩ := h
  have hl' : bytes.length ≤ 2048 := hl
  refine ⟨rfl, buffer, info, rfl, rfl, ?_, load_eq_iff.mpr fun i hi => ?_⟩
  · rw [hlen, UInt32.toNat_ofNat']
    exact Nat.mod_eq_of_lt (by omega)
  · rw [Nat.zero_add]
    exact hb i _ (List.getElem?_eq_getElem hi)

end AuroraRelay.FragmentReceiver
