import Mathlib.Algebra.BigOperators.Group.Finset.Sigma
import Mathlib.Algebra.BigOperators.Ring.Finset
import Mathlib.Order.Interval.Finset.Nat

namespace Tiling

variable {ι : Type*}

structure Tiles (start size : ι → ℕ) (n : ℕ) : Prop where
  inside : ∀ j, start j + size j ≤ n
  covered : ∀ p < n, ∃! j, start j ≤ p ∧ p < start j + size j

/-- The sizes add up to the length of the segment: both count its points. -/
theorem Tiles.sum_size [Fintype ι] {start size : ι → ℕ} {n : ℕ} (h : Tiles start size n) :
    ∑ j, size j = n := by
  classical
  -- count the pairs of a block and a position in it in two ways
  have hsize (j : ι) :
      size j = ∑ p ∈ Finset.range n, if start j ≤ p ∧ p < start j + size j then 1 else 0 := by
    have hfilter : (Finset.range n).filter (fun p => start j ≤ p ∧ p < start j + size j) =
        Finset.Ico (start j) (start j + size j) := by
      ext p
      have := h.inside j
      simp only [Finset.mem_filter, Finset.mem_range, Finset.mem_Ico]
      omega
    rw [← Finset.card_filter, hfilter, Nat.card_Ico, Nat.add_sub_cancel_left]
  have hpoint (p : ℕ) (hp : p ∈ Finset.range n) :
      (∑ j, if start j ≤ p ∧ p < start j + size j then 1 else 0) = 1 := by
    obtain ⟨j, hj, huniq⟩ := h.covered p (Finset.mem_range.mp hp)
    rw [Finset.sum_eq_single j]
    · exact if_pos hj
    · exact fun k _ hk => if_neg fun hc => hk (huniq k hc)
    · exact fun hj' => absurd (Finset.mem_univ j) hj'
  calc ∑ j, size j
      = ∑ j, ∑ p ∈ Finset.range n, if start j ≤ p ∧ p < start j + size j then 1 else 0 :=
        Finset.sum_congr rfl fun j _ => hsize j
    _ = ∑ p ∈ Finset.range n, ∑ j, if start j ≤ p ∧ p < start j + size j then 1 else 0 :=
        Finset.sum_comm
    _ = ∑ p ∈ Finset.range n, 1 := Finset.sum_congr rfl hpoint
    _ = n := by simp

end Tiling
