import Mathlib.Data.List.Basic

namespace Sampling

variable {α : Type*}

def seen (history : List α) (picks : List ℕ) : List (Option α) := picks.map (history[·]?)

/-- The places at which a reader has looked: it never went back, and had at least one entry
for each of its looks. -/
structure Samples (history : List α) (picks : List ℕ) : Prop where
  sorted : picks.Pairwise (· ≤ ·)
  inside : ∀ i ∈ picks, i < history.length
  ahead : ∀ k i : ℕ, picks[k]? = some i → k ≤ i

variable {history : List α} {picks : List ℕ}

theorem samples_nil : Samples history [] := by
  refine ⟨List.Pairwise.nil, ?_, ?_⟩
  · simp
  · simp

theorem Samples.grow (h : Samples history picks) (more : List α) :
    Samples (history ++ more) picks := by
  refine ⟨h.sorted, fun i hi => ?_, h.ahead⟩
  have := h.inside i hi
  rw [List.length_append]
  omega

theorem Samples.seen_grow (h : Samples history picks) (more : List α) :
    seen (history ++ more) picks = seen history picks := by
  apply List.map_congr_left
  intro i hi
  exact List.getElem?_append_left (h.inside i hi)

/-- The newest entry is read. -/
theorem Samples.pick (h : Samples history picks) (hlen : picks.length < history.length) :
    Samples history (picks ++ [history.length - 1]) := by
  refine ⟨List.pairwise_append.mpr ⟨h.sorted, List.pairwise_singleton _ _, ?_⟩, ?_, ?_⟩
  · intro i hi j hj
    have := h.inside i hi
    rw [List.mem_singleton.mp hj]
    omega
  · intro i hi
    rcases List.mem_append.mp hi with hi | hi
    · exact h.inside i hi
    · rw [List.mem_singleton.mp hi]
      omega
  · intro k i hk
    rcases Nat.lt_or_ge k picks.length with hold | hnew
    · rw [List.getElem?_append_left hold] at hk
      exact h.ahead k i hk
    · rw [List.getElem?_append_right hnew] at hk
      obtain ⟨hk0, rfl⟩ := List.getElem?_eq_some_iff.mp hk
      simp only [List.length_singleton] at hk0
      simp only [List.getElem_singleton]
      omega

theorem Samples.take (h : Samples history picks) (n : ℕ) : Samples history (picks.take n) := by
  refine ⟨h.sorted.sublist (List.take_sublist n picks), fun i hi => ?_, fun k i hk => ?_⟩
  · exact h.inside i (List.mem_of_mem_take hi)
  · rw [List.getElem?_take] at hk
    split_ifs at hk
    exact h.ahead k i hk

theorem seen_pick (history : List α) (picks : List ℕ) :
    seen history (picks ++ [history.length - 1]) = seen history picks ++ [history.getLast?] := by
  rw [seen, List.map_append, List.getLast?_eq_getElem?]
  rfl

end Sampling
