import Mathlib.Data.List.Infix

namespace Counter

variable {ι : Type*} (up down : ι → Bool)

/-- The counter after an event that is not both an up and a down. -/
def step (n : ℕ) (e : ι) : ℕ := if up e then n + 1 else if down e then n - 1 else n

def value (history : List ι) : ℕ := history.foldl (step up down) 0

@[simp] theorem value_nil : value up down [] = 0 := rfl

theorem value_concat (history : List ι) (e : ι) :
    value up down (history ++ [e]) = step up down (value up down history) e := by
  rw [value, List.foldl_append]
  rfl

/-- An end of a longer history is empty or has the last event. -/
theorem forall_suffix_concat {P : List ι → Prop} {history : List ι} {e : ι} :
    (∀ ending, ending <:+ history ++ [e] → P ending) ↔
      P [] ∧ ∀ ending, ending <:+ history → P (ending ++ [e]) := by
  constructor
  · intro h
    refine ⟨h [] List.nil_suffix, fun ending hending => h _ ?_⟩
    exact List.suffix_concat_iff.mpr (.inr ⟨ending, rfl, hending⟩)
  · rintro ⟨hnil, hconcat⟩ ending hending
    rcases List.suffix_concat_iff.mp hending with rfl | ⟨before, rfl, hbefore⟩
    · exact hnil
    · exact hconcat before hbefore

variable {up down}

theorem value_le_iff (hdisjoint : ∀ e, up e = true → down e = false) {history : List ι} {k : ℕ} :
    value up down history ≤ k ↔
      ∀ ending, ending <:+ history → ending.countP up ≤ ending.countP down + k := by
  induction history using List.reverseRecOn generalizing k with
  | nil => simp
  | append_singleton history e ih =>
    rw [forall_suffix_concat, value_concat, step]
    simp only [List.countP_append, List.countP_singleton, List.countP_nil]
    cases hup : up e with
    | true =>
      simp only [hdisjoint e hup, if_true, Bool.false_eq_true, if_false]
      cases k with
      | zero =>
        refine iff_of_false (by omega) fun h => ?_
        have hlast := h.2 [] List.nil_suffix
        simp at hlast
      | succ k =>
        rw [Nat.add_le_add_iff_right, ih]
        constructor
        · intro h
          refine ⟨by omega, fun ending hending => ?_⟩
          have := h ending hending
          omega
        · intro h ending hending
          have := h.2 ending hending
          omega
    | false =>
      cases hdown : down e with
      | true =>
        have hpred : value up down history - 1 ≤ k ↔ value up down history ≤ k + 1 := by omega
        simp only [Bool.false_eq_true, if_false, if_true]
        rw [hpred, ih]
        constructor
        · intro h
          refine ⟨by omega, fun ending hending => ?_⟩
          have := h ending hending
          omega
        · intro h ending hending
          have := h.2 ending hending
          omega
      | false => simp [ih]

end Counter
