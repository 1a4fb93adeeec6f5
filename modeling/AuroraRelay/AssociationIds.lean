import AuroraRelay.StationList

namespace AuroraRelay.Hostapd

theorem getLsbD_bit {j : ℕ} (hj : j < 32) (k : ℕ) : (bit j).getLsbD k = decide (j = k) := by
  rw [bit, ← BitVec.twoPow_eq, BitVec.getLsbD_twoPow, decide_eq_true hj, Bool.true_and]

theorem and_bit_eq_zero_iff (word : BitVec 32) {j : ℕ} (hj : j < 32) :
    word &&& bit j = 0 ↔ word.getLsbD j = false := by
  constructor
  · intro h
    have hbit := congrArg (fun w => BitVec.getLsbD w j) h
    simpa [getLsbD_bit hj] using hbit
  · intro h
    apply BitVec.eq_of_getLsbD_eq
    intro k _
    rw [BitVec.getLsbD_and, getLsbD_bit hj]
    by_cases hk : j = k
    · subst hk
      simp [h]
    · simp [hk]

theorem aidBit_set (words : ℕ → BitVec 32) {i j : ℕ} (hj : j < 32) (k : ℕ) :
    aidBit (Function.update words i (words i ||| bit j)) k =
      (aidBit words k || decide (k = i * 32 + j)) := by
  unfold aidBit
  by_cases hi : k / 32 = i
  · subst hi
    rw [Function.update_self, BitVec.getLsbD_or, getLsbD_bit hj]
    congr 1
    exact decide_eq_decide.mpr (by omega)
  · have hne : k ≠ i * 32 + j := by omega
    rw [Function.update_of_ne hi, decide_eq_false hne, Bool.or_false]

theorem aidBit_clear (words : ℕ → BitVec 32) (k₀ k : ℕ) :
    aidBit (Function.update words (k₀ / 32) (words (k₀ / 32) &&& ~~~bit (k₀ % 32))) k =
      (aidBit words k && decide (k ≠ k₀)) := by
  unfold aidBit
  have hj : k₀ % 32 < 32 := Nat.mod_lt _ (by decide)
  by_cases hi : k / 32 = k₀ / 32
  · rw [hi, Function.update_self, BitVec.getLsbD_and, BitVec.getLsbD_not, getLsbD_bit hj]
    have hk : k % 32 < 32 := Nat.mod_lt _ (by decide)
    congr 1
    rw [decide_eq_true hk, Bool.true_and, ← decide_not]
    exact decide_eq_decide.mpr (by omega)
  · have hne : k ≠ k₀ := by
      rintro rfl
      exact hi rfl
    rw [Function.update_of_ne hi, decide_eq_true hne, Bool.and_true]

theorem bitLoop_spec (word : BitVec 32) (n j : ℕ) (hn : j + n ≤ 32) :
    j ≤ bitLoop word n j ∧ bitLoop word n j ≤ j + n ∧
      (∀ k, j ≤ k → k < bitLoop word n j → word.getLsbD k = true) ∧
      (bitLoop word n j < j + n → word.getLsbD (bitLoop word n j) = false) := by
  induction n generalizing j with
  | zero =>
    refine ⟨le_rfl, le_rfl, fun k h1 h2 => ?_, fun h => absurd h (lt_irrefl _)⟩
    simp only [bitLoop] at h2
    omega
  | succ n ih =>
    rw [bitLoop]
    have hbit := and_bit_eq_zero_iff word (show j < 32 by omega)
    split_ifs with h
    · exact ⟨le_rfl, by omega, fun k h1 h2 => by omega, fun _ => hbit.mp h⟩
    · obtain ⟨h1, h2, h3, h4⟩ := ih (j + 1) (by omega)
      refine ⟨by omega, by omega, fun k hk hlt => ?_, fun hlt => h4 (by omega)⟩
      rcases hk.eq_or_lt with rfl | hk
      · exact Bool.of_not_eq_false (mt hbit.mpr h)
      · exact h3 k hk hlt

theorem bitLoop_lt {word : BitVec 32} (h : word ≠ BitVec.allOnes 32) : bitLoop word 32 0 < 32 := by
  obtain ⟨-, hle, hset, -⟩ := bitLoop_spec word 32 0 (by omega)
  by_contra hlt
  apply h
  apply BitVec.eq_of_getLsbD_eq
  intro k hk
  rw [hset k (Nat.zero_le k) (by omega), BitVec.getLsbD_allOnes, decide_eq_true hk]

theorem aidBit_eq (words : ℕ → BitVec 32) (i : ℕ) {j : ℕ} (hj : j < 32) :
    aidBit words (i * 32 + j) = (words i).getLsbD j := by
  have hdiv : (i * 32 + j) / 32 = i := by omega
  have hmod : (i * 32 + j) % 32 = j := by omega
  rw [aidBit, hdiv, hmod]

/-- The bits before the place found are set, all of them if there is none. -/
theorem wordLoop_spec (words : ℕ → BitVec 32) (n i : ℕ) :
    match wordLoop words n i with
    | none => ∀ k, i * 32 ≤ k → k < (i + n) * 32 → aidBit words k = true
    | some (i', j) => i' < i + n ∧ j < 32 ∧ aidBit words (i' * 32 + j) = false ∧
        ∀ k, i * 32 ≤ k → k < i' * 32 + j → aidBit words k = true := by
  induction n generalizing i with
  | zero =>
    intro k h1 h2
    omega
  | succ n ih =>
    have hnext := ih (i + 1)
    have hmod : ∀ k, k % 32 < 32 := fun k => Nat.mod_lt k (by decide)
    rw [wordLoop]
    by_cases hw : words i = BitVec.allOnes 32
    · have hfull : ∀ k, k / 32 = i → aidBit words k = true := by
        rintro k rfl
        rw [aidBit, hw, BitVec.getLsbD_allOnes, decide_eq_true (hmod k)]
      rw [if_pos hw]
      cases hl : wordLoop words n (i + 1) with
      | none =>
        rw [hl] at hnext
        intro k h1 h2
        by_cases hk : k / 32 = i
        · exact hfull k hk
        · exact hnext k (by omega) (by omega)
      | some r =>
        rw [hl] at hnext
        obtain ⟨h1, h2, h3, h4⟩ := hnext
        refine ⟨by omega, h2, h3, fun k hk hlt => ?_⟩
        by_cases hki : k / 32 = i
        · exact hfull k hki
        · exact h4 k (by omega) hlt
    · have hlt := bitLoop_lt hw
      obtain ⟨-, -, hset, hclear⟩ := bitLoop_spec (words i) 32 0 (by omega)
      rw [if_neg hw]
      simp only [if_pos hlt]
      refine ⟨by omega, hlt, ?_, fun k hk hlt' => ?_⟩
      · rw [aidBit_eq words i hlt]
        exact hclear (by omega)
      · have hki : k / 32 = i := by omega
        rw [aidBit, hki]
        exact hset _ (Nat.zero_le _) (by omega)

/-- The identifier that the two loops find is the smallest one that is free. -/
theorem freeAid_eq {words : ℕ → BitVec 32} {table : Table}
    (h : ∀ k, aidBit words k = true ↔ ∃ e ∈ table, e.aid = k + 1) :
    table.freeAid = match wordLoop words aidWords 0 with
      | none => none
      | some (i, j) => if i * 32 + j + 1 > 2007 then none else some (i * 32 + j + 1) := by
  have htaken : ∀ aid, 1 ≤ aid → aidBit words (aid - 1) = true → ¬∀ e ∈ table, e.aid ≠ aid := by
    intro aid hpos hbit hfree
    obtain ⟨e, he, haid⟩ := (h (aid - 1)).mp hbit
    exact hfree e he (by omega)
  have hspec := wordLoop_spec words aidWords 0
  have hnone : (∀ k, k < 2007 → aidBit words k = true) → table.freeAid = none := by
    intro hall
    refine List.find?_eq_none.mpr fun aid haid => ?_
    obtain ⟨h1, h2⟩ := List.mem_range'_1.mp haid
    simpa using htaken aid h1 (hall _ (by omega))
  cases hl : wordLoop words aidWords 0 with
  | none =>
    rw [hl] at hspec
    have hwords : aidWords = 63 := rfl
    exact hnone fun k hk => hspec k (by omega) (by omega)
  | some r =>
    obtain ⟨i, j⟩ := r
    rw [hl] at hspec
    obtain ⟨hi, hj, hclear, hset⟩ := hspec
    dsimp only
    split_ifs with hbig
    · exact hnone fun k hk => hset k (by omega) (by omega)
    · refine List.find?_range'_eq_some.mpr ⟨?_, List.mem_range'_1.mpr ⟨by omega, by omega⟩, ?_⟩
      · refine decide_eq_true fun e he haid => ?_
        rw [(h _).mpr ⟨e, he, haid⟩] at hclear
        cases hclear
      · intro aid h1 h2
        simpa using htaken aid h1 (hset _ (by omega) (by omega))

end AuroraRelay.Hostapd
