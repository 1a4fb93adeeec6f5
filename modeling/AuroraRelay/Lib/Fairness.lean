import Mathlib.Data.Set.Basic
import AuroraRelay.Lib.Transition

namespace Transition.Machine

variable {σ ι : Type*} (M : Machine σ ι)

structure Run where
  state : ℕ → σ
  label : ℕ → Option ι
  start : state 0 = M.init
  next : ∀ n, (label n).elim (some (state n)) (M.step (state n)) = some (state (n + 1))

variable {M}

namespace Run

variable (r : M.Run)

/-- A thread is the set of its labels. -/
def WeaklyFair (A : Set ι) : Prop :=
  ∀ n, (∀ m ≥ n, ∃ l ∈ A, (M.step (r.state m) l).isSome) → ∃ m ≥ n, ∃ l ∈ A, r.label m = some l

def LeadsTo (P Q : σ → Prop) : Prop := ∀ n, P (r.state n) → ∃ m ≥ n, Q (r.state m)

def Meets (C : σ → ι → Prop) : Prop := ∀ n l, r.label n = some l → C (r.state n) l

variable {r}

theorem step_of_label {n : ℕ} {l : ι} (h : r.label n = some l) :
    M.step (r.state n) l = some (r.state (n + 1)) := by
  have hnext := r.next n
  rw [h] at hnext
  exact hnext

theorem state_of_idle {n : ℕ} (h : r.label n = none) : r.state (n + 1) = r.state n := by
  have hnext := r.next n
  rw [h] at hnext
  exact (Option.some.inj hnext).symm

theorem Meets.reachableIf {C : σ → ι → Prop} (h : r.Meets C) (n : ℕ) :
    M.ReachableIf C (r.state n) := by
  induction n with
  | zero =>
    rw [r.start]
    exact .init
  | succ n ih =>
    cases hl : r.label n with
    | none =>
      rw [state_of_idle hl]
      exact ih
    | some l => exact ih.step (h n l hl) (step_of_label hl)

theorem reachable (r : M.Run) (n : ℕ) : M.Reachable (r.state n) :=
  Meets.reachableIf (C := fun _ _ => True) (fun _ _ _ => trivial) n

/-- What every step keeps is there from then on. -/
theorem persists {P : σ → Prop}
    (hstep : ∀ n l, P (r.state n) → r.label n = some l → P (r.state (n + 1))) {n m : ℕ}
    (hle : n ≤ m) (h : P (r.state n)) : P (r.state m) := by
  induction m, hle using Nat.le_induction with
  | base => exact h
  | succ m _ ih =>
    cases hl : r.label m with
    | none => rwa [state_of_idle hl]
    | some l => exact hstep m l ih hl

theorem LeadsTo.trans {P Q R : σ → Prop} (h : r.LeadsTo P Q) (h' : r.LeadsTo Q R) :
    r.LeadsTo P R := by
  intro n hn
  obtain ⟨m, hm, hq⟩ := h n hn
  obtain ⟨k, hk, hr⟩ := h' m hq
  exact ⟨k, hm.trans hk, hr⟩

theorem leadsTo_of_imp {P Q : σ → Prop} (h : ∀ n, P (r.state n) → Q (r.state n)) :
    r.LeadsTo P Q := fun n hn => ⟨n, le_rfl, h n hn⟩

/-- A thread that can move as long as `P` holds does move, and only it or something better
ends `P`. -/
theorem leadsTo_of_fair {A : Set ι} {P Q : σ → Prop} (hfair : r.WeaklyFair A)
    (henabled : ∀ n, P (r.state n) → ∃ l ∈ A, (M.step (r.state n) l).isSome)
    (hstep : ∀ n l, P (r.state n) → r.label n = some l →
      Q (r.state (n + 1)) ∨ P (r.state (n + 1)) ∧ l ∉ A) : r.LeadsTo P Q := by
  intro n hn
  by_contra hnever
  have hkeep : ∀ m ≥ n, P (r.state m) := by
    intro m hm
    induction m, hm using Nat.le_induction with
    | base => exact hn
    | succ m hm ih =>
      cases hl : r.label m with
      | none => rwa [state_of_idle hl]
      | some l =>
        rcases hstep m l ih hl with hq | ⟨hp, -⟩
        · exact absurd ⟨m + 1, hm.trans (Nat.le_succ m), hq⟩ hnever
        · exact hp
  obtain ⟨m, hm, l, hmem, hl⟩ := hfair n fun m hm => henabled m (hkeep m hm)
  rcases hstep m l (hkeep m hm) hl with hq | ⟨-, hnot⟩
  · exact hnever ⟨m + 1, hm.trans (Nat.le_succ m), hq⟩
  · exact hnot hmem

/-- Something that keeps getting nearer is reached. -/
theorem leadsTo_of_rank {P Q : σ → Prop} (f : σ → ℕ)
    (h : ∀ k, r.LeadsTo (fun s => P s ∧ f s = k) fun s => Q s ∨ P s ∧ f s < k) :
    r.LeadsTo P Q := by
  have hrank : ∀ k, r.LeadsTo (fun s => P s ∧ f s = k) Q := by
    intro k
    induction k using Nat.strong_induction_on with
    | _ k ih =>
      intro n hn
      obtain ⟨m, hm, hq | ⟨hp, hlt⟩⟩ := h k n hn
      · exact ⟨m, hm, hq⟩
      · obtain ⟨m', hm', hq⟩ := ih _ hlt m ⟨hp, rfl⟩
        exact ⟨m', hm.trans hm', hq⟩
  exact fun n hn => hrank _ n ⟨hn, rfl⟩

end Run

/-- The state after the first labels; a label that is not enabled is left out. -/
def stateAfter (M : Machine σ ι) (ls : List ι) : ℕ → σ
  | 0 => M.init
  | n + 1 => (ls[n]?.bind (M.step (stateAfter M ls n))).getD (stateAfter M ls n)

def taken (M : Machine σ ι) (ls : List ι) (n : ℕ) : Option ι :=
  ls[n]?.filter fun l => (M.step (M.stateAfter ls n) l).isSome

theorem taken_next (ls : List ι) (n : ℕ) :
    (M.taken ls n).elim (some (M.stateAfter ls n)) (M.step (M.stateAfter ls n)) =
      some (M.stateAfter ls (n + 1)) := by
  rw [stateAfter, taken]
  cases ls[n]? with
  | none => rfl
  | some l =>
    cases h : M.step (M.stateAfter ls n) l with
    | none => simp [Option.filter_some, h]
    | some s' => simp [Option.filter_some, h]

def Run.ofLabels (M : Machine σ ι) (ls : List ι) : M.Run :=
  ⟨M.stateAfter ls, M.taken ls, by rw [stateAfter], taken_next ls⟩

theorem Run.meets_ofLabels {C : σ → ι → Prop} {ls : List ι} (h : ∀ l ∈ ls, ∀ s, C s l) :
    (Run.ofLabels M ls).Meets C := by
  intro n l hl
  obtain ⟨hget, -⟩ := Option.filter_eq_some_iff.mp hl
  exact h l (List.mem_of_getElem? hget) _

theorem stateAfter_end (ls : List ι) {n : ℕ} (h : ls.length ≤ n) :
    M.stateAfter ls n = M.stateAfter ls ls.length := by
  induction n, h using Nat.le_induction with
  | base => rfl
  | succ n hle ih =>
    rw [stateAfter, List.getElem?_eq_none hle]
    exact ih

/-- A thread that cannot move in the end has not been passed over. -/
theorem Run.weaklyFair_ofLabels {ls : List ι} {A : Set ι}
    (h : ∀ l ∈ A, M.step (M.stateAfter ls ls.length) l = none) :
    (Run.ofLabels M ls).WeaklyFair A := by
  intro n henabled
  obtain ⟨l, hmem, hsome⟩ := henabled (n + ls.length) (Nat.le_add_right ..)
  have hstep : M.step (M.stateAfter ls (n + ls.length)) l = none := by
    rw [stateAfter_end ls (Nat.le_add_left ..)]
    exact h l hmem
  have hnone : (M.step (M.stateAfter ls (n + ls.length)) l).isSome = false := by rw [hstep]; rfl
  exact absurd (hsome.symm.trans hnone) (by simp)

end Transition.Machine
