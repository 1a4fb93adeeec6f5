import Mathlib.Data.Nat.Notation
import Mathlib.Logic.Basic

/-!
# Machines with labelled steps

A machine has one initial state and a partial step function; a label names
everything a step leaves open (which thread moves, what it reads), so that a run
is a list of labels and can be evaluated.
-/

namespace Transition

/-- A label that is not enabled in a state gives `none`. -/
structure Machine (σ ι : Type*) where
  init : σ
  step : σ → ι → Option σ

namespace Machine

variable {σ ι : Type*} (M : Machine σ ι)

def exec : σ → List ι → Option σ
  | s, [] => some s
  | s, l :: ls => (M.step s l).bind fun s' => exec s' ls

def Meets (C : σ → ι → Prop) : σ → List ι → Prop
  | _, [] => True
  | s, l :: ls => C s l ∧ (M.step s l).elim True fun s' => Meets C s' ls

/-- The states of the runs from the initial state whose steps all meet `C`. -/
inductive ReachableIf (C : σ → ι → Prop) : σ → Prop
  | init : ReachableIf C M.init
  | step {s s' : σ} {l : ι} :
      ReachableIf C s → C s l → M.step s l = some s' → ReachableIf C s'

def Reachable : σ → Prop := M.ReachableIf fun _ _ => True

variable {M}

/-- A predicate of the initial state that every step meeting `C` preserves. -/
theorem ReachableIf.invariant {C : σ → ι → Prop} {I : σ → Prop} {s : σ}
    (h : M.ReachableIf C s) (h0 : I M.init)
    (hstep : ∀ s l s', I s → C s l → M.step s l = some s' → I s') : I s := by
  induction h with
  | init => exact h0
  | step _ hc hs ih => exact hstep _ _ _ ih hc hs

theorem ReachableIf.mono {C C' : σ → ι → Prop} {s : σ} (h : M.ReachableIf C s)
    (himp : ∀ s l, C s l → C' s l) : M.ReachableIf C' s :=
  h.invariant .init fun _ _ _ hs hc hstep => hs.step (himp _ _ hc) hstep

theorem Reachable.invariant {I : σ → Prop} {s : σ} (h : M.Reachable s) (h0 : I M.init)
    (hstep : ∀ s l s', I s → M.step s l = some s' → I s') : I s :=
  ReachableIf.invariant h h0 fun s l s' hi _ => hstep s l s' hi

theorem ReachableIf.exec {C : σ → ι → Prop} {s t : σ} (h : M.ReachableIf C s) (ls : List ι)
    (hm : M.Meets C s ls) (he : M.exec s ls = some t) :
    M.ReachableIf C t := by
  induction ls generalizing s with
  | nil =>
    simp only [Machine.exec, Option.some.injEq] at he
    exact he ▸ h
  | cons l ls ih =>
    simp only [Machine.exec, Option.bind_eq_some_iff] at he
    obtain ⟨s', hs, he'⟩ := he
    obtain ⟨hc, hm'⟩ := hm
    rw [hs] at hm'
    exact ih (h.step hc hs) hm' he'

theorem Meets.mono {C C' : σ → ι → Prop} {s : σ} {ls : List ι} (h : M.Meets C s ls)
    (himp : ∀ s l, C s l → C' s l) : M.Meets C' s ls := by
  induction ls generalizing s with
  | nil => trivial
  | cons l ls ih =>
    obtain ⟨hc, hrest⟩ := h
    refine ⟨himp s l hc, ?_⟩
    cases hs : M.step s l with
    | none => trivial
    | some s' =>
      rw [hs] at hrest
      exact ih hrest

/-- Steps that use something up. -/
theorem Meets.length_le {C : σ → ι → Prop} {f : σ → ℕ}
    (hstep : ∀ s l s', C s l → M.step s l = some s' → f s' < f s) {s t : σ} {ls : List ι}
    (hm : M.Meets C s ls) (he : M.exec s ls = some t) : ls.length + f t ≤ f s := by
  induction ls generalizing s with
  | nil =>
    simp only [Machine.exec, Option.some.injEq] at he
    rw [he]
    exact Nat.le_of_eq (Nat.zero_add _)
  | cons l ls ih =>
    simp only [Machine.exec, Option.bind_eq_some_iff] at he
    obtain ⟨s', hs, he'⟩ := he
    obtain ⟨hc, hm'⟩ := hm
    rw [hs] at hm'
    have hrest := ih hm' he'
    have hlt := hstep s l s' hc hs
    rw [List.length_cons]
    omega

/-- Where the condition is on the labels only. -/
theorem meets_of_forall {C : σ → ι → Prop} {ls : List ι} (h : ∀ l ∈ ls, ∀ s, C s l) (s : σ) :
    M.Meets C s ls := by
  induction ls generalizing s with
  | nil => trivial
  | cons l ls ih =>
    refine ⟨h l List.mem_cons_self s, ?_⟩
    cases M.step s l with
    | none => trivial
    | some s' => exact ih (fun l' hl' => h l' (List.mem_cons_of_mem l hl')) s'

theorem meets_true (s : σ) (ls : List ι) : M.Meets (fun _ _ => True) s ls :=
  meets_of_forall (fun _ _ _ => trivial) s

/-- A run that can be evaluated shows that its last state is reachable. -/
theorem reachable_of_exec {s : σ} (ls : List ι) (h : M.exec M.init ls = some s) :
    M.Reachable s :=
  ReachableIf.exec .init ls (meets_true _ _) h

def execIf (M : Machine σ ι) (C : σ → ι → Prop) [∀ s l, Decidable (C s l)] :
    σ → List ι → Option σ
  | s, [] => some s
  | s, l :: ls => if C s l then (M.step s l).bind fun s' => execIf M C s' ls else none

theorem reachableIf_of_execIf {C : σ → ι → Prop} [∀ s l, Decidable (C s l)] {s t : σ}
    (h : M.ReachableIf C s) (ls : List ι) (he : M.execIf C s ls = some t) :
    M.ReachableIf C t := by
  induction ls generalizing s with
  | nil =>
    simp only [execIf, Option.some.injEq] at he
    exact he ▸ h
  | cons l ls ih =>
    simp only [execIf, Option.ite_none_right_eq_some, Option.bind_eq_some_iff] at he
    obtain ⟨hc, s', hs, he'⟩ := he
    exact ih (h.step hc hs) he'

/-- A run whose end is tested: the test is evaluated, the state itself is not. -/
theorem exists_reachableIf {C : σ → ι → Prop} [∀ s l, Decidable (C s l)] {P : σ → Bool}
    (ls : List ι) (h : (M.execIf C M.init ls).any P = true) :
    ∃ s, M.ReachableIf C s ∧ P s = true := by
  obtain ⟨s, he, hp⟩ := Option.any_eq_true _ _ |>.mp h
  exact ⟨s, reachableIf_of_execIf .init ls he, hp⟩

end Machine

end Transition
