import Mathlib.Logic.Basic

/-!
# Programs that call their surroundings

A program either returns or makes a call and goes on with the reply.  Nothing is
said about who replies, so a statement about all replies holds for the program
inside any system of threads.  A monitor is a state machine over the calls that
says which call is allowed when.
-/

namespace Interaction

variable {C : Type} {R : C → Type} {α β σ : Type}

inductive Prog (C : Type) (R : C → Type) (α : Type)
  | ret (a : α)
  | call (c : C) (k : R c → Prog C R α)

namespace Prog

def bind : Prog C R α → (α → Prog C R β) → Prog C R β
  | ret a, f => f a
  | call c k, f => call c fun r => (k r).bind f

instance : Monad (Prog C R) where
  pure := ret
  bind := bind

def perform (c : C) : Prog C R (R c) := call c ret

end Prog

abbrev Event (C : Type) (R : C → Type) := Σ c, R c

/-- Running a program against a handler that keeps a state: the calls made, the
result and the state afterwards. -/
def Prog.run (handle : σ → (c : C) → R c × σ) : σ → Prog C R α → List (Event C R) × α × σ
  | s, ret a => ([], a, s)
  | s, call c k =>
    let (r, s') := handle s c
    let (t, result) := Prog.run handle s' (k r)
    (⟨c, r⟩ :: t, result)

/-- Whether a call is allowed, and how the monitor goes on with the reply. -/
abbrev Monitor (C : Type) (R : C → Type) (σ : Type) := σ → (c : C) → Option (R c → σ)

/-- Whatever the replies, the program makes only calls that the monitor allows and
returns in a state and with a result that meet `Q`. -/
def Obeys (M : Monitor C R σ) (Q : σ → α → Prop) : σ → Prog C R α → Prop
  | s, .ret a => Q s a
  | s, .call c k => ∃ next, M s c = some next ∧ ∀ r, Obeys M Q (next r) (k r)

def observe (M : Monitor C R σ) : σ → List (Event C R) → Option σ
  | s, [] => some s
  | s, e :: t => (M s e.1).bind fun next => observe M (next e.2) t

variable {M : Monitor C R σ} {Q : σ → α → Prop} {s : σ}

theorem obeys_call {c : C} {k : R c → Prog C R α} {next : R c → σ} (h : M s c = some next) :
    Obeys M Q s (.call c k) ↔ ∀ r, Obeys M Q (next r) (k r) := by
  constructor
  · rintro ⟨next', h', hk⟩
    obtain rfl := Option.some.inj (h.symm.trans h')
    exact hk
  · intro hk
    exact ⟨next, h, hk⟩

/-- What the monitor keeps to holds where the program returns. -/
theorem Obeys.of_invariant {I : σ → Prop} {Q' : σ → α → Prop} {p : Prog C R α}
    (h : Obeys M Q s p) (hs : I s)
    (hI : ∀ s c next, I s → M s c = some next → ∀ r, I (next r))
    (hQ : ∀ s a, Q s a → I s → Q' s a) : Obeys M Q' s p := by
  induction p generalizing s with
  | ret a => exact hQ s a h hs
  | call c k ih =>
    obtain ⟨next, hM, hk⟩ := h
    exact ⟨next, hM, fun r => ih r (hk r) (hI s c next hs hM r)⟩

/-- What holds of all replies holds of those that a handler gives. -/
theorem Obeys.observe_run {τ : Type} {p : Prog C R α} (h : Obeys M Q s p)
    (handle : τ → (c : C) → R c × τ) (x : τ) :
    ∃ s', observe M s (p.run handle x).1 = some s' ∧ Q s' (p.run handle x).2.1 := by
  induction p generalizing s x with
  | ret a => exact ⟨s, rfl, h⟩
  | call c k ih =>
    obtain ⟨next, hM, hk⟩ := h
    obtain ⟨s', hs, hq⟩ := ih _ (hk (handle x c).1) (handle x c).2
    refine ⟨s', ?_, hq⟩
    change (M s c).bind (fun next => observe M (next (handle x c).1) _) = some s'
    rw [hM]
    exact hs

/-- Each event was allowed when it came. -/
theorem allowed_of_observe {t : List (Event C R)} {s' : σ} (h : observe M s t = some s')
    {e : Event C R} (he : e ∈ t) : ∃ s₀ next, M s₀ e.1 = some next := by
  induction t generalizing s with
  | nil => cases he
  | cons e' t ih =>
    obtain ⟨next, hM, h⟩ := Option.bind_eq_some_iff.mp h
    rcases List.mem_cons.mp he with rfl | he
    · exact ⟨s, next, hM⟩
    · exact ih h he

end Interaction
