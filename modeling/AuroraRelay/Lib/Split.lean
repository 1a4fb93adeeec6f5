import Mathlib.Data.List.Infix
import Mathlib.Data.Nat.Find

namespace Split

variable {α : Type*} [DecidableEq α] {d s t p r : List α} {ps : List (List α)}

/-- Cut at the first `d` again and again: `ps` are the pieces before the cuts, and `r` is what
is left. -/
inductive Splits (d : List α) : List α → List (List α) → List α → Prop
  | rest {s : List α} (h : s.dropInfix? d = none) : Splits d s [] s
  | piece {s p t r : List α} {ps : List (List α)} (hp : s.dropInfix? d = some (p, t))
      (h : Splits d t ps r) : Splits d s (p :: ps) r

theorem forall_ne_of_not_mem {a : α} {l : List α} (h : a ∉ l) :
    ∀ b ∈ l, decide (b ≠ a) = true := by
  intro b hb
  simp only [decide_eq_true_eq]
  rintro rfl
  exact h hb

theorem eq_append_of_dropInfix? (h : s.dropInfix? d = some (p, t)) : s = p ++ d ++ t := by
  obtain ⟨⟨d', rfl, hd⟩, -⟩ := List.dropInfix?_eq_some_iff.mp h
  rw [eq_of_beq hd]

theorem not_infix_piece (hne : d ≠ []) (h : s.dropInfix? d = some (p, t)) : ¬d <:+: p := by
  rintro ⟨a, b, rfl⟩
  -- an occurrence inside the piece would start earlier than the first one
  obtain ⟨-, hmin⟩ := List.dropInfix?_eq_some_iff.mp h
  have hs := eq_append_of_dropInfix? h
  have hle := hmin a d (b ++ d ++ t) (by simp [hs]) (beq_self_eq_true d)
  have hpos := List.length_pos_of_ne_nil hne
  simp only [List.length_append] at hle
  omega

theorem not_infix_rest (h : s.dropInfix? d = none) : ¬d <:+: s := by
  rintro ⟨a, b, hs⟩
  have hex : ∃ n p t, s = p ++ d ++ t ∧ p.length = n := ⟨a.length, a, b, hs.symm, rfl⟩
  classical
  obtain ⟨p, t, hp, hn⟩ := Nat.find_spec hex
  have hfirst : s.dropInfix? d = some (p, t) := by
    refine List.dropInfix?_eq_some_iff.mpr ⟨⟨d, hp, beq_self_eq_true d⟩, ?_⟩
    intro p' d' t' hs' hd'
    obtain rfl : d' = d := eq_of_beq hd'
    rw [hn]
    exact Nat.find_min' hex ⟨p', t', hs', rfl⟩
  rw [h] at hfirst
  cases hfirst

/-- Each cut takes at least one element out, so there is an end to it. -/
theorem exists_splits (hne : d ≠ []) (s : List α) : ∃ ps r, Splits d s ps r := by
  have hpos := List.length_pos_of_ne_nil hne
  induction hn : s.length using Nat.strong_induction_on generalizing s with
  | _ n ih =>
    cases hs : s.dropInfix? d with
    | none => exact ⟨[], s, .rest hs⟩
    | some cut =>
      have hlen := congrArg List.length (eq_append_of_dropInfix? hs)
      simp only [List.length_append] at hlen
      obtain ⟨ps, r, h⟩ := ih cut.2.length (by omega) cut.2 rfl
      exact ⟨cut.1 :: ps, r, .piece hs h⟩

theorem Splits.free (hne : d ≠ []) (h : Splits d s ps r) : ∀ p ∈ ps ++ [r], ¬d <:+: p := by
  induction h with
  | rest h => simpa using not_infix_rest h
  | piece hp _ ih => exact List.forall_mem_cons.mpr ⟨not_infix_piece hne hp, ih⟩

theorem Splits.join (h : Splits d s ps r) : d.intercalate (ps ++ [r]) = s := by
  induction h with
  | rest _ => exact List.intercalate_singleton
  | piece hp _ ih =>
    rw [List.cons_append, List.intercalate_cons_of_ne_nil (by simp), ih,
      eq_append_of_dropInfix? hp]

/-- A delimiter of one element splits as `List.splitOn` does. -/
theorem Splits.eq_splitOn {x : α} (h : Splits [x] s ps r) : ps ++ [r] = s.splitOn x := by
  have hx : ∀ p ∈ ps ++ [r], x ∉ p :=
    fun p hp hmem => h.free (by simp) p hp ((List.singleton_infix_iff x p).mpr hmem)
  rw [← h.join, List.splitOn_intercalate x hx (by simp)]

end Split
