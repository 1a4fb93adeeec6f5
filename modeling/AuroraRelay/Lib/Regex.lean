import Mathlib.Data.List.Basic

namespace Regex

variable {α : Type*}

inductive Item (α : Type*)
  | one (p : α → Bool)
  | many (p : α → Bool)

inductive Matches : List (Item α) → List α → Prop
  | nil : Matches [] []
  | one {p : α → Bool} {items : List (Item α)} {c : α} {text : List α} :
      p c = true → Matches items text → Matches (.one p :: items) (c :: text)
  | done {p : α → Bool} {items : List (Item α)} {text : List α} :
      Matches items text → Matches (.many p :: items) text
  | more {p : α → Bool} {items : List (Item α)} {c : α} {text : List α} :
      p c = true → Matches (.many p :: items) text → Matches (.many p :: items) (c :: text)

/-- As many letters as `next` allows, and what `next` takes behind them. -/
def greedy (p : α → Bool) (next : List α → Option (List α)) : List α → Option (List α)
  | [] => next []
  | c :: text =>
    if p c then ((greedy p next text).map (c :: ·)).or (next (c :: text)) else next (c :: text)

def matchAt : List (Item α) → List α → Option (List α)
  | [], _ => some []
  | .one _ :: _, [] => none
  | .one p :: items, c :: text => if p c then (matchAt items text).map (c :: ·) else none
  | .many p :: items, text => greedy p (matchAt items) text

/-- The matches in a text, behind the letters that belong to the last one. -/
def findallFrom (items : List (Item α)) : ℕ → List α → List (List α)
  | _, [] => []
  | skip + 1, _ :: text => findallFrom items skip text
  | 0, c :: text =>
    match matchAt items (c :: text) with
    | some (m :: rest) => (m :: rest) :: findallFrom items rest.length text
    | _ => findallFrom items 0 text

def findall (items : List (Item α)) (text : List α) : List (List α) := findallFrom items 0 text

section Greedy

variable {p : α → Bool} {next : List α → Option (List α)}

/-- What is taken is what `next` takes, behind letters of the class. -/
theorem greedy_eq_some {text m : List α} (h : greedy p next text = some m) :
    ∃ taken rest m', text = taken ++ rest ∧ (∀ c ∈ taken, p c = true) ∧ next rest = some m' ∧
      m = taken ++ m' := by
  induction text generalizing m with
  | nil => exact ⟨[], [], m, rfl, by simp, h, rfl⟩
  | cons c text ih =>
    rw [greedy] at h
    split_ifs at h with hc
    · rcases Option.or_eq_some_iff.mp h with hmore | ⟨-, hdone⟩
      · obtain ⟨m', hm', rfl⟩ := Option.map_eq_some_iff.mp hmore
        obtain ⟨taken, rest, m'', rfl, htaken, hnext, rfl⟩ := ih hm'
        exact ⟨c :: taken, rest, m'', rfl, List.forall_mem_cons.mpr ⟨hc, htaken⟩, hnext, rfl⟩
      · exact ⟨[], c :: text, m, rfl, by simp, hdone, rfl⟩
    · exact ⟨[], c :: text, m, rfl, by simp, h, rfl⟩

/-- Nothing is taken if `next` cannot go on behind anything that could be. -/
theorem greedy_of_stop {text : List α}
    (hstop : ∀ x y, x ≠ [] → text = x ++ y → (∀ c ∈ x, p c = true) → next y = none) :
    greedy p next text = next text := by
  cases text with
  | nil => rfl
  | cons c text =>
    rw [greedy]
    split_ifs with hc
    · cases h : greedy p next text with
      | none => rfl
      | some m =>
        obtain ⟨taken, rest, m', rfl, htaken, hnext, -⟩ := greedy_eq_some h
        have hnone := hstop (c :: taken) rest (List.cons_ne_nil c taken) rfl
          (List.forall_mem_cons.mpr ⟨hc, htaken⟩)
        rw [hnext] at hnone
        cases hnone
    · rfl

/-- The letters are taken if `next` can go on behind them, and behind no more of them. -/
theorem greedy_append {taken rest m : List α} (htaken : ∀ c ∈ taken, p c = true)
    (hnext : next rest = some m)
    (hstop : ∀ x y, x ≠ [] → rest = x ++ y → (∀ c ∈ x, p c = true) → next y = none) :
    greedy p next (taken ++ rest) = some (taken ++ m) := by
  induction taken with
  | nil => exact (greedy_of_stop hstop).trans hnext
  | cons c taken ih =>
    obtain ⟨hc, htaken⟩ := List.forall_mem_cons.mp htaken
    rw [List.cons_append, greedy, if_pos hc, ih htaken]
    rfl

end Greedy

theorem matches_one {p : α → Bool} {items : List (Item α)} {text : List α} :
    Matches (.one p :: items) text ↔
      ∃ c rest, text = c :: rest ∧ p c = true ∧ Matches items rest := by
  constructor
  · rintro (_ | ⟨hc, hrest⟩)
    exact ⟨_, _, rfl, hc, hrest⟩
  · rintro ⟨c, rest, rfl, hc, hrest⟩
    exact .one hc hrest

theorem matches_many {p : α → Bool} {items : List (Item α)} {text : List α} :
    Matches (.many p :: items) text ↔
      ∃ taken rest, text = taken ++ rest ∧ (∀ c ∈ taken, p c = true) ∧ Matches items rest := by
  constructor
  · intro h
    induction text with
    | nil =>
      cases h with
      | done hrest => exact ⟨[], [], rfl, by simp, hrest⟩
    | cons c text ih =>
      cases h with
      | done hrest => exact ⟨[], _, rfl, by simp, hrest⟩
      | more hc hmore =>
        obtain ⟨taken, rest, rfl, htaken, hrest⟩ := ih hmore
        exact ⟨c :: taken, rest, rfl, List.forall_mem_cons.mpr ⟨hc, htaken⟩, hrest⟩
  · rintro ⟨taken, rest, rfl, htaken, hrest⟩
    induction taken with
    | nil => exact .done hrest
    | cons c taken ih =>
      obtain ⟨hc, htaken⟩ := List.forall_mem_cons.mp htaken
      exact .more hc (ih htaken)

/-- A match is a piece of the text that the pattern describes. -/
theorem matchAt_eq_some {items : List (Item α)} {text m : List α}
    (h : matchAt items text = some m) : m <+: text ∧ Matches items m := by
  induction items generalizing text m with
  | nil =>
    obtain rfl := Option.some.inj h
    exact ⟨List.nil_prefix, .nil⟩
  | cons item items ih =>
    cases item with
    | one p =>
      cases text with
      | nil => cases h
      | cons c text =>
        rw [matchAt] at h
        split_ifs at h with hc
        obtain ⟨m', hm', rfl⟩ := Option.map_eq_some_iff.mp h
        obtain ⟨hstart, hmatches⟩ := ih hm'
        exact ⟨List.cons_prefix_cons.mpr ⟨rfl, hstart⟩, .one hc hmatches⟩
    | many p =>
      obtain ⟨taken, rest, m', rfl, htaken, hnext, rfl⟩ := greedy_eq_some h
      obtain ⟨hstart, hmatches⟩ := ih hnext
      exact ⟨(List.prefix_append_right_inj taken).mpr hstart,
        matches_many.mpr ⟨taken, m', rfl, htaken, hmatches⟩⟩

theorem isSome_greedy {p : α → Bool} {next : List α → Option (List α)} {taken rest : List α}
    (htaken : ∀ c ∈ taken, p c = true) (hnext : (next rest).isSome) :
    (greedy p next (taken ++ rest)).isSome := by
  induction taken with
  | nil =>
    cases rest with
    | nil => exact hnext
    | cons c rest =>
      rw [List.nil_append, greedy]
      split_ifs
      · rw [Option.isSome_or, hnext, Bool.or_true]
      · exact hnext
  | cons c taken ih =>
    obtain ⟨hc, htaken⟩ := List.forall_mem_cons.mp htaken
    rw [List.cons_append, greedy, if_pos hc, Option.isSome_or, Option.isSome_map, ih htaken,
      Bool.true_or]

/-- The search finds a match where there is one. -/
theorem isSome_matchAt {items : List (Item α)} {m rest : List α} (h : Matches items m) :
    (matchAt items (m ++ rest)).isSome := by
  induction items generalizing m with
  | nil => rfl
  | cons item items ih =>
    cases item with
    | one p =>
      obtain ⟨c, m, rfl, hc, hm⟩ := matches_one.mp h
      rw [List.cons_append, matchAt, if_pos hc, Option.isSome_map]
      exact ih hm
    | many p =>
      obtain ⟨taken, m, rfl, htaken, hm⟩ := matches_many.mp h
      rw [List.append_assoc]
      exact isSome_greedy htaken (ih hm)

theorem matchAt_one {p : α → Bool} {items : List (Item α)} {c : α} {text : List α}
    (hc : p c = true) : matchAt (.one p :: items) (c :: text) = (matchAt items text).map (c :: ·) :=
  if_pos hc

theorem matchAt_one_of_not {p : α → Bool} {items : List (Item α)} {c : α} {text : List α}
    (hc : p c = false) : matchAt (.one p :: items) (c :: text) = none :=
  if_neg (by rw [hc]; exact Bool.false_ne_true)

theorem findall_cons_of_none {items : List (Item α)} {c : α} {text : List α}
    (h : matchAt items (c :: text) = none) : findall items (c :: text) = findall items text := by
  rw [findall, findallFrom, h]
  rfl

/-- Letters at which no match starts are passed over. -/
theorem findall_append_of_quiet {items : List (Item α)} {text rest : List α}
    (h : ∀ x y, text = x ++ y → y ≠ [] → matchAt items (y ++ rest) = none) :
    findall items (text ++ rest) = findall items rest := by
  induction text with
  | nil => rfl
  | cons c text ih =>
    have hnone := h [] (c :: text) rfl (List.cons_ne_nil c text)
    rw [List.cons_append] at hnone ⊢
    rw [findall_cons_of_none hnone]
    exact ih fun x y hxy hy => h (c :: x) y (by rw [hxy]; rfl) hy

theorem findallFrom_drop (items : List (Item α)) (taken rest : List α) :
    findallFrom items taken.length (taken ++ rest) = findall items rest := by
  induction taken with
  | nil => rfl
  | cons c taken ih =>
    rw [List.cons_append, List.length_cons, findallFrom]
    exact ih

/-- A match is recorded, and the search goes on behind it. -/
theorem findall_append_of_match {items : List (Item α)} {taken rest : List α}
    (hne : taken ≠ []) (h : matchAt items (taken ++ rest) = some taken) :
    findall items (taken ++ rest) = taken :: findall items rest := by
  cases taken with
  | nil => exact absurd rfl hne
  | cons c taken =>
    rw [List.cons_append] at h
    rw [findall, List.cons_append, findallFrom, h]
    exact congrArg _ (findallFrom_drop items taken rest)

/-- A pattern that no empty text meets is found where a text of its kind stands. -/
theorem findall_ne_nil_iff {items : List (Item α)} (hitems : ¬Matches items []) (text : List α) :
    findall items text ≠ [] ↔ ∃ m, Matches items m ∧ m <:+: text := by
  induction text with
  | nil =>
    refine iff_of_false (fun h => h rfl) ?_
    rintro ⟨m, hm, hpiece⟩
    exact hitems (List.infix_nil.mp hpiece ▸ hm)
  | cons c text ih =>
    cases h : matchAt items (c :: text) with
    | none =>
      rw [findall_cons_of_none h, ih]
      refine exists_congr fun m => and_congr_right fun hm => ?_
      rw [List.infix_cons_iff]
      refine ⟨.inr, fun hor => hor.resolve_left ?_⟩
      rintro ⟨rest, hrest⟩
      have hsome : (matchAt items (m ++ rest)).isSome := isSome_matchAt hm
      rw [hrest, h] at hsome
      cases hsome
    | some m =>
      obtain ⟨hstart, hm⟩ := matchAt_eq_some h
      refine iff_of_true ?_ ⟨m, hm, hstart.isInfix⟩
      cases m with
      | nil => exact absurd hm hitems
      | cons c' m =>
        rw [findall, findallFrom, h]
        exact List.cons_ne_nil _ _

def literal [BEq α] (text : List α) : List (Item α) := text.map fun c => .one (· == c)

theorem matches_literal [BEq α] [LawfulBEq α] {text m : List α} :
    Matches (literal text) m ↔ m = text := by
  induction text generalizing m with
  | nil =>
    constructor
    · intro h
      cases h
      rfl
    · rintro rfl
      exact .nil
  | cons c text ih =>
    rw [literal, List.map_cons, matches_one]
    constructor
    · rintro ⟨_, _, rfl, hc, hm⟩
      rw [eq_of_beq hc, ih.mp hm]
    · rintro rfl
      exact ⟨c, text, rfl, beq_self_eq_true c, ih.mpr rfl⟩

end Regex
