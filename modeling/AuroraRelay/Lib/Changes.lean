import Mathlib.Data.Set.Insert
import Mathlib.Tactic.Tauto

namespace Changes

variable {α : Type*}

structure Change (α : Type*) where
  came : Bool
  who : α
  deriving DecidableEq

def Change.apply (s : Set α) (e : Change α) : Set α :=
  if e.came then insert e.who s else s \ {e.who}

def replay (s : Set α) (record : List (Change α)) : Set α := record.foldl Change.apply s

theorem replay_append (s : Set α) (record more : List (Change α)) :
    replay s (record ++ more) = replay (replay s record) more := by
  simp [replay]

/-- Turn by turn, from the given one on. -/
def Alternates : Bool → List Bool → Prop
  | _, [] => True
  | x, y :: ys => y = x ∧ Alternates (!x) ys

variable [DecidableEq α]

def about (m : α) (record : List (Change α)) : List Bool :=
  record.filterMap fun e => if e.who = m then some e.came else none

/-- Exactly the changes from `old` to `new` are written down, once each. -/
structure Records (old new : Set α) (record : List (Change α)) : Prop where
  same : ∀ m, (m ∈ old ↔ m ∈ new) → about m record = []
  came : ∀ m, m ∉ old → m ∈ new → about m record = [true]
  gone : ∀ m, m ∈ old → m ∉ new → about m record = [false]

def Recorded : Set α → List (Set α) → List (List (Change α)) → Prop
  | _, [], [] => True
  | old, new :: sets, record :: records => Records old new record ∧ Recorded new sets records
  | _, _, _ => False

variable {old new : Set α} {record : List (Change α)} {m : α}

theorem about_cons (m : α) (e : Change α) (record : List (Change α)) :
    about m (e :: record) = if e.who = m then e.came :: about m record else about m record := by
  by_cases h : e.who = m <;> simp [about, h]

theorem about_append (m : α) (record more : List (Change α)) :
    about m (record ++ more) = about m record ++ about m more := by
  simp [about]

theorem Change.mem_apply {s : Set α} {e : Change α} :
    m ∈ e.apply s ↔ if e.who = m then e.came = true else m ∈ s := by
  obtain ⟨came, who⟩ := e
  by_cases h : who = m
  · cases came <;> simp [Change.apply, h]
  · cases came <;> simp [Change.apply, h, Ne.symm h]

/-- The last thing written down decides. -/
theorem mem_replay (s : Set α) (record : List (Change α)) :
    m ∈ replay s record ↔
      (about m record).getLast? = some true ∨ about m record = [] ∧ m ∈ s := by
  induction record generalizing s with
  | nil => simp [replay, about]
  | cons e record ih =>
    rw [replay, List.foldl_cons, ← replay, ih, Change.mem_apply, about_cons]
    split_ifs with h
    · rw [List.getLast?_cons]
      cases hlast : (about m record).getLast? with
      | none => simp [List.getLast?_eq_none_iff.mp hlast]
      | some x =>
        have hne : about m record ≠ [] := by
          intro hnil
          simp [hnil] at hlast
        simp [hne]
    · rfl

theorem Records.length_le (h : Records old new record) (m : α) : (about m record).length ≤ 1 := by
  by_cases ho : m ∈ old <;> by_cases hn : m ∈ new
  · simp [h.same m (by tauto)]
  · simp [h.gone m ho hn]
  · simp [h.came m ho hn]
  · simp [h.same m (by tauto)]

theorem Records.replay_eq (h : Records old new record) : replay old record = new := by
  ext m
  rw [mem_replay]
  by_cases ho : m ∈ old <;> by_cases hn : m ∈ new
  · simp [h.same m (by tauto), ho, hn]
  · simp [h.gone m ho hn, hn]
  · simp [h.came m ho hn, hn]
  · simp [h.same m (by tauto), ho, hn]

/-- Nothing is written down where nothing has changed. -/
theorem Records.eq_nil (h : Records old new record) (heq : old = new) : record = [] := by
  cases record with
  | nil => rfl
  | cons e record =>
    have habout := h.same e.who (by rw [heq])
    simp [about_cons] at habout

theorem Recorded.replay_eq {sets : List (Set α)} {records : List (List (Change α))}
    (h : Recorded old sets records) : replay old records.flatten = sets.getLast?.getD old := by
  induction sets generalizing old records with
  | nil =>
    cases records with
    | nil => rfl
    | cons record records => exact h.elim
  | cons new sets ih =>
    cases records with
    | nil => exact h.elim
    | cons record records =>
      rw [List.flatten_cons, replay_append, h.1.replay_eq, ih h.2]
      simp [List.getLast?_cons]

theorem Recorded.alternates {sets : List (Set α)} {records : List (List (Change α))}
    (h : Recorded old sets records) (m : α) :
    (m ∉ old → Alternates true (about m records.flatten)) ∧
      (m ∈ old → Alternates false (about m records.flatten)) := by
  induction sets generalizing old records with
  | nil =>
    cases records with
    | nil => exact ⟨fun _ => trivial, fun _ => trivial⟩
    | cons record records => exact h.elim
  | cons new sets ih =>
    cases records with
    | nil => exact h.elim
    | cons record records =>
      obtain ⟨habsent, hpresent⟩ := ih h.2
      rw [List.flatten_cons, about_append]
      refine ⟨fun ho => ?_, fun ho => ?_⟩
      · by_cases hn : m ∈ new
        · rw [h.1.came m ho hn]
          exact ⟨rfl, hpresent hn⟩
        · rw [h.1.same m (by tauto)]
          exact habsent hn
      · by_cases hn : m ∈ new
        · rw [h.1.same m (by tauto)]
          exact hpresent hn
        · rw [h.1.gone m ho hn]
          exact ⟨rfl, habsent hn⟩

theorem Recorded.length_eq {sets : List (Set α)} {records : List (List (Change α))}
    (h : Recorded old sets records) : records.length = sets.length := by
  induction sets generalizing old records with
  | nil =>
    cases records with
    | nil => rfl
    | cons record records => exact h.elim
  | cons new sets ih =>
    cases records with
    | nil => exact h.elim
    | cons record records => simp [ih h.2]

theorem Recorded.length_le {sets : List (Set α)} {records : List (List (Change α))}
    (h : Recorded old sets records) (hrecord : record ∈ records) (m : α) :
    (about m record).length ≤ 1 := by
  induction sets generalizing old records with
  | nil =>
    cases records with
    | nil => cases hrecord
    | cons _ _ => exact h.elim
  | cons new sets ih =>
    cases records with
    | nil => exact h.elim
    | cons _ _ =>
      rcases List.mem_cons.mp hrecord with rfl | hrecord
      · exact h.1.length_le m
      · exact ih h.2 hrecord

theorem Recorded.records {sets : List (Set α)} {records : List (List (Change α))}
    (h : Recorded old sets records) {i : ℕ} {record : List (Change α)} {before after : Set α}
    (hrecord : records[i]? = some record) (hbefore : (old :: sets)[i]? = some before)
    (hafter : sets[i]? = some after) : Records before after record := by
  induction sets generalizing old records i with
  | nil => simp at hafter
  | cons new sets ih =>
    cases records with
    | nil => exact h.elim
    | cons r records =>
      cases i with
      | zero =>
        simp only [List.getElem?_cons_zero, Option.some.injEq] at hrecord hbefore hafter
        rw [← hrecord, ← hbefore, ← hafter]
        exact h.1
      | succ i =>
        simp only [List.getElem?_cons_succ] at hrecord hbefore hafter
        exact ih h.2 hrecord hbefore hafter

end Changes
