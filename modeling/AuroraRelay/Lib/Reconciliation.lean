import Mathlib.Data.List.Induction
import Mathlib.Data.Set.Subsingleton
import Mathlib.Order.Defs.LinearOrder
import Mathlib.Tactic.Tauto

/-!
# Reconciliation place by place

Someone is reported at one of several places, report after report.  After each report the
places are visited in their order: a place that has gained them sets the route to itself, a
place that has lost them deletes the route, whichever place had set it.  The last of these
visits decides, so that the route is lost where the place that was left comes after the
place that was entered, and stays lost until the next move.
-/

namespace Reconciliation

variable {ι π : Type*} (port : ι → π)

open Classical in
/-- The visit of one place: `old` and `new` are the places of the two reports. -/
noncomputable def visit (old new : Set ι) (route : Option π) (v : ι) : Option π :=
  if v ∈ new ∧ v ∉ old then some (port v)
  else if v ∈ old ∧ v ∉ new then none
  else route

noncomputable def settle (places : List ι) (old new : Set ι) (route : Option π) : Option π :=
  places.foldl (visit port old new) route

def current (reports : List (Set ι)) : Set ι := reports.getLast?.getD ∅

/-- The route after the reports, the first of which finds nobody anywhere. -/
noncomputable def follow (places : List ι) (reports : List (Set ι)) : Set ι × Option π :=
  reports.foldl (fun s new => (new, settle port places s.1 new s.2)) (∅, none)

/-- At some report they came to `v` from a later place, and they have been there since. -/
def LeftBehind [LT ι] (reports : List (Set ι)) (v : ι) : Prop :=
  ∃ before new after u, reports = before ++ new :: after ∧ u ∈ current before ∧ v ∈ new ∧
    v < u ∧ ∀ s ∈ after, v ∈ s

variable {port} {places : List ι} {old new : Set ι} {route : Option π} {u v : ι}

theorem visit_of_iff (h : v ∈ old ↔ v ∈ new) : visit port old new route v = route := by
  unfold visit
  rw [if_neg (by tauto), if_neg (by tauto)]

theorem settle_of_iff (h : ∀ v ∈ places, v ∈ old ↔ v ∈ new) :
    settle port places old new route = route := by
  unfold settle
  induction places with
  | nil => rfl
  | cons v places ih =>
    rw [List.foldl_cons, visit_of_iff (h v (by simp))]
    exact ih fun w hw => h w (by simp [hw])

theorem current_concat (reports : List (Set ι)) (new : Set ι) :
    current (reports ++ [new]) = new := by
  simp [current]

theorem follow_concat (reports : List (Set ι)) (new : Set ι) :
    follow port places (reports ++ [new]) =
      (new, settle port places (follow port places reports).1 new
        (follow port places reports).2) := by
  simp [follow]

theorem follow_fst (reports : List (Set ι)) :
    (follow port places reports).1 = current reports := by
  induction reports using List.reverseRecOn with
  | nil => rfl
  | append_singleton reports new _ => rw [follow_concat, current_concat]

variable [LinearOrder ι]

/-- The last place whose report has changed decides. -/
theorem settle_of_last {outcome : Option π} (hsorted : places.Pairwise (· < ·)) (hv : v ∈ places)
    (hvisit : ∀ route, visit port old new route v = outcome)
    (hlater : ∀ w ∈ places, v < w → (w ∈ old ↔ w ∈ new)) :
    settle port places old new route = outcome := by
  obtain ⟨earlier, later, rfl⟩ := List.append_of_mem hv
  have habove : ∀ w ∈ later, v < w :=
    (List.pairwise_cons.mp (List.pairwise_append.mp hsorted).2.1).1
  unfold settle
  rw [List.foldl_append, List.foldl_cons, hvisit]
  exact settle_of_iff fun w hw => hlater w (by simp [hw]) (habove w hw)

/-- Arrived from nowhere or from an earlier place. -/
theorem settle_arrived (hsorted : places.Pairwise (· < ·)) (hnew : new.Subsingleton)
    (hv : v ∈ places) (hvn : v ∈ new) (hvo : v ∉ old) (hu : ∀ u ∈ old, u < v) :
    settle port places old new route = some (port v) := by
  apply settle_of_last hsorted hv
  · intro route
    exact if_pos ⟨hvn, hvo⟩
  · intro w _ hvw
    constructor
    · intro hwo
      exact absurd (hu w hwo) hvw.asymm
    · intro hwn
      exact absurd (hnew hvn hwn) hvw.ne

/-- Gone, or moved to an earlier place. -/
theorem settle_left (hsorted : places.Pairwise (· < ·)) (hold : old.Subsingleton)
    (hu : u ∈ places) (huo : u ∈ old) (hun : u ∉ new) (hv : ∀ v ∈ new, v < u) :
    settle port places old new route = none := by
  apply settle_of_last hsorted hu
  · intro route
    exact (if_neg (by tauto)).trans (if_pos ⟨huo, hun⟩)
  · intro w _ huw
    constructor
    · intro hwo
      exact absurd (hold huo hwo) huw.ne
    · intro hwn
      exact absurd (hv w hwn) huw.asymm

theorem LeftBehind.mem_current {reports : List (Set ι)} (h : LeftBehind reports v) :
    v ∈ current reports := by
  obtain ⟨before, r, after, u, rfl, -, hvr, -, hafter⟩ := h
  -- the last report is `r` or one of those after it
  cases after using List.reverseRecOn with
  | nil => rwa [current_concat]
  | append_singleton after s =>
    rw [← List.cons_append, ← List.append_assoc, current_concat]
    exact hafter s (by simp)

/-- A report of which `v` is part either brought them there from a later place or finds
them where they were left behind before. -/
theorem leftBehind_concat {reports : List (Set ι)} (hv : v ∈ new) :
    LeftBehind (reports ++ [new]) v ↔
      (∃ u ∈ current reports, v < u) ∨ (v ∈ current reports ∧ LeftBehind reports v) := by
  constructor
  · rintro ⟨before, r, after, u, hsplit, hu, hvr, hlt, hafter⟩
    cases after using List.reverseRecOn with
    | nil =>
      obtain ⟨rfl, -⟩ := List.append_inj' hsplit rfl
      exact .inl ⟨u, hu, hlt⟩
    | append_singleton after s =>
      rw [← List.cons_append, ← List.append_assoc] at hsplit
      obtain ⟨rfl, -⟩ := List.append_inj' hsplit rfl
      have hbehind : LeftBehind (before ++ r :: after) v :=
        ⟨before, r, after, u, rfl, hu, hvr, hlt, fun s hs => hafter s (by simp [hs])⟩
      exact .inr ⟨hbehind.mem_current, hbehind⟩
  · rintro (⟨u, hu, hlt⟩ | ⟨-, before, r, after, u, rfl, hu, hvr, hlt, hafter⟩)
    · exact ⟨reports, new, [], u, rfl, hu, hv, hlt, by simp⟩
    · refine ⟨before, r, after ++ [new], u, by simp, hu, hvr, hlt, ?_⟩
      intro s hs
      rcases List.mem_append.mp hs with hs | hs
      · exact hafter s hs
      · rw [List.mem_singleton.mp hs]
        exact hv

/-- The route of someone who is nowhere, who has been left behind, or who is followed. -/
structure Tracks (port : ι → π) (reports : List (Set ι)) (route : Option π) : Prop where
  nowhere : current reports = ∅ → route = none
  behind : ∀ v ∈ current reports, LeftBehind reports v → route = none
  followed : ∀ v ∈ current reports, ¬LeftBehind reports v → route = some (port v)

theorem tracks_follow (hsorted : places.Pairwise (· < ·)) {reports : List (Set ι)}
    (hone : ∀ r ∈ reports, r.Subsingleton) (hplaces : ∀ r ∈ reports, ∀ v ∈ r, v ∈ places) :
    Tracks port reports (follow port places reports).2 := by
  induction reports using List.reverseRecOn with
  | nil => exact ⟨fun _ => rfl, fun v hv => hv.elim, fun v hv => hv.elim⟩
  | append_singleton reports new ih =>
    have ih := ih (fun r hr => hone r (by simp [hr])) fun r hr => hplaces r (by simp [hr])
    have hnew : new.Subsingleton := hone new (by simp)
    rw [follow_concat, follow_fst]
    have hold : (current reports).Subsingleton ∧ ∀ v ∈ current reports, v ∈ places := by
      unfold current
      cases h : reports.getLast? with
      | none => exact ⟨Set.subsingleton_empty, fun v hv => hv.elim⟩
      | some r =>
        have hr : r ∈ reports ++ [new] := by simp [List.mem_of_getLast? h]
        exact ⟨hone r hr, hplaces r hr⟩
    -- where the two reports agree on one place, they agree everywhere
    have hstays (v : ι) (hvo : v ∈ current reports) (hvn : v ∈ new) :
        settle port places (current reports) new (follow port places reports).2 =
          (follow port places reports).2 := by
      apply settle_of_iff
      intro w _
      constructor
      · intro hw
        rwa [hold.1 hw hvo]
      · intro hw
        rwa [hnew hw hvn]
    refine ⟨fun hempty => ?_, fun v hv hbehind => ?_, fun v hv hfollowed => ?_⟩
    · rw [current_concat] at hempty
      subst hempty
      rcases Set.eq_empty_or_nonempty (current reports) with hnone | ⟨u, hu⟩
      · rw [settle_of_iff (by simp [hnone])]
        exact ih.nowhere hnone
      · exact settle_left hsorted hold.1 (hold.2 u hu) hu (fun h => h) fun v hv => hv.elim
    · rw [current_concat] at hv
      rcases (leftBehind_concat hv).mp hbehind with ⟨u, hu, hlt⟩ | ⟨hvo, hb⟩
      · apply settle_left hsorted hold.1 (hold.2 u hu) hu
        · intro hun
          exact hlt.ne (hnew hv hun)
        · intro w hw
          rwa [hnew hw hv]
      · rw [hstays v hvo hv]
        exact ih.behind v hvo hb
    · rw [current_concat] at hv
      rw [leftBehind_concat hv] at hfollowed
      by_cases hvo : v ∈ current reports
      · rw [hstays v hvo hv]
        exact ih.followed v hvo fun hb => hfollowed (.inr ⟨hvo, hb⟩)
      · apply settle_arrived hsorted hnew (hplaces new (by simp) v hv) hv hvo
        intro u hu
        rcases lt_trichotomy u v with h | rfl | h
        · exact h
        · exact absurd hu hvo
        · exact absurd (.inl ⟨u, hu, h⟩) hfollowed

end Reconciliation
