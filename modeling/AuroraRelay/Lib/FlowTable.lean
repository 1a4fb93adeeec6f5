import Mathlib.Order.Basic
import Mathlib.Data.List.Basic

/-!
# Flow tables

A switch holds flows, each with a pattern, a priority and an action.  The patterns are
ordered by what they match: `p ≤ q` says that `p` is at least as specific as `q`.
Adding replaces the flow with the same pattern and priority; deleting takes a pattern and
removes every flow at least as specific.
-/

namespace FlowTable

variable {μ α : Type*}

structure Flow (μ α : Type*) where
  priority : ℕ
  pattern : μ
  action : α
  deriving DecidableEq

def Flow.Clashes (f g : Flow μ α) : Prop := f.pattern = g.pattern ∧ f.priority = g.priority

instance [DecidableEq μ] (f g : Flow μ α) : Decidable (f.Clashes g) :=
  inferInstanceAs (Decidable (_ ∧ _))

def addFlow [DecidableEq μ] (flow : Flow μ α) (table : List (Flow μ α)) : List (Flow μ α) :=
  table.filter (fun f => ¬f.Clashes flow) ++ [flow]

def delFlows [LE μ] [DecidableLE μ] (pattern : μ) (table : List (Flow μ α)) :
    List (Flow μ α) :=
  table.filter fun f => ¬f.pattern ≤ pattern

theorem mem_delFlows [LE μ] [DecidableLE μ] {pattern : μ} {f : Flow μ α}
    {table : List (Flow μ α)} :
    f ∈ delFlows pattern table ↔ f ∈ table ∧ ¬f.pattern ≤ pattern := by
  simp [delFlows]

/-- The switch sends the packet by the flow: it is covered, and by none of a higher priority. -/
structure Applies {π : Type*} (covers : μ → π → Prop) (table : List (Flow μ α)) (packet : π)
    (f : Flow μ α) : Prop where
  mem : f ∈ table
  covered : covers f.pattern packet
  highest : ∀ g ∈ table, covers g.pattern packet → g.priority ≤ f.priority

structure Update (μ α : Type*) where
  removes : Flow μ α → Bool
  adds : List (Flow μ α)

def Update.apply (u : Update μ α) (table : List (Flow μ α)) : List (Flow μ α) :=
  table.filter (fun f => !u.removes f) ++ u.adds

/-- The flows replace those that they clash with. -/
def Update.add [DecidableEq μ] (flows : List (Flow μ α)) : Update μ α :=
  ⟨fun f => flows.any fun flow => f.Clashes flow, flows⟩

def Update.delete [LE μ] [DecidableLE μ] (patterns : List μ) : Update μ α :=
  ⟨fun f => patterns.any fun pattern => f.pattern ≤ pattern, []⟩

theorem foldl_addFlow [DecidableEq μ] {flows : List (Flow μ α)}
    (h : flows.Pairwise fun f g => ¬f.Clashes g) (table : List (Flow μ α)) :
    flows.foldl (fun t flow => addFlow flow t) table = (Update.add flows).apply table := by
  induction flows generalizing table with
  | nil => simp [Update.add, Update.apply]
  | cons flow flows ih =>
    obtain ⟨hflow, hflows⟩ := List.pairwise_cons.mp h
    have hkeep : flows.any (fun g => flow.Clashes g) = false := by simpa using hflow
    rw [List.foldl_cons, ih hflows]
    simp [Update.add, Update.apply, addFlow, List.filter_filter, hkeep, Bool.and_comm]

theorem foldl_delFlows [LE μ] [DecidableLE μ] (patterns : List μ) (table : List (Flow μ α)) :
    patterns.foldl (fun t pattern => delFlows pattern t) table =
      (Update.delete patterns).apply table := by
  induction patterns generalizing table with
  | nil => simp [Update.delete, Update.apply]
  | cons pattern patterns ih =>
    rw [List.foldl_cons, ih]
    simp [Update.delete, Update.apply, delFlows, List.filter_filter, Bool.and_comm]

/-- Several flows added one after the other, no two of which clash. -/
theorem mem_foldl_addFlow [DecidableEq μ] {flows : List (Flow μ α)}
    (h : flows.Pairwise fun f g => ¬f.Clashes g) {f : Flow μ α} {table : List (Flow μ α)} :
    f ∈ flows.foldl (fun t flow => addFlow flow t) table ↔
      (f ∈ table ∧ ∀ flow ∈ flows, ¬f.Clashes flow) ∨ f ∈ flows := by
  rw [foldl_addFlow h]
  simp [Update.add, Update.apply]

theorem mem_foldl_delFlows [LE μ] [DecidableLE μ] {patterns : List μ} {f : Flow μ α}
    {table : List (Flow μ α)} :
    f ∈ patterns.foldl (fun t pattern => delFlows pattern t) table ↔
      f ∈ table ∧ ∀ pattern ∈ patterns, ¬f.pattern ≤ pattern := by
  rw [foldl_delFlows]
  simp [Update.delete, Update.apply]

/-- An update that removes just what another has added takes it back. -/
theorem Update.apply_undo {u w : Update μ α} {table : List (Flow μ α)}
    (hu : ∀ f ∈ table, u.removes f = false) (hw : ∀ f ∈ table, w.removes f = false)
    (hadded : ∀ f ∈ u.adds, w.removes f = true) (hnone : w.adds = []) :
    w.apply (u.apply table) = table := by
  have hu' : table.filter (fun f => !u.removes f) = table :=
    List.filter_eq_self.mpr (by simpa using hu)
  have hw' : table.filter (fun f => !w.removes f) = table :=
    List.filter_eq_self.mpr (by simpa using hw)
  have hadded' : u.adds.filter (fun f => !w.removes f) = [] :=
    List.filter_eq_nil_iff.mpr (by simpa using hadded)
  rw [Update.apply, Update.apply, hu', List.filter_append, hw', hadded', hnone, List.append_nil,
    List.append_nil]

/-- Outside of what is removed and added, an update changes nothing. -/
theorem Update.filter_apply {u : Update μ α} {p : Flow μ α → Bool}
    (hremoves : ∀ f, u.removes f = true → p f = false) (hadds : ∀ f ∈ u.adds, p f = false)
    (table : List (Flow μ α)) : (u.apply table).filter p = table.filter p := by
  have hnone : u.adds.filter p = [] := List.filter_eq_nil_iff.mpr (by simpa using hadds)
  rw [Update.apply, List.filter_append, hnone, List.append_nil, List.filter_filter]
  apply List.filter_congr
  intro f _
  cases hr : u.removes f with
  | false => simp
  | true => simp [hremoves f hr]

/-- Updates that leave the flows of each other alone commute. -/
theorem Update.apply_comm {u w : Update μ α} (hu : ∀ f ∈ w.adds, u.removes f = false)
    (hw : ∀ f ∈ u.adds, w.removes f = false) (table : List (Flow μ α)) :
    (u.apply (w.apply table)).Perm (w.apply (u.apply table)) := by
  have hkept {x y : Update μ α} (h : ∀ f ∈ y.adds, x.removes f = false) :
      x.apply (y.apply table) =
        table.filter (fun f => !x.removes f && !y.removes f) ++ (y.adds ++ x.adds) := by
    have hall : y.adds.filter (fun f => !x.removes f) = y.adds :=
      List.filter_eq_self.mpr (by simpa using h)
    rw [Update.apply, Update.apply, List.filter_append, List.filter_filter, hall,
      List.append_assoc]
  have hsame : (fun f => !u.removes f && !w.removes f) = fun f => !w.removes f && !u.removes f := by
    funext f
    exact Bool.and_comm _ _
  rw [hkept hu, hkept hw, hsame]
  exact List.perm_append_comm.append_left _

end FlowTable
