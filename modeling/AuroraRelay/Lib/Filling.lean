import Mathlib.Logic.Function.Basic
import AuroraRelay.Lib.Memory

namespace Memory

structure Filling (α : Type*) where
  contents : ℕ → α
  index : ℕ
  /-- Every index stored to, in order. -/
  stores : List ℕ

namespace Filling

variable {α : Type*}

/-- A block as it was found, before any store. -/
def untouched (contents : ℕ → α) : Filling α := ⟨contents, 0, []⟩

/-- `block[index++] = a`. -/
def put (b : Filling α) (a : α) : Filling α where
  contents := Function.update b.contents b.index a
  index := b.index + 1
  stores := b.stores ++ [b.index]

def terminate (b : Filling α) (zero : α) : Filling α where
  contents := Function.update b.contents b.index zero
  index := b.index
  stores := b.stores ++ [b.index]

/-- The block is full up to its index with the values of a list. -/
structure Holds (b : Filling α) (l : List α) : Prop where
  index : b.index = l.length
  contents : load b.contents 0 l.length = l
  stores : b.stores = List.range l.length

theorem holds_untouched (contents : ℕ → α) : (untouched contents).Holds [] := ⟨rfl, rfl, rfl⟩

theorem load_update (contents : ℕ → α) (n : ℕ) (a : α) :
    load (Function.update contents n a) 0 (n + 1) = load contents 0 n ++ [a] := by
  rw [load, List.range_succ, List.map_append]
  congr 1
  · apply List.map_congr_left
    intro i hi
    rw [Nat.zero_add, Function.update_of_ne (List.mem_range.mp hi).ne]
  · simp

variable {b : Filling α} {l : List α}

theorem Holds.put (h : b.Holds l) (a : α) : (b.put a).Holds (l ++ [a]) where
  index := by simp [Filling.put, h.index]
  contents := by
    rw [List.length_append, List.length_singleton, Filling.put, h.index, load_update, h.contents]
  stores := by
    rw [List.length_append, List.length_singleton, List.range_succ, Filling.put, h.index,
      h.stores]

theorem Holds.puts (h : b.Holds l) (as : List α) : (as.foldl Filling.put b).Holds (l ++ as) := by
  induction as generalizing b l with
  | nil => simpa using h
  | cons a as ih => simpa using ih (h.put a)

theorem Holds.stores_terminate (h : b.Holds l) (zero : α) :
    (b.terminate zero).stores = List.range (l.length + 1) := by
  rw [terminate, h.stores, h.index, List.range_succ]

/-- What is put into two blocks that differ only in their records comes out the same. -/
theorem puts_congr {b b' : Filling α} (hcontents : b.contents = b'.contents)
    (hindex : b.index = b'.index) (as : List α) :
    (as.foldl put b).contents = (as.foldl put b').contents ∧
      (as.foldl put b).index = (as.foldl put b').index := by
  induction as generalizing b b' with
  | nil => exact ⟨hcontents, hindex⟩
  | cons a as ih =>
    apply ih
    · rw [put, put, hcontents, hindex]
    · rw [put, put, hindex]

/-- Nothing is stored behind the index. -/
theorem stores_le_puts (h : ∀ i ∈ b.stores, i ≤ b.index) (as : List α) :
    ∀ i ∈ (as.foldl put b).stores, i ≤ b.index + as.length := by
  induction as generalizing b with
  | nil => exact h
  | cons a as ih =>
    have hput : ∀ i ∈ (b.put a).stores, i ≤ (b.put a).index := by
      intro i hi
      rcases List.mem_append.mp hi with hi | hi
      · exact (h i hi).trans (Nat.le_succ _)
      · rw [List.mem_singleton.mp hi]
        exact Nat.le_succ _
    intro i hi
    have hle := ih hput i hi
    rw [List.length_cons]
    change i ≤ b.index + 1 + as.length at hle
    rw [Nat.add_assoc, Nat.add_comm 1] at hle
    exact hle

theorem index_puts (b : Filling α) (as : List α) :
    (as.foldl put b).index = b.index + as.length := by
  induction as generalizing b with
  | nil => rfl
  | cons a as ih =>
    rw [List.foldl_cons, ih, List.length_cons]
    change b.index + 1 + as.length = _
    omega

variable [DecidableEq α]

/-- The block as a string; a zero stands at the index, so the string ends there at the
latest. -/
def cString (b : Filling α) (zero : α) : List α :=
  (load b.contents 0 (b.index + 1)).takeWhile (· ≠ zero)

theorem Holds.cString_terminate (h : b.Holds l) (zero : α) :
    (b.terminate zero).cString zero = l.takeWhile (· ≠ zero) := by
  have hload : load (b.terminate zero).contents 0 ((b.terminate zero).index + 1) = l ++ [zero] := by
    rw [terminate, h.index, load_update, h.contents]
  rw [cString, hload, List.takeWhile_append]
  split_ifs with hlen
  · have hall := (List.takeWhile_prefix _).eq_of_length hlen
    simpa using hall.symm
  · rfl

theorem cString_congr {b b' : Filling α} (hcontents : b.contents = b'.contents)
    (hindex : b.index = b'.index) (zero : α) :
    (b.terminate zero).cString zero = (b'.terminate zero).cString zero := by
  simp only [cString, terminate, hcontents, hindex]

/-- A zero is written over by what is put next. -/
theorem Holds.cString_overwritten (h : b.Holds l) (zero : α) (as : List α) :
    ((as.foldl Filling.put (b.terminate zero)).terminate zero).cString zero =
      (l ++ as).takeWhile (· ≠ zero) := by
  rw [← (h.puts as).cString_terminate zero]
  cases as with
  | nil => simp only [cString, terminate, List.foldl_nil, Function.update_idem]
  | cons a as =>
    have hcontents : ((b.terminate zero).put a).contents = (b.put a).contents := by
      simp only [Filling.put, terminate, Function.update_idem]
    obtain ⟨hc, hi⟩ := puts_congr hcontents rfl as
    exact cString_congr hc hi zero

end Filling

end Memory
