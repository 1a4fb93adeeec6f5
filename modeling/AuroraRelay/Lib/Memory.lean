import Mathlib.Data.List.Basic
import Mathlib.Data.List.Range

namespace Memory

variable {α : Type*}

def store (mem : ℕ → α) (base : ℕ) (src : ℕ → α) (n : ℕ) : ℕ → α :=
  fun a => if base ≤ a ∧ a < base + n then src (a - base) else mem a

def load (mem : ℕ → α) (base n : ℕ) : List α :=
  (List.range n).map fun i => mem (base + i)

def storeList (mem : ℕ → α) (base : ℕ) (l : List α) : ℕ → α :=
  fun a => if base ≤ a then (l[a - base]?).getD (mem a) else mem a

def storeAll (mem : ℕ → α) (ws : List (ℕ × List α)) : ℕ → α :=
  ws.foldl (fun m w => storeList m w.1 w.2) mem

theorem store_inside {mem src : ℕ → α} {base n a : ℕ} (h : base ≤ a) (h' : a < base + n) :
    store mem base src n a = src (a - base) := if_pos ⟨h, h'⟩

theorem store_outside {mem src : ℕ → α} {base n a : ℕ} (h : a < base ∨ base + n ≤ a) :
    store mem base src n a = mem a := if_neg (by omega)

/-- Whatever the memory holds, a store keeps to a block exactly when it is empty or lies in
the block. -/
theorem store_within_iff (hex : ∀ x : α, ∃ y, y ≠ x) {src : ℕ → α} {base n lo hi : ℕ} :
    (∀ mem a, store mem base src n a ≠ mem a → lo ≤ a ∧ a < hi) ↔
      n = 0 ∨ lo ≤ base ∧ base + n ≤ hi := by
  constructor
  · intro h
    rw [or_iff_not_imp_left]
    intro hn
    choose other hother using hex
    -- a memory in which the store changes every byte of its range
    have hchanged (k : ℕ) (hk : k < n) : lo ≤ base + k ∧ base + k < hi := by
      refine h (fun a => other (src (a - base))) (base + k) ?_
      rw [store_inside (by omega) (by omega)]
      exact (hother _).symm
    have hfirst := hchanged 0 (by omega)
    have hlast := hchanged (n - 1) (by omega)
    omega
  · intro h mem a hne
    by_contra hout
    exact hne (store_outside (by omega))

@[simp] theorem load_length (mem : ℕ → α) (base n : ℕ) : (load mem base n).length = n := by
  simp [load]

theorem load_getElem? {mem : ℕ → α} {base n i : ℕ} (h : i < n) :
    (load mem base n)[i]? = some (mem (base + i)) := by
  simp [load, h]

theorem storeList_below {mem : ℕ → α} {base a : ℕ} {l : List α} (h : a < base) :
    storeList mem base l a = mem a := if_neg (by omega)

theorem storeList_inside {mem : ℕ → α} {base j : ℕ} {l : List α} (h : j < l.length) :
    storeList mem base l (base + j) = l[j] := by
  simp [storeList, h]

theorem storeAll_append (mem : ℕ → α) (ws ws' : List (ℕ × List α)) :
    storeAll mem (ws ++ ws') = storeAll (storeAll mem ws) ws' :=
  List.foldl_append

/-- Stores that all start above an address leave it alone. -/
theorem storeAll_below {mem : ℕ → α} {ws : List (ℕ × List α)} {a : ℕ}
    (h : ∀ w ∈ ws, a < w.1) : storeAll mem ws a = mem a := by
  induction ws generalizing mem with
  | nil => rfl
  | cons w ws ih =>
    change storeAll (storeList mem w.1 w.2) ws a = mem a
    rw [ih fun w' hw' => h w' (List.mem_cons_of_mem _ hw'),
      storeList_below (h w List.mem_cons_self)]

/-- Lists of one length stored side by side: each keeps its place. -/
theorem storeAll_blocks {mem : ℕ → α} {base k n : ℕ} {l : ℕ → List α}
    (hl : ∀ i < n, (l i).length = k) {i j : ℕ} (hi : i < n) (hj : j < (l i).length) :
    storeAll mem ((List.range n).map fun i => (base + k * i, l i)) (base + k * i + j) =
      (l i)[j] := by
  induction n with
  | zero => omega
  | succ n ih =>
    rw [List.range_succ, List.map_append, storeAll_append]
    change storeList _ (base + k * n) (l n) _ = _
    rcases Nat.lt_succ_iff_lt_or_eq.mp hi with hlt | rfl
    · have hlen := hl i hi
      have hmul : k * (i + 1) ≤ k * n := Nat.mul_le_mul_left k hlt
      rw [storeList_below (by rw [Nat.mul_add] at hmul; omega)]
      exact ih (fun i hi => hl i (by omega)) hlt
    · exact storeList_inside hj

/-- A block is the list whose entries it holds. -/
theorem load_eq_iff {mem : ℕ → α} {base : ℕ} {l : List α} :
    load mem base l.length = l ↔ ∀ i (h : i < l.length), mem (base + i) = l[i] := by
  constructor
  · intro h i hi
    have he := congrArg (fun k : List α => k[i]?) h
    simpa [load_getElem? hi, List.getElem?_eq_getElem hi] using he
  · intro h
    apply List.ext_getElem (by simp)
    intro i h1 h2
    simpa [load] using h i h2

theorem take_drop_load {mem : ℕ → α} {base n i k : ℕ} (h : i + k ≤ n) :
    ((load mem base n).drop i).take k = load mem (base + i) k := by
  apply List.ext_getElem
  · simp
    omega
  · intro j h1 h2
    simp [load, Nat.add_assoc]

theorem load_congr {mem mem' : ℕ → α} {base base' n : ℕ}
    (h : ∀ i < n, mem (base + i) = mem' (base' + i)) :
    load mem base n = load mem' base' n := by
  apply List.map_congr_left
  intro i hi
  exact h i (List.mem_range.mp hi)

end Memory
