import Mathlib.Algebra.Group.Nat.Defs
import Mathlib.Data.Finset.Lattice.Lemmas
import Mathlib.Data.Finset.Dedup
import AuroraRelay.Lib.Split

namespace AuroraRelay.Util
open Split

universe u
variable {α : Type u} [DecidableEq α] {σ : Type u}

abbrev npos : UInt64 := 0xffffffffffffffff

def find (original delimiter : List α) : UInt64 :=
  match original.dropInfix? delimiter with
  | some (before, _) => UInt64.ofNat before.length
  | none => npos

/-- `original.substr(0, count)`. -/
def substr (original : List α) (count : UInt64) : List α := original.take count.toNat

/-- `original.erase(0, count)`. -/
def erase (original : List α) (count : UInt64) : List α := original.drop count.toNat

/-- A `size_t` stored in an `int`. -/
def toInt (size : UInt64) : Int32 := size.toInt64.toInt32

def toSize (pos : Int32) : UInt64 := pos.toInt64.toUInt64

/-- The loop of both versions; `push` is `push_back` or `insert`. -/
def splitLoop (push : σ → List α → σ) (delimiter : List α) :
    ℕ → List α → σ → Option (List α × σ)
  | 0, _, _ => none
  | fuel + 1, original, splits =>
    let pos := toInt (find original delimiter)
    if toSize pos ≠ npos then
      splitLoop push delimiter fuel
        (erase original (toSize pos + UInt64.ofNat delimiter.length))
        (push splits (substr original (toSize pos)))
    else some (original, splits)

/-- Both arguments that the function changes: what is left of the text, and the splits. -/
def splitStringWith (push : σ → List α → σ) (blank : α) (fuel : ℕ) (original delimiter : List α)
    (splits : σ) : Option (List α × σ) := do
  let (original, splits) ← splitLoop push delimiter fuel original splits
  if original.length > 0 ∧ original ≠ [blank] then some (original, push splits original)
  else some (original, splits)

def splitStringVector (blank : α) (fuel : ℕ) (original delimiter : List α)
    (splits : List (List α)) : Option (List α × List (List α)) :=
  splitStringWith (fun splits piece => splits ++ [piece]) blank fuel original delimiter splits

def splitStringSet (blank : α) (fuel : ℕ) (original delimiter : List α)
    (splits : Finset (List α)) : Option (List α × Finset (List α)) :=
  splitStringWith (fun splits piece => insert piece splits) blank fuel original delimiter splits

theorem toSize_toInt {size : UInt64} (h : size.toNat < 2 ^ 31) : toSize (toInt size) = size := by
  have hb : size.toBitVec.toNat < 2 ^ 31 := h
  apply UInt64.toBitVec_inj.mp
  change (size.toBitVec.signExtend 32).signExtend 64 = size.toBitVec
  rw [BitVec.signExtend_eq_setWidth_of_le size.toBitVec (by decide),
    BitVec.signExtend_eq_setWidth_of_msb_false]
  · bv_omega
  · rw [BitVec.msb_eq_false_iff_two_mul_lt]
    bv_omega

theorem toSize_toInt_npos : toSize (toInt npos) = npos := by decide

section Turn

variable {push : σ → List α → σ} {original delimiter before behind : List α} {fuel : ℕ}

theorem toNat_find (h : original.dropInfix? delimiter = some (before, behind))
    (hlen : original.length < 2 ^ 31) : (find original delimiter).toNat = before.length := by
  have hs := congrArg List.length (eq_append_of_dropInfix? h)
  simp only [List.length_append] at hs
  rw [find, h]
  exact UInt64.toNat_ofNat_of_lt' (by rw [UInt64.size]; omega)

theorem splitLoop_rest (h : original.dropInfix? delimiter = none) (splits : σ) :
    splitLoop push delimiter (fuel + 1) original splits = some (original, splits) := by
  have hfind : find original delimiter = npos := by rw [find, h]
  rw [splitLoop, hfind, toSize_toInt_npos]
  exact if_neg fun hne => hne rfl

theorem splitLoop_cut (h : original.dropInfix? delimiter = some (before, behind))
    (hlen : original.length < 2 ^ 31) (splits : σ) :
    splitLoop push delimiter (fuel + 1) original splits =
      splitLoop push delimiter fuel behind (push splits before) := by
  have hs := eq_append_of_dropInfix? h
  have hl := congrArg List.length hs
  simp only [List.length_append] at hl
  have hfind := toNat_find h hlen
  have hsize : toSize (toInt (find original delimiter)) = find original delimiter :=
    toSize_toInt (by omega)
  have hne : find original delimiter ≠ npos := by
    intro he
    rw [he] at hfind
    have hmax : npos.toNat = 2 ^ 64 - 1 := by decide
    omega
  have hcut : (find original delimiter + UInt64.ofNat delimiter.length).toNat =
      (before ++ delimiter).length := by
    rw [UInt64.toNat_add, hfind, UInt64.toNat_ofNat', List.length_append]
    omega
  rw [splitLoop, hsize, if_pos hne, substr, erase, hfind, hcut]
  congr 1
  · rw [hs, List.drop_left]
  · rw [hs, List.append_assoc, List.take_left]

end Turn

/-- However the pieces are kept, the loop hands them over in order and leaves the rest. -/
theorem splitLoop_splits {delimiter original rest : List α} {pieces : List (List α)}
    (h : Splits delimiter original pieces rest) (hne : delimiter ≠ [])
    (hlen : original.length < 2 ^ 31) (push : σ → List α → σ) {fuel : ℕ}
    (hfuel : original.length < fuel) (splits : σ) :
    splitLoop push delimiter fuel original splits = some (rest, pieces.foldl push splits) := by
  have hpos := List.length_pos_of_ne_nil hne
  induction h generalizing fuel splits with
  | rest h =>
    obtain ⟨fuel, rfl⟩ := Nat.exists_eq_add_one_of_ne_zero (Nat.ne_zero_of_lt hfuel)
    exact splitLoop_rest h splits
  | piece hp _ ih =>
    obtain ⟨fuel, rfl⟩ := Nat.exists_eq_add_one_of_ne_zero (Nat.ne_zero_of_lt hfuel)
    have hl := congrArg List.length (eq_append_of_dropInfix? hp)
    simp only [List.length_append] at hl
    rw [splitLoop_cut hp hlen, ih (by omega) (by omega), List.foldl_cons]

/-- The rest as the source keeps it: not at all when it is empty or a single blank. -/
def lastPiece (blank : α) (rest : List α) : List (List α) :=
  if rest = [] ∨ rest = [blank] then [] else [rest]

theorem splitStringWith_splits {delimiter original rest : List α} {pieces : List (List α)}
    (h : Splits delimiter original pieces rest) (hne : delimiter ≠ [])
    (hlen : original.length < 2 ^ 31) (push : σ → List α → σ) (blank : α) {fuel : ℕ}
    (hfuel : original.length < fuel) (splits : σ) :
    splitStringWith push blank fuel original delimiter splits =
      some (rest, (pieces ++ lastPiece blank rest).foldl push splits) := by
  rw [splitStringWith, splitLoop_splits h hne hlen push hfuel splits, List.foldl_append]
  by_cases hrest : rest = [] ∨ rest = [blank]
  · have hkeep : ¬(rest.length > 0 ∧ rest ≠ [blank]) := by
      rcases hrest with rfl | rfl
      · simp
      · simp
    rw [lastPiece, if_pos hrest]
    exact if_neg hkeep
  · have hkeep : rest.length > 0 ∧ rest ≠ [blank] := by
      rw [not_or] at hrest
      exact ⟨List.length_pos_of_ne_nil hrest.1, hrest.2⟩
    rw [lastPiece, if_neg hrest]
    exact if_pos hkeep

theorem foldl_insert (pieces : List (List α)) (splits : Finset (List α)) :
    pieces.foldl (fun splits piece => insert piece splits) splits =
      splits ∪ pieces.toFinset := by
  induction pieces generalizing splits with
  | nil => simp
  | cons piece pieces ih =>
    rw [List.foldl_cons, ih, List.toFinset_cons, Finset.insert_union, Finset.union_insert]

theorem splitStringVector_splits {delimiter original rest : List α} {pieces : List (List α)}
    (h : Splits delimiter original pieces rest) (hne : delimiter ≠ [])
    (hlen : original.length < 2 ^ 31) (blank : α) {fuel : ℕ} (hfuel : original.length < fuel)
    (splits : List (List α)) :
    splitStringVector blank fuel original delimiter splits =
      some (rest, splits ++ (pieces ++ lastPiece blank rest)) := by
  rw [splitStringVector, splitStringWith_splits h hne hlen _ blank hfuel,
    List.foldl_append_eq_append, ← List.flatMap_def, List.flatMap_singleton']

theorem splitStringSet_splits {delimiter original rest : List α} {pieces : List (List α)}
    (h : Splits delimiter original pieces rest) (hne : delimiter ≠ [])
    (hlen : original.length < 2 ^ 31) (blank : α) {fuel : ℕ} (hfuel : original.length < fuel)
    (splits : Finset (List α)) :
    splitStringSet blank fuel original delimiter splits =
      some (rest, splits ∪ (pieces ++ lastPiece blank rest).toFinset) := by
  rw [splitStringSet, splitStringWith_splits h hne hlen _ blank hfuel, foldl_insert]

/-- The text comes apart into pieces and a rest without the delimiter that join to it
again; the vector gets the pieces and then the rest, the set gets the same texts. -/
theorem split_string_faithful (original delimiter : List α) (hlen : original.length < 2 ^ 31)
    (hne : delimiter ≠ []) (blank : α) :
    ∃ pieces rest appended, (∀ piece ∈ pieces ++ [rest], ¬delimiter <:+: piece) ∧
      delimiter.intercalate (pieces ++ [rest]) = original ∧
      appended = pieces ++ (if rest = [] ∨ rest = [blank] then [] else [rest]) ∧
      (∀ fuel > original.length, ∀ splits,
        splitStringVector blank fuel original delimiter splits =
          some (rest, splits ++ appended)) ∧
      ∀ fuel > original.length, ∀ splits,
        splitStringSet blank fuel original delimiter splits =
          some (rest, splits ∪ appended.toFinset) := by
  obtain ⟨pieces, rest, h⟩ := exists_splits hne original
  refine ⟨pieces, rest, pieces ++ lastPiece blank rest, h.free hne, h.join, rfl, ?_, ?_⟩
  · intro fuel hfuel splits
    exact splitStringVector_splits h hne hlen blank hfuel splits
  · intro fuel hfuel splits
    exact splitStringSet_splits h hne hlen blank hfuel splits

/-- `a--b-- ` at `--`: two pieces, and a blank that is not kept. -/
theorem split_string_faithful_dashes :
    ∃ (pieces : List (List UInt8)) (rest : List UInt8),
      [45, 45].intercalate (pieces ++ [rest]) = [97, 45, 45, 98, 45, 45, 32] ∧
      splitStringVector 32 8 [97, 45, 45, 98, 45, 45, 32] [45, 45] [] =
        some (rest, pieces ++ (if rest = [] ∨ rest = [32] then [] else [rest])) ∧
      splitStringVector (32 : UInt8) 8 [97, 45, 45, 98, 45, 45, 32] [45, 45] [] =
        some ([32], [[97], [98]]) := by
  obtain ⟨pieces, rest, appended, -, hjoin, rfl, hvector, -⟩ :=
    split_string_faithful [97, 45, 45, 98, 45, 45, 32] [45, 45] (by decide) (by decide)
      (32 : UInt8)
  exact ⟨pieces, rest, hjoin, hvector 8 (by decide) [], by decide⟩

end AuroraRelay.Util
