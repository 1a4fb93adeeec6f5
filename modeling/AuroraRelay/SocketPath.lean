import Mathlib.Data.List.TakeWhile
import AuroraRelay.Lib.Filling
import AuroraRelay.SplitString

namespace AuroraRelay.Util
open Memory

abbrev newline : UInt8 := 0x0a
abbrev blank : UInt8 := 0x20
abbrev slash : UInt8 := 0x2f

/-- `EOF` as a `char`. -/
abbrev eof : UInt8 := 0xff

/-- `fgetc` with its result in a `char`, and what is left to read. -/
def fgetc : List UInt8 → UInt8 × List UInt8
  | [] => (eof, [])
  | c :: output => (c, output)

end AuroraRelay.Util

namespace AuroraRelay.SocketPath
open Memory Util

abbrev lineSize : ℕ := 1024

def readLine : ℕ → List UInt8 → Filling UInt8 → Option (Filling UInt8)
  | 0, _, _ => none
  | fuel + 1, output, line =>
    let (c, output) := fgetc output
    if c = newline then some line else readLine fuel output (line.put c)

structure Initialized where
  /-- The indices of `line` that were stored to. -/
  stores : List ℕ
  socketPath : List UInt8

/-- `DPMAgent::initialize`; `malloced` is what the block for the line held before. -/
def dpmInitialize (fuel : ℕ) (malloced : ℕ → UInt8) (output : List UInt8) : Option Initialized := do
  let line ← readLine fuel output (.untouched malloced)
  let line := line.terminate 0
  let lineStr := line.cString 0
  some ⟨line.stores, erase lineStr (find lineStr [slash])⟩

def firstLine (output : List UInt8) : List UInt8 := output.takeWhile (· ≠ newline)

def fromSlash (line : List UInt8) : List UInt8 := line.dropWhile (· ≠ slash)

/-- The loop ends, stores inside the block only, and leaves the path. -/
def Reads (output : List UInt8) : Prop :=
  ∀ malloced, ∃ fuel result, dpmInitialize fuel malloced output = some result ∧
    (∀ i ∈ result.stores, i < lineSize) ∧ result.socketPath = fromSlash (firstLine output)

/-- The loop stops at a newline only, after one turn for each byte before it; at the end of
the output it reads `EOF` and goes on. -/
theorem readLine_eq_some_iff (fuel : ℕ) (output : List UInt8) (line line' : Filling UInt8) :
    readLine fuel output line = some line' ↔ newline ∈ output ∧
      (firstLine output).length < fuel ∧ (firstLine output).foldl Filling.put line = line' := by
  induction fuel generalizing output line with
  | zero => simp [readLine]
  | succ fuel ih =>
    cases output with
    | nil =>
      have he : eof ≠ newline := by decide
      rw [readLine, fgetc]
      simp only [if_neg he]
      rw [ih]
      simp
    | cons c output =>
      rw [readLine, fgetc]
      by_cases hc : c = newline
      · simp [firstLine, hc]
      · have hfirst : firstLine (c :: output) = c :: firstLine output := by simp [firstLine, hc]
        simp only [if_neg hc]
        rw [ih, hfirst, List.length_cons, List.foldl_cons, List.mem_cons, or_iff_right (Ne.symm hc),
          Nat.add_lt_add_iff_right]

theorem fromSlash_of_not_mem {line : List UInt8} (h : slash ∉ line) : fromSlash line = [] :=
  List.dropWhile_eq_nil_iff.mpr (Split.forall_ne_of_not_mem h)

theorem fromSlash_append {before behind : List UInt8} (h : slash ∉ before) :
    fromSlash (before ++ slash :: behind) = slash :: behind := by
  rw [fromSlash, List.dropWhile_append_of_pos (Split.forall_ne_of_not_mem h)]
  simp

/-- Erasing up to the place that `find` returns; `npos` erases everything. -/
theorem erase_find_slash {line : List UInt8} (hlen : line.length < 2 ^ 31) :
    erase line (find line [slash]) = fromSlash line := by
  cases h : line.dropInfix? [slash] with
  | none =>
    have hslash : slash ∉ line :=
      fun hmem => Split.not_infix_rest h ((List.singleton_infix_iff _ _).mpr hmem)
    have hmax : npos.toNat = 2 ^ 64 - 1 := by decide
    have hfind : find line [slash] = npos := by rw [find, h]
    rw [fromSlash_of_not_mem hslash, erase, hfind]
    exact List.drop_eq_nil_of_le (by omega)
  | some cut =>
    obtain ⟨before, behind⟩ := cut
    have hslash : slash ∉ before := fun hmem =>
      Split.not_infix_piece (by simp) h ((List.singleton_infix_iff _ _).mpr hmem)
    have hline := Split.eq_append_of_dropInfix? h
    rw [List.append_assoc, List.singleton_append] at hline
    rw [erase, toNat_find h hlen, hline, fromSlash_append hslash, List.drop_left]

theorem zero_not_mem_kept (line : List UInt8) : 0 ∉ line.takeWhile (· ≠ 0) := by
  intro h
  simpa using List.mem_takeWhile_imp h

/-- Read as a string, a line with a zero in it is cut short, and with it any path. -/
theorem fromSlash_cString_iff (line : List UInt8) :
    fromSlash (line.takeWhile (· ≠ 0)) = fromSlash line ↔ (slash ∈ line → 0 ∉ line) := by
  constructor
  · intro h hslash hzero
    obtain ⟨before, behind, rfl, hfirst⟩ := List.eq_append_cons_of_mem hslash
    rw [fromSlash_append hfirst] at h
    -- the bytes that were kept are not zero, so the zero stood before the slash
    have hbefore : 0 ∈ before := by
      refine (List.mem_append.mp hzero).resolve_right fun hmem => ?_
      rw [← h] at hmem
      exact zero_not_mem_kept _ ((List.dropWhile_suffix _).subset hmem)
    have hkept : (before ++ slash :: behind).takeWhile (· ≠ 0) = before.takeWhile (· ≠ 0) := by
      rw [List.takeWhile_append, if_neg]
      intro hlen
      have hall := (List.takeWhile_prefix _).eq_of_length hlen
      rw [← hall] at hbefore
      exact zero_not_mem_kept _ hbefore
    rw [hkept, fromSlash_of_not_mem fun hmem => hfirst (List.takeWhile_subset _ hmem)] at h
    cases h
  · intro h
    by_cases hslash : slash ∈ line
    · rw [List.takeWhile_eq_self_iff.mpr (Split.forall_ne_of_not_mem (h hslash))]
    · rw [fromSlash_of_not_mem hslash,
        fromSlash_of_not_mem fun hmem => hslash (List.takeWhile_subset _ hmem)]

/-- What the function does when its loop stops. -/
theorem dpmInitialize_eq_some_iff (fuel : ℕ) (malloced : ℕ → UInt8) (output : List UInt8)
    (result : Initialized) :
    dpmInitialize fuel malloced output = some result ↔
      newline ∈ output ∧ (firstLine output).length < fuel ∧
      result.stores = List.range ((firstLine output).length + 1) ∧
      result.socketPath = erase ((firstLine output).takeWhile (· ≠ 0))
        (find ((firstLine output).takeWhile (· ≠ 0)) [slash]) := by
  have hline := (Filling.holds_untouched malloced).puts (firstLine output)
  rw [List.nil_append] at hline
  have hstores := hline.stores_terminate 0
  have hstring := hline.cString_terminate 0
  rw [dpmInitialize, Option.bind_eq_bind, Option.bind_eq_some_iff]
  simp only [readLine_eq_some_iff]
  constructor
  · rintro ⟨line, ⟨hnewline, hfuel, rfl⟩, hresult⟩
    obtain rfl := Option.some.inj hresult
    exact ⟨hnewline, hfuel, hstores, by rw [hstring]⟩
  · rintro ⟨hnewline, hfuel, hs, hp⟩
    refine ⟨_, ⟨hnewline, hfuel, rfl⟩, ?_⟩
    rw [hstores, hstring, ← hs, ← hp]

/-- The path is read exactly when the output has a newline, the line before it fits the
block with a zero behind it, and no zero cuts short a line with a slash. -/
theorem socket_path_read_iff (output : List UInt8) :
    Reads output ↔ newline ∈ output ∧ (firstLine output).length < lineSize ∧
      (slash ∈ firstLine output → 0 ∉ firstLine output) := by
  have herase (h : (firstLine output).length < lineSize) :=
    erase_find_slash (((List.takeWhile_sublist (· ≠ (0 : UInt8))).length_le.trans_lt h).trans
      (by decide))
  constructor
  · intro h
    obtain ⟨fuel, result, hresult, hinside, hpath⟩ := h fun _ => 0
    obtain ⟨hnewline, -, hstores, hsocket⟩ := (dpmInitialize_eq_some_iff _ _ _ _).mp hresult
    have hlen : (firstLine output).length < lineSize :=
      hinside _ (by rw [hstores]; exact List.self_mem_range_succ)
    refine ⟨hnewline, hlen, (fromSlash_cString_iff _).mp ?_⟩
    rw [← herase hlen, ← hsocket, hpath]
  · rintro ⟨hnewline, hlen, hzero⟩ malloced
    refine ⟨_, ⟨_, _⟩, (dpmInitialize_eq_some_iff _ _ _ _).mpr
      ⟨hnewline, Nat.lt_succ_self _, rfl, rfl⟩, ?_, ?_⟩
    · intro i hi
      exact (List.mem_range.mp hi).trans_le hlen
    · exact (herase hlen).trans ((fromSlash_cString_iff _).mpr hzero)

/-- A command that fails before it prints anything: the loop never ends. -/
theorem socket_path_never_read : ¬Reads [] := by
  intro h
  obtain ⟨fuel, result, hresult, -⟩ := h fun _ => 0
  cases ((dpmInitialize_eq_some_iff _ _ _ _).mp hresult).1

end AuroraRelay.SocketPath
