import Mathlib.Data.List.Basic

namespace LastMark

variable {ι β : Type*} (mark : ι → Option β)

/-- What the last of the marked events says. -/
def last (history : List ι) : Option β := (history.filterMap mark).getLast?

variable {mark}

theorem last_append (earlier later : List ι) :
    last mark (earlier ++ later) = (last mark later).or (last mark earlier) := by
  rw [last, List.filterMap_append, List.getLast?_append]
  rfl

theorem last_cons (e : ι) (later : List ι) :
    last mark (e :: later) = (last mark later).or (mark e) := by
  rw [← List.singleton_append, last_append]
  cases h : mark e <;> simp [last, h]

theorem last_of_unmarked {history : List ι} (h : ∀ e ∈ history, mark e = none) :
    last mark history = none := by
  rw [last, List.filterMap_eq_nil_iff.mpr h]
  rfl

theorem exists_of_last_eq_some {history : List ι} {x : β} (h : last mark history = some x) :
    ∃ e ∈ history, mark e = some x :=
  List.mem_filterMap.mp (List.mem_of_getLast? h)

/-- Events that all say the same, or nothing. -/
theorem last_of_same {history : List ι} {x : β} (h : ∀ e ∈ history, ∀ y, mark e = some y → y = x)
    (hmarked : ∃ e ∈ history, (mark e).isSome) : last mark history = some x := by
  obtain ⟨e, he, hsome⟩ := hmarked
  obtain ⟨y, hy⟩ := Option.isSome_iff_exists.mp hsome
  have hne : history.filterMap mark ≠ [] :=
    List.ne_nil_of_mem (List.mem_filterMap.mpr ⟨e, he, hy⟩)
  rw [last, List.getLast?_eq_some_getLast hne, Option.some.injEq]
  obtain ⟨e', he', hlast⟩ := List.mem_filterMap.mp (List.getLast_mem hne)
  exact h e' he' _ hlast

end LastMark
