import Mathlib.Order.Basic

namespace Semaphore

abbrev valueMax : ℕ := 2147483647

def post (count : ℕ) : ℕ := if count < valueMax then count + 1 else count

/-- `none` while the thread is blocked. -/
def wait : ℕ → Option ℕ
  | 0 => none
  | n + 1 => some n

theorem post_pos (count : ℕ) : 0 < post count := by
  unfold post
  split_ifs with h
  · exact Nat.succ_pos count
  · have hmax : 0 < valueMax := by decide
    exact Nat.lt_of_lt_of_le hmax (Nat.le_of_not_lt h)

theorem wait_eq_some {count rest : ℕ} : wait count = some rest ↔ count = rest + 1 := by
  cases count with
  | zero => simp [wait]
  | succ n => simp [wait]

end Semaphore
