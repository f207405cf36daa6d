import Mathlib.Data.List.DropRight

/-!
# Logs that keep only their latest entries

A log with a cap appends at its back and drops its front when it has grown beyond the cap.  Against
the full history of what has been appended it is always the last entries of that history
(`push_rtake`), so whatever it is asked about its own last entries it answers about those of the
history (`rtake_rtake`).
-/

namespace MultiPlayerGame
namespace CappedLog

variable {α β : Type*}

/-- Append an entry and drop the oldest one beyond the cap. -/
def push (cap : ℕ) (log : List α) (a : α) : List α :=
  if cap < (log ++ [a]).length then (log ++ [a]).tail else log ++ [a]

theorem length_rtake (l : List α) (n : ℕ) : (l.rtake n).length = min n l.length := by
  rw [List.rtake, List.length_drop]
  omega

theorem rtake_of_length_le {l : List α} {n : ℕ} (h : l.length ≤ n) : l.rtake n = l := by
  rw [List.rtake, Nat.sub_eq_zero_of_le h, List.drop_zero]

theorem rtake_min_length (l : List α) (n : ℕ) : l.rtake (min n l.length) = l.rtake n := by
  rw [List.rtake, List.rtake]
  congr 1
  omega

/-- The last entries of the last entries. -/
theorem rtake_rtake (l : List α) (m n : ℕ) : (l.rtake m).rtake n = l.rtake (min n m) := by
  rw [List.rtake, length_rtake, List.rtake, List.rtake, List.drop_drop]
  congr 1
  omega

theorem map_rtake (f : α → β) (l : List α) (n : ℕ) : (l.rtake n).map f = (l.map f).rtake n := by
  rw [List.rtake, List.rtake, List.map_drop, List.length_map]

theorem rtake_sublist (l : List α) (n : ℕ) : (l.rtake n).Sublist l := List.drop_sublist _ _

/-- The last entries of a range. -/
theorem rtake_range' (s n m : ℕ) :
    (List.range' s n).rtake m = List.range' (s + n - min m n) (min m n) := by
  rw [List.rtake, List.length_range', List.drop_range', Nat.mul_one]
  congr 1 <;> omega

/-- **A log that was the end of a history is the end of the longer history.** -/
theorem push_rtake (cap : ℕ) (history : List α) (a : α) :
    push cap (history.rtake cap) a = (history ++ [a]).rtake cap := by
  unfold push
  have hlength := length_rtake history cap
  split
  · rename_i hfull
    rw [List.length_append, List.length_singleton] at hfull
    have hdrop : history.rtake cap ++ [a] = (history ++ [a]).drop (history.length - cap) := by
      rw [List.rtake, List.drop_append_of_le_length (Nat.sub_le _ _)]
    rw [hdrop, List.tail_drop, List.rtake, List.length_append, List.length_singleton]
    congr 1
    omega
  · rename_i hfits
    rw [List.length_append, List.length_singleton] at hfits
    rw [rtake_of_length_le (by omega), rtake_of_length_le]
    rw [List.length_append, List.length_singleton]
    omega

end CappedLog
end MultiPlayerGame
