import Mathlib.Data.List.DropRight

/-!
# Streaks

The streak of a property in a history is the number of its last entries that have the property.
-/

namespace FinDashboard.Runs

open List

variable {α : Type} {p : α → Bool} {history : List α} {entry : α} {n : ℕ}

/-- How many of the last entries have a property without a break. -/
def streak (p : α → Bool) (history : List α) : ℕ := (history.rtakeWhile p).length

theorem streak_concat_pos (holds : p entry = true) :
    streak p (history ++ [entry]) = streak p history + 1 := by
  unfold streak
  rw [rtakeWhile_concat_pos p history entry holds, length_append, length_singleton]

theorem streak_concat_neg (fails : ¬p entry = true) : streak p (history ++ [entry]) = 0 := by
  unfold streak
  rw [rtakeWhile_concat_neg p history entry fails, length_nil]

/-- A streak of some length is that many last entries with the property. -/
theorem le_streak_iff :
    n ≤ streak p history ↔ n ≤ history.length ∧ ∀ entry ∈ history.rtake n, p entry = true := by
  induction history using reverseRecOn generalizing n with
  | nil => simp [streak, rtakeWhile, rtake]
  | append_singleton history entry ih =>
    cases n with
    | zero => simp
    | succ n =>
      rw [rtake_concat_succ, length_append, length_singleton]
      by_cases holds : p entry = true
      · rw [streak_concat_pos holds, Nat.succ_le_succ_iff, Nat.succ_le_succ_iff, ih]
        simp [or_imp, forall_and, holds]
      · rw [streak_concat_neg holds]
        simp [or_imp, forall_and, holds]

end FinDashboard.Runs
