import Mathlib.Algebra.Order.Group.Defs
import Mathlib.Data.List.TakeWhile

/-!
# Sliding windows

A queue of times, from whose front old times expire, admits a new time while it is short enough.
Then no window holds more admitted times than the limit, wherever the window lies.
-/

namespace FinDashboard

open List

variable {τ : Type} [AddCommGroup τ] [LinearOrder τ] [IsOrderedAddMonoid τ] {width now last : τ}
  {limit : ℕ} {kept admitted : List τ}

/-- Times further back than the width leave the queue. -/
def expire (width now : τ) (kept : List τ) : List τ :=
  kept.dropWhile fun first => width < now - first

def inWindow (width start : τ) (admitted : List τ) : List τ :=
  admitted.filter fun time => start ≤ time ∧ time ≤ start + width

/-- The queue holds every admitted time that can share a window with a later one, and no window is
overfull. -/
structure WindowInvariant (width : τ) (limit : ℕ) (last : τ) (kept admitted : List τ) : Prop where
  expired : ∃ gone, admitted = gone ++ kept ∧ ∀ time ∈ gone, width < last - time
  limited : ∀ start, (inWindow width start admitted).length ≤ limit

omit [IsOrderedAddMonoid τ] in
theorem WindowInvariant.empty (last : τ) : WindowInvariant width limit last [] [] where
  expired := ⟨[], rfl, nofun⟩
  limited := fun _ => Nat.zero_le _

/-- Time passes, and the front of the queue expires. -/
theorem WindowInvariant.expire (invariant : WindowInvariant width limit last kept admitted)
    (later : last ≤ now) : WindowInvariant width limit now (expire width now kept) admitted where
  expired := by
    obtain ⟨gone, rfl, old⟩ := invariant.expired
    refine ⟨gone ++ kept.takeWhile fun first => width < now - first, ?_, ?_⟩
    · rw [append_assoc, FinDashboard.expire, takeWhile_append_dropWhile]
    · intro time member
      obtain before | leaving := mem_append.mp member
      · exact (old time before).trans_le (sub_le_sub_right later time)
      · simpa using mem_takeWhile_imp leaving
  limited := invariant.limited

theorem WindowInvariant.admit (invariant : WindowInvariant width limit now kept admitted)
    (room : kept.length < limit) :
    WindowInvariant width limit now (kept ++ [now]) (admitted ++ [now]) where
  expired := by
    obtain ⟨gone, rfl, old⟩ := invariant.expired
    exact ⟨gone, append_assoc gone kept [now], old⟩
  limited := by
    intro start
    have before := invariant.limited start
    obtain ⟨gone, rfl, old⟩ := invariant.expired
    unfold inWindow at before ⊢
    rw [filter_append, length_append]
    by_cases inside : start ≤ now ∧ now ≤ start + width
    · have emptied : gone.filter (fun time => start ≤ time ∧ time ≤ start + width) = [] := by
        refine filter_eq_nil_iff.mpr fun time member => ?_
        have behind := old time member
        have early : time < start := by
          have ahead := (lt_sub_iff_add_lt.mp behind).trans_le inside.2
          rw [add_comm start width] at ahead
          exact lt_of_add_lt_add_left ahead
        simpa using fun from_start => absurd early (not_lt.mpr from_start)
      have rest := length_filter_le
        (fun time => start ≤ time ∧ time ≤ start + width) kept
      rw [filter_append, emptied, nil_append, filter_cons_of_pos (by simpa using inside)]
      simp only [filter_nil, length_cons, length_nil]
      omega
    · rw [filter_cons_of_neg (by simpa using inside), filter_nil]
      exact before

end FinDashboard
