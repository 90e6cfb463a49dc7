import Mathlib.Algebra.Order.Ring.Int

/-!
# The calendar

A date is the ordinal of its day. Day one is a Monday.
-/

namespace FinDashboard

/-- The last date. -/
def maxOrdinal : ℤ := 3652059

/-- Monday is zero, Saturday five and Sunday six. -/
def weekday (date : ℤ) : ℤ := (date + 6) % 7

end FinDashboard
