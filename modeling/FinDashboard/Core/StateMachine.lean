import FinDashboard.Shared.Models

/-!
# The order state machine

The table of legal status changes. Staying in the same status is always allowed and is not
listed; the three terminal statuses have no exit.
-/

namespace FinDashboard.Core

open OrderStatus

/-- `_TRANSITIONS`: the statuses that may be entered from a status. -/
def transitions : OrderStatus → List OrderStatus
  | created => [riskChecked, rejected]
  | riskChecked => [submitting, rejected]
  | submitting => [submitted, acknowledged, rejected, unknown]
  | submitted => [acknowledged, partiallyFilled, filled, cancelPending, rejected, unknown]
  | acknowledged => [partiallyFilled, filled, cancelPending, rejected]
  | partiallyFilled => [partiallyFilled, filled, cancelPending]
  | cancelPending => [cancelled]
  | unknown => [acknowledged, partiallyFilled, filled, cancelled, rejected]
  | filled => []
  | cancelled => []
  | rejected => []

def canTransition (source target : OrderStatus) : Bool :=
  source = target || target ∈ transitions source

theorem canTransition_of_isTerminal {source target : OrderStatus} (h : source.isTerminal) :
    canTransition source target = true ↔ source = target := by
  revert h
  cases source <;> cases target <;> decide

end FinDashboard.Core
