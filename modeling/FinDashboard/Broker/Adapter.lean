import FinDashboard.Shared.Models

/-!
# The broker contract

A broker is outside the process: what it answers, and when, is chosen by the environment.
`Reply` collects the answers one resumption of a task may need. The adapter may write the
broker's order id into the order object it is handed before any event is emitted.
-/

namespace FinDashboard.Broker

/-- `SubmissionResult`: the broker has taken the request; this is not yet an execution. -/
structure SubmissionResult where
  brokerOrderId : Option String := none
  accepted : Bool := true
  rejectReason : Option RejectReason := none
  deriving DecidableEq, Repr

/-- How a trading call of the adapter ends; it is never retried. -/
inductive CallOutcome (α : Type)
  | returned (value : α)
  | timeout
  | failed
  deriving DecidableEq, Repr

/-- What the environment supplies to a resumed task. -/
structure Reply where
  now : ℤ := 0
  stampedOrderId : Option String := none
  submission : CallOutcome SubmissionResult := .returned {}
  cancellation : CallOutcome Unit := .returned ()
  deriving DecidableEq, Repr

/-- `BrokerEvent`: an event pushed by the broker; `fill` is present on fills only. -/
structure BrokerEvent where
  type : BrokerEventType
  clientOrderId : Option ClientOrderId := none
  brokerOrderId : Option String := none
  fill : Option Fill := none
  rejectReason : Option RejectReason := none
  message : String := ""
  deriving DecidableEq, Repr

end FinDashboard.Broker
