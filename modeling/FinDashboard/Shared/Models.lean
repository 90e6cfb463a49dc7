import Mathlib.Algebra.Order.Field.Rat

/-!
# Shared enumerations and domain records

The string enumerations that the trading core, the risk checks, the reconciliation and the simulation
share, and the records built from them.
-/

namespace FinDashboard

/-- The exchange a symbol trades on. -/
inductive Market
  | aShare | hk | us | future
  deriving DecidableEq, Repr

/-- The kind of instrument, orthogonal to its market. -/
inductive InstrumentType
  | stock | etf | index | futures | bond | convertible
  deriving DecidableEq, Repr

inductive Side
  | buy | sell
  deriving DecidableEq, Repr

inductive PositionSide
  | long | short
  deriving DecidableEq, Repr

inductive OrderType
  | limit | market
  deriving DecidableEq, Repr

/-- Good for day, immediate or cancel, fill or kill. -/
inductive TimeInForce
  | gfd | ioc | fok
  deriving DecidableEq, Repr

/-- The life cycle of an order. -/
inductive OrderStatus
  | created | riskChecked | submitting | submitted | acknowledged | partiallyFilled
  | filled | cancelPending | cancelled | rejected | unknown
  deriving DecidableEq, Repr

def OrderStatus.isTerminal (status : OrderStatus) : Bool :=
  status ∈ [OrderStatus.filled, .cancelled, .rejected]

def OrderStatus.isActive (status : OrderStatus) : Bool := !status.isTerminal

inductive RejectReason
  | riskCheckFailed | insufficientCash | insufficientPosition | invalidPrice | invalidQuantity
  | invalidSymbol | duplicateOrder | killSwitchActive | brokerRejected | submitTimeout | unknown
  deriving DecidableEq, Repr

/-- The graded emergency stop; later levels are stricter. -/
inductive KillSwitchLevel
  | off | noNewOrders | reduceOnly | cancelAll | halt
  deriving DecidableEq, Repr

/-- How a `BrokerEvent` is classified. -/
inductive BrokerEventType
  | connected | disconnected | orderAccepted | orderRejected | orderFilled | orderCancelled
  | orderCancelRejected | error
  deriving DecidableEq, Repr

/-!
## Shared domain records

Quantities and money are `Decimal` in the source; the model uses exact rationals. Fields
that no modelled function reads (most timestamps, strategy ids, broker kinds, fees of a
live fill) are left out.
-/

/-- A message with interpolated values. -/
inductive MessagePart
  | text (content : String)
  | value (number : ℚ)
  deriving DecidableEq, Repr

abbrev AccountId := String
abbrev ClientOrderId := String

/-- A tradable code together with its market. -/
structure Symbol where
  code : String
  market : Market
  deriving DecidableEq, Repr

/-- An intent to trade that has not passed the risk checks and has no order id yet. -/
structure OrderRequest where
  accountId : AccountId
  symbol : Symbol
  side : Side
  orderType : OrderType
  quantity : ℚ
  price : Option ℚ
  deriving DecidableEq, Repr

/-- A local order; the same record is the in-memory object and the persisted row. -/
structure Order where
  clientOrderId : ClientOrderId
  accountId : AccountId
  symbol : Symbol
  side : Side
  orderType : OrderType
  quantity : ℚ
  price : Option ℚ
  brokerOrderId : Option String := none
  filledQuantity : ℚ := 0
  averageFillPrice : Option ℚ := none
  status : OrderStatus := .created
  rejectReason : Option RejectReason := none
  rejectMessage : Option String := none
  deriving DecidableEq, Repr

namespace Order

def isActive (order : Order) : Bool := order.status.isActive

def remainingQuantity (order : Order) : ℚ := order.quantity - order.filledQuantity

end Order

/-- One execution report; an order may have several. `filledAt` counts microseconds in UTC. -/
structure Fill where
  fillId : String
  clientOrderId : ClientOrderId
  symbol : Symbol
  side : Side
  quantity : ℚ
  price : ℚ
  filledAt : ℤ
  deriving DecidableEq, Repr

/-- The local view of a holding. -/
structure Position where
  accountId : AccountId
  symbol : Symbol
  positionSide : PositionSide := .long
  totalQuantity : ℚ := 0
  availableQuantity : ℚ := 0
  averagePrice : ℚ := 0
  marketValue : ℚ := 0
  deriving DecidableEq, Repr

def Position.empty (accountId : AccountId) (symbol : Symbol) : Position := { accountId, symbol }

/-- A cash snapshot of an account. -/
structure Account where
  accountId : AccountId
  totalAsset : ℚ := 0
  cash : ℚ := 0
  frozenCash : ℚ := 0
  marginUsed : ℚ := 0
  deriving DecidableEq, Repr

end FinDashboard
