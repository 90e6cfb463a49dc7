import FinDashboard.Ledger.Table
import FinDashboard.Simulation.Rules

/-!
# Contracts and rows of the simulation

The requests of the simulated trading service carry the checks of their constructors. The
rows below them are the tables of one account and its session; `State` is the database as
the service reads it between two calls.
-/

namespace FinDashboard.Simulation

/-- Days since `date.min`. -/
abbrev Date := ℕ

/-- A time with its zone: the local calendar day, the microseconds since local midnight and
the offset of the zone. -/
structure Timestamp where
  date : Date
  timeOfDay : ℕ
  utcOffset : ℤ := 0
  deriving DecidableEq, Repr

def Timestamp.instant (t : Timestamp) : ℤ := t.date * 86400000000 + t.timeOfDay - t.utcOffset

/-- The reasons a matching outcome, a risk check or the service gives. -/
inductive Reason
  | nextBarGate | suspended | priceLimit | limitNotReached | fokNotFillable | iocNoLiquidity
  | noLiquidity | partialFillDisabled | invalidFillPrice | matched
  | shortNotAllowed | missingMarketPrice | invalidQuantity | maxActiveOrders | invalidPrice
  | maxOrderValue | insufficientPosition | maxSymbolPositionValue | maxGrossExposure
  | maxMarginUsage | insufficientCash | fillCashShortfall | positionUnderflow | lotUnderflow
  | iocRemainder | manualCancel | sessionStopped
  deriving DecidableEq, Repr

/-- The stored text of a reason. -/
def Reason.code : Reason → String
  | nextBarGate => "next_bar_gate"
  | suspended => "suspended"
  | priceLimit => "price_limit"
  | limitNotReached => "limit_not_reached"
  | fokNotFillable => "fok_not_fillable"
  | iocNoLiquidity => "ioc_no_liquidity"
  | noLiquidity => "no_liquidity"
  | partialFillDisabled => "partial_fill_disabled"
  | invalidFillPrice => "invalid_fill_price"
  | matched => "matched"
  | shortNotAllowed => "short_not_allowed"
  | missingMarketPrice => "missing_market_price"
  | invalidQuantity => "invalid_quantity"
  | maxActiveOrders => "max_active_orders"
  | invalidPrice => "invalid_price"
  | maxOrderValue => "max_order_value"
  | insufficientPosition => "insufficient_position"
  | maxSymbolPositionValue => "max_symbol_position_value"
  | maxGrossExposure => "max_gross_exposure"
  | maxMarginUsage => "max_margin_usage"
  | insufficientCash => "insufficient_cash"
  | fillCashShortfall => "fill_cash_shortfall"
  | positionUnderflow => "position_underflow"
  | lotUnderflow => "lot_underflow"
  | iocRemainder => "ioc_remainder"
  | manualCancel => "manual_cancel"
  | sessionStopped => "session_stopped"

structure SimulationRiskError where
  reason : Reason
  message : List MessagePart
  deriving DecidableEq, Repr

/-- The exceptions a service call ends with. -/
inductive SimulationError
  | risk (error : SimulationRiskError)
  | transition (message : List MessagePart)
  | conflict (message : List MessagePart)
  | notFound (message : List MessagePart)
  | isolation (message : List MessagePart)
  | value (message : List MessagePart)
  | ruleResolution (error : AssetRuleResolutionError)
  deriving DecidableEq, Repr

inductive FillTiming
  | nextBarOpen | nextBarClose | nextBarVwapProxy
  deriving DecidableEq, Repr

/-- `SimulationMatchingConfig` with the checks of `__post_init__`. -/
structure SimulationMatchingConfig where
  fillTiming : FillTiming := .nextBarOpen
  maxParticipation : ℚ := 0.1
  allowPartialFill : Bool := true
  enforceSuspension : Bool := true
  enforcePriceLimit : Bool := true
  enforceLotRounding : Bool := true
  slippageBps : ℚ := 5
  marketPriceBufferBps : ℚ := 200
  maxParticipation_pos : 0 < maxParticipation := by norm_num
  maxParticipation_le_one : maxParticipation ≤ 1 := by norm_num
  slippageBps_nonneg : 0 ≤ slippageBps := by norm_num
  slippageBps_le : slippageBps ≤ marketPriceBufferBps := by norm_num

/-- `SimulationRiskLimits` with the checks of `__post_init__`; the upper bound on the order
count is the one of the request schema `SimulationRiskIn`. -/
structure SimulationRiskLimits where
  maxOrderValue : ℚ := 100000
  maxSymbolPositionValue : ℚ := 150000
  maxGrossExposure : ℚ := 1
  maxMarginUsage : ℚ := 0.8
  maxActiveOrders : ℕ := 20
  allowShort : Bool := false
  maxOrderValue_pos : 0 < maxOrderValue := by norm_num
  maxSymbolPositionValue_pos : 0 < maxSymbolPositionValue := by norm_num
  maxGrossExposure_pos : 0 < maxGrossExposure := by norm_num
  maxMarginUsage_pos : 0 < maxMarginUsage := by norm_num
  maxMarginUsage_le_one : maxMarginUsage ≤ 1 := by norm_num
  maxActiveOrders_pos : 1 ≤ maxActiveOrders := by norm_num
  maxActiveOrders_le : maxActiveOrders ≤ 10000 := by norm_num

structure SimulationConfig where
  matching : SimulationMatchingConfig := {}
  risk : SimulationRiskLimits := {}

inductive PositionEffect
  | open | close
  deriving DecidableEq, Repr

/-- `SimulationTarget` with the checks of `__post_init__`. -/
structure SimulationTarget where
  symbol : String
  market : Market
  instrumentType : InstrumentType
  assetRuleKey : String
  positionSide : PositionSide := .long
  targetQuantity : ℚ
  signalTraceId : String
  orderType : OrderType := .market
  limitPrice : Option ℚ := none
  timeInForce : TimeInForce := .gfd
  targetQuantity_nonneg : 0 ≤ targetQuantity := by norm_num
  limitPrice_pos : orderType = .limit → ∃ price, limitPrice = some price ∧ 0 < price := by simp
  limitPrice_none : orderType = .market → limitPrice = none := by simp
  short_futures : positionSide = .short → instrumentType = .futures := by simp

/-- `SimulationDecision` with the checks of `__post_init__`. `checksum` is the digest of the
whole request, including the parts left out here. -/
structure SimulationDecision where
  decisionId : String
  sourceRunId : String
  sourceDecisionId : String
  targets : List SimulationTarget
  checksum : String
  targets_ne_nil : targets ≠ [] := by simp
  keys_nodup : (targets.map fun target => (target.symbol, target.positionSide)).Nodup := by simp

/-- The market data of one period. -/
structure Bar where
  symbol : Symbol
  timestamp : Timestamp
  openPrice : ℚ
  high : ℚ
  low : ℚ
  close : ℚ
  volume : ℚ

/-- `SimulationBarEvent` with the checks of `__post_init__`. -/
structure SimulationBarEvent where
  sourceEventId : String
  bar : Bar
  checksum : String
  low_pos : 0 < bar.low := by norm_num
  low_le_open : bar.low ≤ bar.openPrice := by norm_num
  low_le_close : bar.low ≤ bar.close := by norm_num
  low_le_high : bar.low ≤ bar.high := by norm_num
  open_le_high : bar.openPrice ≤ bar.high := by norm_num
  close_le_high : bar.close ≤ bar.high := by norm_num
  volume_nonneg : 0 ≤ bar.volume := by norm_num

inductive AccountStatus
  | active | archived
  deriving DecidableEq, Repr

structure Account where
  status : AccountStatus := .active
  initialCash : ℚ
  cash : ℚ
  frozenCash : ℚ := 0
  marginUsed : ℚ := 0
  equity : ℚ
  deriving DecidableEq, Repr

inductive SessionStatus
  | created | running | paused | stopped | archived
  deriving DecidableEq, Repr

structure Session where
  status : SessionStatus := .created
  validationRunId : String
  config : SimulationConfig
  /-- `clock["current_at"]`. -/
  clock : Option Timestamp := none
  recoveryCount : ℕ := 0

structure DecisionRow where
  decisionId : String
  checksum : String
  deriving DecidableEq, Repr

/-- A row of `simulation_orders`; `orderId` is the automatic id. -/
structure Order where
  orderId : ℕ
  decisionId : String
  symbol : String
  market : Market
  instrumentType : InstrumentType
  assetRuleKey : String
  positionSide : PositionSide
  positionEffect : PositionEffect
  side : Side
  orderType : OrderType
  timeInForce : TimeInForce
  quantity : ℚ
  price : Option ℚ
  filledQuantity : ℚ := 0
  averageFillPrice : Option ℚ := none
  status : OrderStatus
  rejectReason : Option Reason := none
  rejectMessage : Option (List MessagePart) := none
  reservedCash : ℚ := 0
  reservedQuantity : ℚ := 0
  eligibleAfter : Timestamp
  deriving DecidableEq, Repr

/-- `_ACTIVE_ORDER_STATUSES`. -/
def Order.isActive (order : Order) : Bool :=
  order.status ∈ [OrderStatus.submitted, .acknowledged, .partiallyFilled]

def Order.key (order : Order) : String × PositionSide := (order.symbol, order.positionSide)

def Order.remaining (order : Order) : ℚ := order.quantity - order.filledQuantity

/-- A purchase that has not been sold again, with the day from which it may be. -/
structure Lot where
  quantity : ℚ
  availableOn : Date
  deriving DecidableEq, Repr

structure Position where
  symbol : String
  market : Market
  instrumentType : InstrumentType
  assetRuleKey : String
  positionSide : PositionSide
  totalQuantity : ℚ := 0
  availableQuantity : ℚ := 0
  frozenQuantity : ℚ := 0
  averagePrice : ℚ := 0
  marketValue : ℚ := 0
  realizedPnl : ℚ := 0
  unrealizedPnl : ℚ := 0
  marginUsed : ℚ := 0
  lastPrice : ℚ
  lastSettlementPrice : ℚ := 0
  lastSettlementDate : Option Date := none
  lots : List Lot := []
  deriving DecidableEq, Repr

def Position.key (position : Position) : String × PositionSide :=
  (position.symbol, position.positionSide)

/-- `fill_event_key`: the event, the order and what the order had filled before. -/
structure FillEventKey where
  sourceEventId : String
  orderId : ℕ
  filledQuantity : ℚ
  deriving DecidableEq, Repr

structure Fill where
  eventKey : FillEventKey
  orderId : ℕ
  symbol : String
  positionSide : PositionSide
  positionEffect : PositionEffect
  side : Side
  quantity : ℚ
  price : ℚ
  commission : ℚ
  tax : ℚ
  slippageCost : ℚ
  filledAt : Timestamp
  deriving DecidableEq, Repr

def Fill.key (fill : Fill) : String × PositionSide := (fill.symbol, fill.positionSide)

inductive MarketEventStatus
  | processing | processed | failed
  deriving DecidableEq, Repr

structure MarketEvent where
  sourceEventId : String
  checksum : String
  status : MarketEventStatus
  symbol : String
  timestamp : Timestamp
  /-- `payload["close"]`. -/
  close : ℚ
  deriving DecidableEq, Repr

/-- A signal of a research run a decision may refer to. -/
structure SignalTrace where
  runId : String
  decisionId : String
  traceId : String
  deriving DecidableEq, Repr

/-- The rows of one simulated account and its session. -/
structure State where
  account : Account
  session : Session
  signalTraces : List SignalTrace := []
  decisions : List DecisionRow := []
  orders : List Order := []
  positions : List Position := []
  fills : List Fill := []
  marketEvents : List MarketEvent := []

end FinDashboard.Simulation
