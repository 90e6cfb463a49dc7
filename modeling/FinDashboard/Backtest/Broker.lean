import FinDashboard.Backtest.Positions
import FinDashboard.Broker.Adapter

/-!
# The paper broker

`BacktestBroker` keeps everything in memory. An order waits until a bar of its symbol arrives;
a bar rejects it, fills it in whole or in part, or leaves it waiting. An order object is written
through the broker's reference to it, so the orders are listed by the place of their object.
-/

namespace FinDashboard.Backtest

open Ledger
open Simulation (Bar Date FillTiming Timestamp)

/-- `Order`, as `BacktestContext.submit_order` creates it. -/
structure Order where
  clientOrderId : ClientOrderId
  symbol : Symbol
  side : Side
  orderType : OrderType
  quantity : ℚ
  price : Option ℚ := none
  brokerOrderId : Option String := none
  filledQuantity : ℚ := 0
  averageFillPrice : Option ℚ := none
  status : OrderStatus := .created
  rejectReason : Option RejectReason := none
  rejectMessage : Option (List MessagePart) := none
  deriving DecidableEq, Repr

structure Fill where
  fillId : String
  clientOrderId : ClientOrderId
  symbol : Symbol
  side : Side
  quantity : ℚ
  price : ℚ
  commission : ℚ
  tax : ℚ
  brokerOrderId : Option String
  filledAt : Timestamp
  deriving DecidableEq, Repr

structure BrokerEvent where
  type : BrokerEventType
  clientOrderId : ClientOrderId
  brokerOrderId : Option String
  fill : Option Fill
  rejectReason : Option RejectReason
  message : List MessagePart
  deriving DecidableEq, Repr

/-- `_OrderState`; `order` is the place of the order object. -/
structure OrderState where
  order : ℕ
  rule : AssetRule
  slippageBps : ℚ
  submittedOn : Date
  remaining : ℚ

/-- A dictionary of pending orders, by client order id. -/
abbrev Pending := List (ClientOrderId × OrderState)

/-- The attributes of `BacktestBroker` that change. -/
structure State where
  cash : ℚ
  positions : Positions := []
  /-- Every order object, in the order in which they were placed. -/
  orders : List Order := []
  /-- `_orders`: the place of the object last placed under a client order id. -/
  ordersById : List (ClientOrderId × ℕ) := []
  fills : List Fill := []
  pendingOrders : Pending := []
  pendingLimit : Pending := []
  currentBars : List (String × Bar) := []
  previousCloses : List (String × ℚ) := []
  currentDate : Option Date := none
  events : List BrokerEvent := []
  idCounter : ℕ := 1

def State.initial (config : BrokerConfig) : State := { cash := config.initialCapital }

/-- `market_close`: five in the afternoon in Shanghai. -/
def marketClose (businessDate : Date) : Timestamp where
  date := businessDate
  timeOfDay := 61200000000
  utcOffset := 28800000000

namespace State

def pushEvent (st : State) (type : BrokerEventType) (order : Order) (fill : Option Fill) : State :=
  { st with events := st.events ++
    [{ type, clientOrderId := order.clientOrderId, brokerOrderId := order.brokerOrderId, fill,
       rejectReason := order.rejectReason, message := order.rejectMessage.getD [] }] }

/-- The object of an order rewritten. -/
def setOrder (st : State) (place : ℕ) (order : Order) : State :=
  { st with orders := st.orders.set place order }

/-- A new object under its client order id. -/
def register (st : State) (order : Order) : State :=
  { st with orders := st.orders ++ [order],
            ordersById := assign order.clientOrderId st.orders.length st.ordersById }

end State

def Order.rejected (order : Order) (reason : RejectReason) (message : List MessagePart) : Order :=
  { order with status := .rejected, rejectReason := some reason, rejectMessage := some message }

def State.reject (st : State) (place : ℕ) (order : Order) (reason : RejectReason)
    (message : List MessagePart) : State :=
  let order := order.rejected reason message
  (st.setOrder place order).pushEvent .orderRejected order none

/-- The text of `AssetRuleResolutionError`. -/
def resolutionMessage (market : Market) (instrumentType : InstrumentType) : List MessagePart :=
  let marketValue := match market with
    | .aShare => "a_share" | .hk => "hk" | .us => "us" | .future => "future"
  let typeValue := match instrumentType with
    | .stock => "stock" | .etf => "etf" | .index => "index" | .futures => "futures"
    | .bond => "bond" | .convertible => "convertible"
  [.text "无可用撮合规则: market=", .text marketValue, .text " type=", .text typeValue]

/-- An order that passed the checks waits in the dictionary of its type. -/
def State.accept (st : State) (order : Order) (rule : AssetRule) (slippageBps : ℚ) (today : Date) :
    State × Broker.SubmissionResult :=
  let brokerOrderId := toString st.idCounter
  let order := { order with status := .submitted, brokerOrderId := some brokerOrderId }
  let state : OrderState :=
    { order := st.orders.length, rule, slippageBps, submittedOn := today,
      remaining := order.quantity }
  let st := { st.register order with idCounter := st.idCounter + 1 }
  let st := match order.orderType with
    | .limit => { st with pendingLimit := assign order.clientOrderId state st.pendingLimit }
    | .market => { st with pendingOrders := assign order.clientOrderId state st.pendingOrders }
  (st.pushEvent .orderAccepted order none, { brokerOrderId := some brokerOrderId })

def State.refuse (st : State) (order : Order) (reason : RejectReason) (message : List MessagePart) :
    State × Broker.SubmissionResult :=
  let order := order.rejected reason message
  ((st.register order).pushEvent .orderRejected order none,
    { accepted := false, rejectReason := some reason })

/-- `place_order`. The object is registered first; it is written here as the call leaves it,
since nothing reads it in between. A failed check of the rule's constructor is raised. -/
def placeOrder (config : BrokerConfig) (st : State) (order : Order) :
    State × Except RuleError Broker.SubmissionResult :=
  match st.currentDate with
  | none =>
      (st.register (order.rejected .brokerRejected [.text "尚未收到任何 Bar,无法下单"]),
        .ok { accepted := false, rejectReason := some .brokerRejected })
  | some today =>
      match config.resolveRule order.symbol.code with
      | .error (.resolution market instrumentType) =>
          let (st, result) :=
            st.refuse order .invalidSymbol (resolutionMessage market instrumentType)
          (st, .ok result)
      | .error .value => (st.register order, .error .value)
      | .ok (rule, slippageBps) =>
          let rounded := rule.roundToLot order.quantity
          if config.matchingModel.enforceLotRounding = true ∧ rounded < rule.lotSize then
            let (st, result) := st.refuse order .invalidQuantity
              [.text "数量 ", .value order.quantity, .text " 向下取整到 lot_size=",
                .value rule.lotSize, .text " 后为 0"]
            (st, .ok result)
          else
            let order := if config.matchingModel.enforceLotRounding then
                { order with quantity := rounded }
              else order
            let (st, result) := st.accept order rule slippageBps today
            (st, .ok result)

/-- The removal of `cancel_order`: the market dictionary first, then the limit dictionary. -/
def State.popPending (st : State) (clientOrderId : ClientOrderId) : State × Option OrderState :=
  match find clientOrderId st.pendingOrders with
  | some state => ({ st with pendingOrders := remove clientOrderId st.pendingOrders }, some state)
  | none =>
      match find clientOrderId st.pendingLimit with
      | some state => ({ st with pendingLimit := remove clientOrderId st.pendingLimit }, some state)
      | none => (st, none)

/-- `cancel_order`; the rest of a partially filled order is cancelled without an event. -/
def cancelOrder (st : State) (clientOrderId : ClientOrderId) : State :=
  match st.popPending clientOrderId with
  | (st, none) => st
  | (st, some state) =>
      match st.orders[state.order]? with
      | none => st
      | some order =>
          let cancelled := { order with status := .cancelled }
          let st := st.setOrder state.order cancelled
          if order.filledQuantity ≤ 0 then st.pushEvent .orderCancelled cancelled none else st

/-- What a check makes of the quantity to be filled. -/
inductive Offer
  | wait
  | reject (reason : RejectReason) (message : List MessagePart)
  | trade (quantity : ℚ)
  deriving DecidableEq, Repr

/-- The first part of `_execute_fill`: participation and whole lots. -/
def liquidity (config : BrokerConfig) (state : OrderState) (bar : Bar) : Offer :=
  let model := config.matchingModel
  let executed :=
    fillQuantityWithinParticipation state.remaining bar.volume model.maxParticipation
  if executed ≤ 0 ∧ model.allowPartialFill = false then .wait
  else
    -- with partial fills an order the bar has nothing for is tried in whole
    let executed := if executed ≤ 0 then state.remaining else executed
    if executed ≤ 0 then .wait
    else
      let lots := if model.enforceLotRounding then state.rule.roundToLot executed else executed
      if model.enforceLotRounding = true ∧ lots < state.rule.lotSize then
        if state.remaining ≤ state.rule.lotSize then
          .reject .invalidQuantity
            [.text "成交量 ", .value lots, .text " 不足 1 手(", .value state.rule.lotSize, .text ")"]
        else .wait
      else .trade (min lots state.remaining)

/-- The check of a sale: at most what is available, unless the rule allows short selling. -/
def deliverable (config : BrokerConfig) (rule : AssetRule) (code : String)
    (available quantity : ℚ) : Offer :=
  if available < quantity ∧ rule.allowShort = false then
    if available ≤ 0 then
      .reject .insufficientPosition
        [.text "超卖拒绝: ", .text code, .text " 可用 ", .value available, .text ", 需 ",
          .value quantity, .text ";现金与持仓不变"]
    else if config.matchingModel.enforceLotRounding then
      if rule.roundToLot available ≤ 0 then .wait else .trade (rule.roundToLot available)
    else .trade available
  else .trade quantity

/-- A trade at its price with its charges. -/
structure Execution where
  quantity : ℚ
  price : ℚ
  commission : ℚ
  tax : ℚ

namespace Execution

def turnover (e : Execution) : ℚ := e.price * e.quantity

/-- `total_cost`. -/
def fees (e : Execution) : ℚ := e.commission + e.tax

/-- What a purchase costs. -/
def needed (e : Execution) : ℚ := e.turnover + e.fees

/-- What a sale brings in. -/
def received (e : Execution) : ℚ := e.turnover - e.fees

end Execution

/-- Price and charges of a trade. -/
def executionOf (state : OrderState) (side : Side) (quantity rawPrice : ℚ) : Execution :=
  let price :=
    state.rule.roundToTick (Simulation.priceWithSlippage rawPrice side state.slippageBps)
  let turnover := price * quantity
  { quantity, price,
    commission := max (turnover * state.rule.commissionRate) state.rule.commissionMin,
    tax := if side = .sell then turnover * state.rule.stampTaxRate else 0 }

/-- The order after a trade; `average_fill_price` is the price of the last one. -/
def Order.filled (order : Order) (remaining : ℚ) (e : Execution) : Order :=
  { order with
    status := if remaining ≤ e.quantity then .filled else .partiallyFilled
    filledQuantity := order.filledQuantity + e.quantity
    averageFillPrice := some e.price }

/-- The fill a trade is recorded as. -/
def fillOf (order : Order) (e : Execution) (idCounter : ℕ) (today : Date) : Fill where
  fillId := "BT-" ++ toString idCounter
  clientOrderId := order.clientOrderId
  symbol := order.symbol
  side := order.side
  quantity := e.quantity
  price := e.price
  commission := e.commission
  tax := e.tax
  brokerOrderId := order.brokerOrderId
  filledAt := marketClose today

/-- The last part of `_execute_fill`: cash, position, fill and order of a trade. -/
def bookFill (today : Date) (st : State) (state : OrderState) (order : Order) (e : Execution) :
    State × OrderState :=
  let cash := match order.side with
    | .buy => st.cash - e.needed
    | .sell => st.cash + e.received
  let positions := applyFillToPosition st.positions order.symbol state.rule order.side e.quantity
    e.price today state.rule.enforceTPlus1
  let fill := fillOf order e st.idCounter today
  let filled := order.filled state.remaining e
  let st := { st with cash, positions, fills := st.fills ++ [fill], idCounter := st.idCounter + 1 }
  let remaining := if state.remaining ≤ e.quantity then 0 else state.remaining - e.quantity
  ((st.setOrder state.order filled).pushEvent .orderFilled filled (some fill),
    { state with remaining })

/-- A trade, unless the cash does not cover a purchase. -/
def settleFill (today : Date) (st : State) (state : OrderState) (order : Order) (e : Execution) :
    State × OrderState :=
  if order.side = .buy ∧ st.cash < e.needed ∧ state.rule.allowShort = false then
    (st.reject state.order order .insufficientCash
      [.text "资金不足: 需 ", .value e.needed, .text ", 有 ", .value st.cash,
        .text ";持仓与现金不变"], state)
  else bookFill today st state order e

def executeFill (config : BrokerConfig) (today : Date) (st : State) (state : OrderState)
    (order : Order) (bar : Bar) (rawPrice : ℚ) : State × OrderState :=
  match liquidity config state bar with
  | .wait => (st, state)
  | .reject reason message => (st.reject state.order order reason message, state)
  | .trade desired =>
      match order.side with
      | .buy => settleFill today st state order (executionOf state .buy desired rawPrice)
      | .sell =>
          let (positions, available) := availableFor st.positions order.symbol.code today
          let st := { st with positions }
          match deliverable config state.rule order.symbol.code available desired with
          | .wait => (st, state)
          | .reject reason message => (st.reject state.order order reason message, state)
          | .trade quantity =>
              settleFill today st state order (executionOf state .sell quantity rawPrice)

def isSuspended (config : BrokerConfig) (st : State) (bar : Bar) : Bool :=
  config.matchingModel.enforceSuspension &&
    Simulation.isSuspended bar (find bar.symbol.code st.previousCloses)

def isAtLimitBlocked (config : BrokerConfig) (st : State) (side : Side) (bar : Bar)
    (rule : AssetRule) : Bool :=
  config.matchingModel.enforcePriceLimit &&
    Simulation.priceLimitBlocked side bar rule.toAssetRule (find bar.symbol.code st.previousCloses)

def tryFillMarket (config : BrokerConfig) (today : Date) (st : State) (state : OrderState)
    (order : Order) (bar : Bar) : State × OrderState :=
  if isSuspended config st bar then
    (st.reject state.order order .brokerRejected [.text order.symbol.code, .text " 停牌,无法成交"], state)
  else if isAtLimitBlocked config st order.side bar state.rule then
    (st.reject state.order order .brokerRejected [.text order.symbol.code, .text " 触发涨跌停限制"], state)
  else executeFill config today st state order bar
    (Simulation.fillPriceFor state.rule.toAssetRule order.side bar config.matchingModel.fillTiming none)

def limitReached (config : BrokerConfig) (side : Side) (bar : Bar) (limitPrice : ℚ) : Bool :=
  match side with
  | .buy => bar.low < limitPrice ||
      (config.matchingModel.honourGaps && decide (bar.openPrice ≤ limitPrice)) ||
      bar.low ≤ limitPrice
  | .sell => limitPrice < bar.high ||
      (config.matchingModel.honourGaps && decide (limitPrice ≤ bar.openPrice)) ||
      limitPrice ≤ bar.high

def tryFillLimit (config : BrokerConfig) (today : Date) (st : State) (state : OrderState)
    (order : Order) (bar : Bar) : State × OrderState :=
  match order.price with
  | none =>
      (st.reject state.order order .invalidPrice [.text "限价单缺少 price"], state)
  | some limitPrice =>
      if isSuspended config st bar then
        (st.reject state.order order .brokerRejected
          [.text order.symbol.code, .text " 停牌,限价单无法成交"], state)
      else if isAtLimitBlocked config st order.side bar state.rule then
        (st.reject state.order order .brokerRejected
          [.text order.symbol.code, .text " 涨跌停,限价单无法成交"], state)
      else if limitReached config order.side bar limitPrice then
        executeFill config today st state order bar
          (Simulation.fillPriceFor state.rule.toAssetRule order.side bar
            config.matchingModel.fillTiming (some limitPrice))
      else (st, state)

/-- How an order is tried on a bar of its symbol. -/
abbrev TryFill := State → OrderState → Order → Bar → State × OrderState

/-- Whether the pending order is passed over: another symbol, or placed on this day. -/
def passedOver (config : BrokerConfig) (today : Date) (state : OrderState) (order : Order)
    (bar : Bar) : Bool :=
  order.symbol.code ≠ bar.symbol.code ||
    (config.matchingModel.nextBarOnly && decide (state.submittedOn = today))

/-- One turn of a loop of `_match_pending_orders`: the state after it, and the pending order
unless it is to be removed. -/
def matchEntry (tryFill : TryFill) (config : BrokerConfig) (today : Date) (bar : Bar) (st : State)
    (state : OrderState) : State × Option OrderState :=
  match st.orders[state.order]? with
  | none => (st, some state)
  | some order =>
      if passedOver config today state order bar then (st, some state)
      else
        let (st', state') := tryFill st state order bar
        if (st'.orders[state.order]?).any (·.status.isTerminal) ∨ state'.remaining ≤ 0 then
          (st', none)
        else (st', some state')

/-- A loop of `_match_pending_orders`: the state after it and the orders still pending. -/
def matchEntries (tryFill : TryFill) (config : BrokerConfig) (today : Date) (bar : Bar) :
    Pending → State → State × Pending
  | [], st => (st, [])
  | (clientOrderId, state) :: rest, st =>
      let (st, kept) := matchEntry tryFill config today bar st state
      let (st, rest) := matchEntries tryFill config today bar rest st
      match kept with
      | some state => (st, (clientOrderId, state) :: rest)
      | none => (st, rest)

def matchMarketOrders (config : BrokerConfig) (today : Date) (bar : Bar) (st : State) : State :=
  let (st, pendingOrders) :=
    matchEntries (tryFillMarket config today) config today bar st.pendingOrders st
  { st with pendingOrders }

def matchLimitOrders (config : BrokerConfig) (today : Date) (bar : Bar) (st : State) : State :=
  let (st, pendingLimit) :=
    matchEntries (tryFillLimit config today) config today bar st.pendingLimit st
  { st with pendingLimit }

def matchPendingOrders (config : BrokerConfig) (today : Date) (bar : Bar) (st : State) : State :=
  matchLimitOrders config today bar (matchMarketOrders config today bar st)

/-- The market data and the available quantities a bar brings. -/
def State.advance (st : State) (bar : Bar) : State :=
  { st with
    currentBars := assign bar.symbol.code bar st.currentBars
    currentDate := some bar.timestamp.date
    previousCloses := match find bar.symbol.code st.currentBars with
      | some previous => assign bar.symbol.code previous.close st.previousCloses
      | none => st.previousCloses
    positions := refreshPositions st.positions bar.timestamp.date }

/-- `on_new_bar`; assigning a date that is already current changes nothing. -/
def onNewBar (config : BrokerConfig) (st : State) (bar : Bar) : State :=
  matchPendingOrders config bar.timestamp.date bar (st.advance bar)

/-- What the engine and the strategy do with a broker. -/
inductive Action
  | onNewBar (bar : Bar)
  /-- `BacktestContext.submit_order`; the client order id is generated by the call. -/
  | submitOrder (clientOrderId : ClientOrderId) (symbol : Symbol) (side : Side) (quantity : ℚ)
      (orderType : OrderType) (price : Option ℚ)
  | cancelOrder (clientOrderId : ClientOrderId)

def step (config : BrokerConfig) (st : State) : Action → State
  | .onNewBar bar => onNewBar config st bar
  | .submitOrder clientOrderId symbol side quantity orderType price =>
      (placeOrder config st { clientOrderId, symbol, side, orderType, quantity, price }).1
  | .cancelOrder clientOrderId => cancelOrder st clientOrderId

def run (config : BrokerConfig) (actions : List Action) : State :=
  actions.foldl (step config) (State.initial config)

def Action.date : Action → Option Date
  | .onNewBar bar => some bar.timestamp.date
  | _ => none

/-- No bar is older than one before it. -/
def Chronological (actions : List Action) : Prop :=
  (actions.filterMap Action.date).Pairwise (· ≤ ·)

instance (actions : List Action) : Decidable (Chronological actions) :=
  inferInstanceAs (Decidable (List.Pairwise _ _))

end FinDashboard.Backtest
