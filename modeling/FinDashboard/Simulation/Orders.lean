import FinDashboard.Runs.Fallible
import FinDashboard.Simulation.Fills

/-!
# From target positions to orders

A decision names target quantities. Each target becomes at most one order: the difference to
the projected position, rounded to lots, after the risk checks have reserved cash for an
opening order or position for a closing one.
-/

namespace FinDashboard.Simulation

open Ledger

/-- The first failing check ends a call. -/
def require {ε : Type*} (condition : Prop) [Decidable condition] (error : ε) : Except ε Unit :=
  if condition then .ok () else .error error

theorem require_eq_ok {ε : Type*} {condition : Prop} [Decidable condition] {error : ε} {u : Unit} :
    require condition error = .ok u ↔ condition := by
  unfold require
  by_cases h : condition <;> simp [h]

def orderSide (positionSide : PositionSide) (effect : PositionEffect) : Side :=
  match positionSide, effect with
  | .long, .open => .buy
  | .long, .close => .sell
  | .short, .open => .sell
  | .short, .close => .buy

/-- `latest_market_event`: the processed event of a symbol with the latest time, the later row
of two at the same time. -/
def State.latestMarketEvent (st : State) (symbol : String) (before : Option Timestamp := none) :
    Option MarketEvent :=
  (st.marketEvents.filter fun event => event.status = .processed && event.symbol = symbol &&
      before.all fun time => event.timestamp.instant < time.instant).foldl
    (fun latest event => match latest with
      | none => some event
      | some known =>
          if known.timestamp.instant ≤ event.timestamp.instant then some event else some known)
    none

def positionMultiplier (position : Position) : Except SimulationError ℚ :=
  if position.instrumentType = .futures then do
    let rule ← position.resolveRule
    return rule.multiplier
  else return 1

/-- The market value of all positions at their last prices. -/
def grossExposure (st : State) : Except SimulationError ℚ :=
  st.positions.foldlM
    (fun sum position => do
      let multiplier ← positionMultiplier position
      return sum + position.totalQuantity * position.lastPrice * multiplier)
    0

/-- What one active order adds to `_active_open_notional`. -/
def openNotional (st : State) (order : Order) : Except SimulationError ℚ :=
  if order.positionEffect ≠ .open ∨ order.remaining ≤ 0 then return 0
  else do
    let pendingPrice ← match order.price, st.latestMarketEvent order.symbol with
      | some price, _ => Except.ok price
      | none, some event => Except.ok event.close
      | none, none => Except.error (.risk ⟨.missingMarketPrice,
          [.text order.symbol, .text " 活动订单缺少可恢复的风险参考价"]⟩)
    let rule ← order.resolveRule
    return order.remaining * pendingPrice * rule.multiplier

/-- `_active_open_notional`: the total and the part of one symbol. -/
def activeOpenNotional (st : State) (symbol : String) : Except SimulationError (ℚ × ℚ) :=
  st.activeOrders.foldlM
    (fun sums order => do
      let notional ← openNotional st order
      return (sums.1 + notional, if order.symbol = symbol then sums.2 + notional else sums.2))
    (0, 0)

def reservedCommission (rule : SimulationAssetRule) (notional : ℚ) : ℚ :=
  max (notional * rule.rule.commissionRate) rule.rule.commissionMin

/-- The cash `_risk_and_reserve` freezes for an opening order. -/
def requiredCash (config : SimulationConfig) (rule : SimulationAssetRule) (notional : ℚ) : ℚ :=
  if rule.isFutures then notional * rule.marginRate + reservedCommission rule notional
  else notional * (1 + config.matching.marketPriceBufferBps / 10000) +
    reservedCommission rule notional

/-- The order `_target_to_order` is about to place. -/
structure OrderTerms where
  rule : SimulationAssetRule
  position : Option Position
  effect : PositionEffect
  quantity : ℚ
  referencePrice : ℚ
  marketAt : Timestamp

def OrderTerms.notional (terms : OrderTerms) : ℚ :=
  terms.quantity * terms.referencePrice * terms.rule.multiplier

def checkOrder (st : State) (terms : OrderTerms) : Except SimulationError Unit := do
  let risk := st.session.config.risk
  require (st.activeCount < risk.maxActiveOrders)
    (.risk ⟨.maxActiveOrders, [.text "活动模拟订单数量超限"]⟩)
  require (0 < terms.referencePrice) (.risk ⟨.invalidPrice, [.text "模拟风控参考价格必须为正"]⟩)
  require (terms.notional ≤ risk.maxOrderValue) (.risk ⟨.maxOrderValue,
    [.text "模拟订单金额 ", .value terms.notional, .text " 超过 ", .value risk.maxOrderValue]⟩)

def checkExposure (st : State) (symbol : String) (terms : OrderTerms) :
    Except SimulationError Unit := do
  let risk := st.session.config.risk
  let currentNotional := match terms.position with
    | none => 0
    | some position => position.totalQuantity * terms.referencePrice * terms.rule.multiplier
  let (activeTotal, activeSymbol) ← activeOpenNotional st symbol
  require (currentNotional + activeSymbol + terms.notional ≤ risk.maxSymbolPositionValue)
    (.risk ⟨.maxSymbolPositionValue, [.text "模拟单标的目标金额超过风险上限"]⟩)
  let gross ← grossExposure st
  require (gross + activeTotal + terms.notional ≤ st.account.equity * risk.maxGrossExposure)
    (.risk ⟨.maxGrossExposure, [.text "模拟组合总敞口超过风险上限"]⟩)

def checkMargin (st : State) (terms : OrderTerms) (required : ℚ) : Except SimulationError Unit :=
  require (terms.rule.isFutures = false ∨
      st.account.marginUsed + required - reservedCommission terms.rule terms.notional ≤
        st.account.equity * st.session.config.risk.maxMarginUsage)
    (.risk ⟨.maxMarginUsage, [.text "模拟期货保证金占用超过上限"]⟩)

def reservePosition (st : State) (terms : OrderTerms) : Except SimulationError State :=
  let available := match terms.position with
    | none => 0
    | some position => position.availableQuantity
  match terms.position with
  | some position =>
      if available < terms.quantity then
        .error (.risk ⟨.insufficientPosition, [.text "可用模拟持仓 ", .value available,
          .text " 小于平仓数量 ", .value terms.quantity]⟩)
      else .ok (st.setPosition { position with
        frozenQuantity := position.frozenQuantity + terms.quantity
        availableQuantity := position.availableQuantity - terms.quantity })
  | none => .error (.risk ⟨.insufficientPosition, [.text "可用模拟持仓 ", .value available,
      .text " 小于平仓数量 ", .value terms.quantity]⟩)

/-- An opening order freezes cash. -/
def reserveCash (st : State) (required : ℚ) : Except SimulationError State :=
  if st.account.cash < required then
    .error (.risk ⟨.insufficientCash,
      [.text "模拟可用现金 ", .value st.account.cash, .text " 小于预占 ", .value required]⟩)
  else .ok { st with account := { st.account with
    cash := st.account.cash - required, frozenCash := st.account.frozenCash + required } }

/-- What an order has reserved when it is placed. -/
structure Reserved where
  state : State
  cash : ℚ
  quantity : ℚ

variable (money : ℚ → ℚ)

def riskAndReserve (st : State) (symbol : String) (terms : OrderTerms) :
    Except SimulationError Reserved := do
  checkOrder st terms
  match terms.effect with
  | .close => do
      let state ← reservePosition st terms
      return { state, cash := 0, quantity := terms.quantity }
  | .open => do
      checkExposure st symbol terms
      let required := requiredCash st.session.config terms.rule terms.notional
      checkMargin st terms required
      let state ← reserveCash st required
      return { state, cash := money required, quantity := 0 }

/-- The order row of a target; what it reserved and how it ended are set by its callers. -/
def orderRow (st : State) (decisionId : String) (target : SimulationTarget)
    (effect : PositionEffect) (quantity : ℚ) (eligibleAfter : Timestamp) (status : OrderStatus) :
    Order where
  orderId := st.orders.length
  decisionId
  symbol := target.symbol
  market := target.market
  instrumentType := target.instrumentType
  assetRuleKey := target.assetRuleKey
  positionSide := target.positionSide
  positionEffect := effect
  side := orderSide target.positionSide effect
  orderType := target.orderType
  timeInForce := target.timeInForce
  quantity
  price := target.limitPrice
  status
  eligibleAfter

/-- `_rejected_order`; before the first bar it is stamped with the wall clock. -/
def rejectedOrder (st : State) (decisionId : String) (target : SimulationTarget) (now : Timestamp)
    (reason : Reason) (message : List MessagePart) : Order :=
  { orderRow st decisionId target .open target.targetQuantity (st.session.clock.getD now)
      .rejected with
    rejectReason := some reason, rejectMessage := some message }

/-- The position once every active order has been filled. -/
def projectedQuantity (st : State) (symbol : String) (positionSide : PositionSide) : ℚ :=
  ((st.getPosition (symbol, positionSide)).elim 0 Position.totalQuantity) +
    total (fun order => if order.positionEffect = .open then order.remaining else -order.remaining)
      ((st.activeOrdersOf symbol).filter fun order => order.positionSide = positionSide)

/-- What a target asks for: nothing, less than a lot, or an order. -/
inductive TargetDemand
  | satisfied
  | belowLot
  | order (terms : OrderTerms)

/-- The part of `_target_to_order` before the risk checks. -/
def targetDemand (st : State) (target : SimulationTarget) (rule : SimulationAssetRule) :
    Except SimulationError TargetDemand :=
  match st.latestMarketEvent target.symbol with
  | none => .error (.risk ⟨.missingMarketPrice,
      [.text target.symbol, .text " 尚无已处理行情, 不能生成模拟订单"]⟩)
  | some latest =>
      let delta := target.targetQuantity - projectedQuantity st target.symbol target.positionSide
      if delta = 0 then .ok .satisfied
      else
        let quantity := rule.rule.roundToLot |delta|
        if quantity ≤ 0 then .ok .belowLot
        else .ok (.order {
          rule, quantity
          position := st.getPosition (target.symbol, target.positionSide)
          effect := if 0 < delta then .open else .close
          referencePrice := target.limitPrice.getD latest.close
          marketAt := latest.timestamp })

/-- The rest of `_target_to_order`: a failed risk check leaves a rejected order. -/
def placeOrder (st : State) (decisionId : String) (target : SimulationTarget) (terms : OrderTerms) :
    Except SimulationError (State × Order) :=
  let row := orderRow st decisionId target terms.effect terms.quantity terms.marketAt
  match riskAndReserve money st target.symbol terms with
  | .ok reserved =>
      let order := { row .acknowledged with
        reservedCash := reserved.cash, reservedQuantity := reserved.quantity }
      .ok (reserved.state.addOrder order, order)
  | .error (.risk error) =>
      let order := { row .rejected with
        rejectReason := some error.reason, rejectMessage := some error.message }
      .ok (st.addOrder order, order)
  | .error error => .error error

def targetToOrder (st : State) (decisionId : String) (now : Timestamp) (target : SimulationTarget) :
    Except SimulationError (State × Option Order) :=
  match resolveSimulationRule target.assetRuleKey target.market target.instrumentType
      target.symbol with
  | .error error => .error (.ruleResolution error)
  | .ok rule =>
      if target.positionSide = .short ∧ st.session.config.risk.allowShort = false then
        let order := rejectedOrder st decisionId target now .shortNotAllowed
          [.text "模拟风险配置未允许空头"]
        .ok (st.addOrder order, some order)
      else match targetDemand st target rule with
        | .error error => .error error
        | .ok .satisfied => .ok (st, none)
        | .ok .belowLot =>
            let order := rejectedOrder st decisionId target now .invalidQuantity
              [.text "目标差额按最小交易单位取整后为 0"]
            .ok (st.addOrder order, some order)
        | .ok (.order terms) =>
            (placeOrder money st decisionId target terms).map fun placed =>
              (placed.1, some placed.2)

end FinDashboard.Simulation
