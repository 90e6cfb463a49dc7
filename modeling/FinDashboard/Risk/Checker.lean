import FinDashboard.Core.Task

/-!
# The pre-trade risk check

`PreTradeChecker.check` reads the kill switch, the request and its own call window without
suspending, and the stored fills, orders and positions through the risk context, each of
which is an await. `screen` is the part before the first await.
-/

namespace FinDashboard.Risk

open Async Broker Core Persistence

/-- `RiskConfig`, with the defaults of the source. -/
structure RiskConfig where
  maxOrderValue : ℚ := 10000
  maxDailyBuyValue : ℚ := 50000
  maxActiveOrders : ℕ := 10
  maxOrdersPerMinute : ℕ := 5
  allowShort : Bool := false
  allowMarketOrder : Bool := false
  deriving DecidableEq, Repr

def allowsNewOrders (level : KillSwitchLevel) : Bool := level = .off

def allowsReduceOnly (level : KillSwitchLevel) : Bool :=
  level ∈ [KillSwitchLevel.off, .noNewOrders, .reduceOnly]

def checkKillSwitch (level : KillSwitchLevel) (request : OrderRequest) : Except TradingError Unit :=
  if allowsNewOrders level then .ok ()
  else if request.side = .sell && allowsReduceOnly level then .ok ()
  else .error (.killSwitchActive level request.side request.symbol)

def checkBasic (request : OrderRequest) : Except TradingError Unit := do
  if request.quantity ≤ 0 then
    throw (.riskCheck .invalidQuantity [.text "数量必须为正"])
  if request.orderType = .limit && request.price.all (· ≤ 0) then
    throw (.riskCheck .invalidPrice [.text "限价单价格必须为正"])
  if request.symbol.code.isEmpty then
    throw (.riskCheck .invalidSymbol [.text "symbol 不能为空"])

def checkOrderType (config : RiskConfig) (request : OrderRequest) : Except TradingError Unit :=
  if request.orderType = .market && !config.allowMarketOrder then
    .error (.riskCheck .riskCheckFailed [.text "当前风控配置禁止市价单(allow_market_order=false)"])
  else .ok ()

/-- `_check_per_order_value`; an order without a price cannot be valued. -/
def checkPerOrderValue (config : RiskConfig) (request : OrderRequest) : Except TradingError Unit :=
  let price := request.price.getD 0
  let notional := request.quantity * price
  if 0 < price ∧ config.maxOrderValue < notional then
    .error (.riskCheck .riskCheckFailed
      [.text "单笔金额 ", .value notional, .text " 超过上限 ", .value config.maxOrderValue])
  else .ok ()

/-- The checks that run before the first await. -/
def screen (config : RiskConfig) (level : KillSwitchLevel) (request : OrderRequest) :
    Except TradingError Unit := do
  checkKillSwitch level request
  checkBasic request
  checkOrderType config request
  checkPerOrderValue config request

/-- Midnight of the UTC day that contains an instant. -/
def dayStart (now : ℤ) : ℤ := now / 86400000000 * 86400000000

/-- `_check_daily_buy_value`, given the value read from the fills. -/
def checkDailyBuyValue (config : RiskConfig) (used quantity price : ℚ) : Except TradingError Unit :=
  let newNotional := quantity * price
  if config.maxDailyBuyValue < used + newNotional then
    .error (.riskCheck .insufficientCash [.text "当日累计买入将达 ", .value (used + newNotional),
        .text ", 超过 max_daily_buy_value=", .value config.maxDailyBuyValue])
  else .ok ()

/-- Call times that have left the one-minute window are dropped from the front. -/
def trimWindow (now : ℤ) (timestamps : List ℤ) : List ℤ :=
  timestamps.dropWhile fun first => 60000000 < now - first

/-- `_check_rate_limit`; the window is trimmed even when the call is refused. -/
def checkRateLimit (config : RiskConfig) (now : ℤ) : Session Unit := do
  modify fun s => { s with callTimestamps := trimWindow now s.callTimestamps }
  if config.maxOrdersPerMinute ≤ (← get).callTimestamps.length then
    throw (.riskCheck .riskCheckFailed [.text "超过每分钟订单数上限 ", .value config.maxOrdersPerMinute])
  modify fun s => { s with callTimestamps := s.callTimestamps ++ [now] }

/-- `_check_active_orders`, given the number of active rows. -/
def checkActiveOrders (config : RiskConfig) (count : ℕ) : Except TradingError Unit :=
  if config.maxActiveOrders ≤ count then
    .error (.riskCheck .riskCheckFailed
      [.text "活动订单数 ", .value count, .text " 超过上限 ", .value config.maxActiveOrders])
  else .ok ()

/-- `_check_sell_available`: the first position with the code decides. -/
def checkSellAvailable (config : RiskConfig) (request : OrderRequest) (positions : List Position) :
    Except TradingError Unit :=
  match positions.find? fun p => p.symbol.code = request.symbol.code with
  | some p =>
    if p.availableQuantity < request.quantity then
      .error (.riskCheck .insufficientPosition
        [.text "卖出 ", .value request.quantity, .text " 超过可用 ", .value p.availableQuantity,
          .text "(", .text request.symbol.code, .text ")"])
    else .ok ()
  | none =>
    if config.allowShort then .ok ()
    else .error (.riskCheck .insufficientPosition
      [.text "无 ", .text request.symbol.code, .text " 持仓,不允许卖出(allow_short=false)"])

/-- The await of `_check_daily_buy_value`; sales and unpriced orders are not valued. -/
def awaitDailyBuyValue (account : AccountId) (config : RiskConfig) (request : OrderRequest) :
    TradingTask Unit :=
  match request.side, request.price with
  | .buy, some price =>
    .atomically .dailyBuyValue fun reply => do
      let used := sumBuyValueSince (← get) account (dayStart reply.now)
      requireOk (checkDailyBuyValue config used request.quantity price)
  | _, _ => return ()

/-- The await of `_check_sell_available`. -/
def awaitSellAvailable (account : AccountId) (config : RiskConfig) (request : OrderRequest) :
    TradingTask Unit :=
  match request.side with
  | .sell =>
    .atomically .listPositions fun _ => do
      requireOk (checkSellAvailable config request (listLocal (← get) account))
  | .buy => return ()

/-- The part of `PreTradeChecker.check` from the first await on. -/
def checkContext (account : AccountId) (config : RiskConfig) (request : OrderRequest) :
    TradingTask Unit := do
  awaitDailyBuyValue account config request
  .atomically .rateLimit fun reply => checkRateLimit config reply.now
  .atomically .countActiveOrders fun _ => do
    requireOk (checkActiveOrders config (listActive (← get) account).length)
  awaitSellAvailable account config request

end FinDashboard.Risk
