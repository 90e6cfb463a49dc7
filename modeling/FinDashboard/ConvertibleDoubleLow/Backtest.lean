import FinDashboard.ConvertibleDoubleLow.Signals
import FinDashboard.Shared.Arithmetic

/-!
# The convertible double-low backtest

A rebalance on a day sells the bonds that are no longer ranked and buys the best ranked ones, at the next
day's open. What can be sold at the last open is closed out at the end.
-/

namespace FinDashboard.ConvertibleDoubleLow

open Ledger

variable {K : Type}

inductive Side
  | buy | sell
deriving DecidableEq

inductive TradeReason
  | signalEntry | rankExit | noCandidates | noSignals
deriving DecidableEq

structure ConvertibleTrade (K : Type) where
  code : String
  side : Side
  date : ℤ
  price : K
  quantity : K
  commission : K
  slippageCost : K
  cashFlow : K
  reason : TradeReason
deriving DecidableEq

inductive ExitReason
  | sold (reason : TradeReason) | backtestEnd
deriving DecidableEq

structure HoldingPeriod (K : Type) where
  code : String
  entryDate : ℤ
  entryPrice : K
  exitDate : ℤ
  exitPrice : K
  quantity : K
  pnl : K
  exitReason : ExitReason

structure Position (K : Type) where
  quantity : K
  entryPrice : K
  entryDate : ℤ
  issuer : String

/-- `_State`, with the index of the last rebalance. -/
structure State (K : Type) where
  cash : K
  positions : List (String × Position K) := []
  holdingsLog : List (HoldingPeriod K) := []
  trades : List (ConvertibleTrade K) := []
  equityCurve : List (ℤ × K) := []
  positionWeightsLog : List (ℤ × List (String × K)) := []
  holdingsCountLog : List (ℤ × ℕ) := []
  rebalanceDates : List ℤ := []
  totalCommission : K
  totalSlippage : K
  lastRebalance : ℤ

/-- What `run_backtest` is given: the snapshots by date with their dates in order, the opens and volumes
of the next day by date and code, and the events by code. -/
structure BacktestInputs (K : Type) where
  dates : List ℤ
  snapshots : ℤ → List (ConvertibleSnapshot K)
  nextOpens : ℤ → String → Option K
  nextVolumes : ℤ → String → Option K
  events : String → List LifecycleEvent
  sorted : dates.Pairwise (· < ·)

/-- The snapshot of a code in a dictionary of snapshots by code, the last one given. -/
def snapOf (code : String) (snapshots : List (ConvertibleSnapshot K)) : Option (ConvertibleSnapshot K) :=
  snapshots.reverse.find? fun snapshot => snapshot.code = code

/-- The price a position is valued at: the close of its bond, or its entry price where the bond has no
snapshot. -/
def markPrice (snapshots : List (ConvertibleSnapshot K)) (entry : String × Position K) : K :=
  match snapOf entry.1 snapshots with
  | some snapshot => snapshot.close
  | none => entry.2.entryPrice

variable [Decimals K]

def toLots (quantity : K) : K := ((Decimals.floor (quantity / ((10 : ℕ) : K)) : ℤ) : K) * ((10 : ℕ) : K)

/-- The quantity that may trade of an order, given the next day's volume. -/
def participating (config : ConvertibleDoubleLowConfig K) (volume quantity : K) : K :=
  if config.maxParticipation < 1 ∧ 0 < volume then
    toLots (pyMin quantity (volume * config.maxParticipation))
  else quantity

def slip (config : ConvertibleDoubleLowConfig K) : K := config.slippageBps / ((10000 : ℕ) : K)

def commissionOn (config : ConvertibleDoubleLowConfig K) (value : K) : K :=
  pyMax (value * config.commissionRate) 1

def tradable? (nextOpen : Option K) : Option K :=
  match nextOpen with
  | none => none
  | some openPrice => if openPrice ≤ 0 then none else some openPrice

def recordBuy (config : ConvertibleDoubleLowConfig K) (code issuer : String) (tradeDate : ℤ)
    (openPrice fillPrice qty : K) (state : State K) : State K :=
  let cost := fillPrice * qty
  let commission := commissionOn config cost
  { state with
    cash := state.cash - (cost + commission)
    positions := assign code
      { quantity := qty, entryPrice := fillPrice, entryDate := tradeDate, issuer } state.positions
    totalCommission := state.totalCommission + commission
    totalSlippage := state.totalSlippage + (fillPrice - openPrice) * qty
    trades := state.trades ++
      [{ code, side := .buy, date := tradeDate, price := openPrice, quantity := qty, commission,
         slippageCost := (fillPrice - openPrice) * qty, cashFlow := 0 - (cost + commission),
         reason := .signalEntry }] }

def buy (config : ConvertibleDoubleLowConfig K) (code issuer : String) (targetValue : K) (tradeDate : ℤ)
    (nextOpen nextVolume : Option K) (state : State K) : State K :=
  match tradable? nextOpen with
  | none => state
  | some openPrice =>
    let wanted := toLots (targetValue / openPrice)
    if wanted ≤ 0 then state
    else
      let qty := participating config (nextVolume.getD 0) wanted
      if qty ≤ 0 then state
      else
        let fillPrice := openPrice * (1 + slip config)
        let cost := fillPrice * qty
        let commission := commissionOn config cost
        if state.cash < cost + commission then
          let affordable := toLots ((state.cash - commission) / fillPrice)
          if affordable ≤ 0 then state
          else recordBuy config code issuer tradeDate openPrice fillPrice affordable state
        else recordBuy config code issuer tradeDate openPrice fillPrice qty state

def recordSell (config : ConvertibleDoubleLowConfig K) (code : String) (pos : Position K)
    (tradeDate : ℤ) (openPrice qty : K) (reason : TradeReason) (state : State K) : State K :=
  let fillPrice := openPrice * (1 - slip config)
  let proceeds := fillPrice * qty
  let commission := commissionOn config proceeds
  let remaining := pos.quantity - qty
  { state with
    cash := state.cash + (proceeds - commission)
    totalCommission := state.totalCommission + commission
    totalSlippage := state.totalSlippage + (openPrice - fillPrice) * qty
    trades := state.trades ++
      [{ code, side := .sell, date := tradeDate, price := openPrice, quantity := qty, commission,
         slippageCost := (openPrice - fillPrice) * qty, cashFlow := proceeds - commission, reason }]
    holdingsLog := state.holdingsLog ++
      [{ code, entryDate := pos.entryDate, entryPrice := pos.entryPrice, exitDate := tradeDate,
         exitPrice := fillPrice, quantity := qty, pnl := (fillPrice - pos.entryPrice) * qty,
         exitReason := .sold reason }]
    positions :=
      if 0 < remaining then assign code { pos with quantity := remaining } state.positions
      else remove code state.positions }

def sellPosition (config : ConvertibleDoubleLowConfig K) (tradeDate : ℤ)
    (nextOpens nextVolumes : String → Option K) (reason : TradeReason) (state : State K)
    (code : String) : State K :=
  match find code state.positions with
  | none => state
  | some pos =>
    match tradable? (nextOpens code) with
    | none => state
    | some openPrice =>
      let qty := participating config ((nextVolumes code).getD 0) pos.quantity
      if qty ≤ 0 then state
      else recordSell config code pos tradeDate openPrice qty reason state

def sellAll (config : ConvertibleDoubleLowConfig K) (tradeDate : ℤ)
    (nextOpens nextVolumes : String → Option K) (reason : TradeReason) (state : State K) : State K :=
  (state.positions.map (·.1)).foldl (sellPosition config tradeDate nextOpens nextVolumes reason) state

def calcEquity (snapshots : List (ConvertibleSnapshot K)) (state : State K) : K :=
  state.positions.foldl
    (fun equity entry => equity + markPrice snapshots entry * entry.2.quantity) state.cash

def issuerWeight (state : State K) (issuer : String) : K :=
  let total := sumOf ((state.positions.filter fun entry => entry.2.issuer = issuer).map
    fun entry => entry.2.quantity * entry.2.entryPrice)
  let equity := state.cash + sumOf (state.positions.map
    fun entry => entry.2.quantity * entry.2.entryPrice)
  if equity ≤ 0 then 0 else total / equity

def entryWeight (config : ConvertibleDoubleLowConfig K) : K :=
  pyMin (1 / (config.topN : K)) config.maxWeightPerBond

/-- One pass of the loop over the signals, given the equity after the exits. -/
def enter (inputs : BacktestInputs K) (config : ConvertibleDoubleLowConfig K) (currentDate : ℤ)
    (safeCandidates : List (ConvertibleSnapshot K)) (equity : K) (state : State K)
    (sig : ConvertibleSignal K) : State K :=
  if (find sig.code state.positions).isSome then state
  else
    match safeCandidates.find? fun snapshot => snapshot.code = sig.code with
    | none => state
    | some snap =>
      if config.maxWeightPerIssuer < issuerWeight state snap.issuerCode + entryWeight config then state
      else
        buy config sig.code snap.issuerCode (equity * entryWeight config) currentDate
          (inputs.nextOpens currentDate sig.code) (inputs.nextVolumes currentDate sig.code) state

/-- The candidates of a day without an event against them. -/
def safeCandidates (inputs : BacktestInputs K) (config : ConvertibleDoubleLowConfig K) (currentDate : ℤ) :
    List (ConvertibleSnapshot K) :=
  (filterEventRisk (filterUniverse (inputs.snapshots currentDate) config currentDate) inputs.events
    currentDate config.universeMinRemainingDays).1

/-- `_enforce_turnover_limit`, which leaves the state as it is where the limit is exceeded as well. -/
def enforceTurnoverLimit (config : ConvertibleDoubleLowConfig K) (currentDate : ℤ)
    (snapshots : List (ConvertibleSnapshot K)) (state : State K) : State K :=
  let today := state.trades.filter fun trade => trade.date = currentDate
  let bought := sumOf ((today.filter fun trade => trade.side = .buy).map
    fun trade => if trade.cashFlow < 0 then 0 - trade.cashFlow else trade.cashFlow)
  let sold := sumOf ((today.filter fun trade => trade.side = .sell).map (·.cashFlow))
  let equity := calcEquity snapshots state
  if equity ≤ 0 then state
  else if config.maxDailyTurnover < (bought + sold) / equity then state
  else state

/-- The exits of a rebalance. -/
def sellUnranked (inputs : BacktestInputs K) (config : ConvertibleDoubleLowConfig K) (currentDate : ℤ)
    (signals : List (ConvertibleSignal K)) (state : State K) : State K :=
  ((state.positions.map (·.1)).filter fun code => code ∉ signals.map (·.code)).foldl
    (sellPosition config currentDate (inputs.nextOpens currentDate) (inputs.nextVolumes currentDate)
      .rankExit) state

def doRebalance (inputs : BacktestInputs K) (config : ConvertibleDoubleLowConfig K) (currentDate : ℤ)
    (state : State K) : State K :=
  let safe := safeCandidates inputs config currentDate
  let signals := generateSignals safe config
  if safe.isEmpty then
    sellAll config currentDate (inputs.nextOpens currentDate) (inputs.nextVolumes currentDate)
      .noCandidates state
  else if signals.isEmpty then
    sellAll config currentDate (inputs.nextOpens currentDate) (inputs.nextVolumes currentDate)
      .noSignals state
  else
    let exited := sellUnranked inputs config currentDate signals state
    let equity := calcEquity (inputs.snapshots currentDate) exited
    let entered := (signals.take (computeRankThreshold config .entry).toNat).foldl
      (enter inputs config currentDate safe equity) exited
    enforceTurnoverLimit config currentDate (inputs.snapshots currentDate) entered

def markToMarket (nextDate : ℤ) (nextSnapshots : List (ConvertibleSnapshot K)) (state : State K) :
    State K :=
  let equity := calcEquity nextSnapshots state
  let totalEq := if 0 < equity then equity else 1
  { state with
    equityCurve := state.equityCurve ++ [(nextDate, equity)]
    positionWeightsLog := state.positionWeightsLog ++ [(nextDate, state.positions.map fun entry =>
      (entry.1, (markPrice nextSnapshots entry * entry.2.quantity) / totalEq))]
    holdingsCountLog := state.holdingsCountLog ++ [(nextDate, state.positions.length)] }

def isRebalance (config : ConvertibleDoubleLowConfig K) (barIdx : ℕ) (state : State K) : Bool :=
  config.rebalanceIntervalDays ≤ (barIdx : ℤ) - state.lastRebalance

def rebalanceBar (inputs : BacktestInputs K) (config : ConvertibleDoubleLowConfig K) (barIdx : ℕ)
    (currentDate : ℤ) (state : State K) : State K :=
  if isRebalance config barIdx state then
    doRebalance inputs config currentDate
      { state with
        lastRebalance := barIdx
        rebalanceDates := state.rebalanceDates ++ [currentDate] }
  else state

/-- One bar, given its date and its index. -/
def bar (inputs : BacktestInputs K) (config : ConvertibleDoubleLowConfig K) (state : State K)
    (entry : ℤ × ℕ) : State K :=
  let rebalanced := rebalanceBar inputs config entry.2 entry.1 state
  match inputs.dates[entry.2 + 1]? with
  | some nextDate => markToMarket nextDate (inputs.snapshots nextDate) rebalanced
  | none => rebalanced

/-- `_State(cash=config.capital)`. -/
def initialState (config : ConvertibleDoubleLowConfig K) : State K :=
  { cash := config.capital
    totalCommission := 0
    totalSlippage := 0
    lastRebalance := -config.rebalanceIntervalDays - 1 }

def afterBars (inputs : BacktestInputs K) (config : ConvertibleDoubleLowConfig K) : State K :=
  inputs.dates.zipIdx.foldl (bar inputs config) (initialState config)

/-- The commission of the close-out on a value. -/
def closingCommission (proceeds : K) : K :=
  pyMax (proceeds * (((2 : ℕ) : K) / ((10000 : ℕ) : K))) 1

/-- One pass of the loop of `_close_all_positions`. -/
def closePosition (lastDate : ℤ) (opens : String → Option K) (state : State K) (code : String) : State K :=
  match tradable? (opens code), find code state.positions with
  | some openPrice, some pos =>
    let proceeds := openPrice * pos.quantity
    { state with
      cash := state.cash + (proceeds - closingCommission proceeds)
      holdingsLog := state.holdingsLog ++
        [{ code, entryDate := pos.entryDate, entryPrice := pos.entryPrice, exitDate := lastDate,
           exitPrice := openPrice, quantity := pos.quantity,
           pnl := (openPrice - pos.entryPrice) * pos.quantity, exitReason := .backtestEnd }]
      positions := remove code state.positions }
  | _, _ => state

def closeAllPositions (lastDate : ℤ) (opens : String → Option K) (state : State K) : State K :=
  (state.positions.map (·.1)).foldl (closePosition lastDate opens) state

/-- `ConvertibleBacktestResult`; no coupon and no redemption is ever booked. -/
structure ConvertibleBacktestResult (K : Type) where
  trades : List (ConvertibleTrade K)
  holdings : List (HoldingPeriod K)
  equityCurve : List (ℤ × K)
  positionWeights : List (ℤ × List (String × K))
  dailyHoldingsCount : List (ℤ × ℕ)
  rebalanceDates : List ℤ
  commission : K
  slippage : K
  finalEquity : K

def buildResult (state : State K) : ConvertibleBacktestResult K :=
  { trades := state.trades
    holdings := state.holdingsLog
    equityCurve := state.equityCurve
    positionWeights := state.positionWeightsLog
    dailyHoldingsCount := state.holdingsCountLog
    rebalanceDates := state.rebalanceDates
    commission := state.totalCommission
    slippage := state.totalSlippage
    finalEquity :=
      match state.equityCurve.getLast? with
      | some (_, lastEq) => pyMax state.cash lastEq
      | none => state.cash }

/-- `run_backtest`, with the state it ends in; without dates it raises. -/
def runBacktest (inputs : BacktestInputs K) (config : ConvertibleDoubleLowConfig K) :
    Option (ConvertibleBacktestResult K × State K) :=
  match inputs.dates.getLast? with
  | none => none
  | some lastDate =>
    let closed := closeAllPositions lastDate (inputs.nextOpens lastDate) (afterBars inputs config)
    some (buildResult closed, closed)

end FinDashboard.ConvertibleDoubleLow
