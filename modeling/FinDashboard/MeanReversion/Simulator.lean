import FinDashboard.Ledger.Dictionary
import FinDashboard.MeanReversion.Signals
import FinDashboard.Runs.Bars

/-!
# The mean-reversion simulator

Each bar fills the orders of the bar before at its open, and turns the exits and entries its closes give
into orders for the next bar.
-/

namespace FinDashboard.MeanReversion

open Ledger Runs

inductive Side
  | buy | sell
deriving DecidableEq

inductive OrderReason
  | entry | exitSignal | maxHolding
deriving DecidableEq

structure Trade (K : Type) where
  symbol : String
  side : Side
  barIndex : ℕ
  fillPrice : K
  rawPrice : K
  shares : K
  grossValue : K
  commission : K
  stampTax : K
  slippageCost : K
  totalCost : K
  signalValue : K
  reason : OrderReason
deriving DecidableEq

structure OpenPosition (K : Type) where
  symbol : String
  entryBar : ℕ
  entryPrice : K
  shares : K
  weight : K
  barsHeld : ℕ := 0

structure CooldownState where
  symbol : String
  remaining : ℕ

structure PendingOrder (K : Type) where
  symbol : String
  side : Side
  targetWeight : K
  signalValue : K
  reason : OrderReason

/-- What fills change. -/
structure Account (K : Type) where
  cash : K
  positions : List (OpenPosition K) := []
  cooldowns : List CooldownState := []
  trades : List (Trade K) := []
  entryCount : ℕ := 0
  exitSignalCount : ℕ := 0
  exitMaxHoldingCount : ℕ := 0

/-- The state of the loop over the bars. -/
structure SimulatorState (K : Type) where
  account : Account K
  pendingOrders : List (PendingOrder K) := []
  equityCurve : List K := []
  positionWeights : List (List (String × K)) := []
  regimeStates : List (List (String × RegimeState)) := []
  blockedCount : ℕ := 0
  skippedBars : ℕ := 0

/-- The arithmetic, the configuration and the initial capital of a run. -/
structure Setup (K : Type) where
  math : NanMath K
  config : MeanReversionConfig K
  initialCapital : K

variable {K : Type} [Zero K] [One K] [Add K] [Sub K] [Neg K] [Mul K] [Div K] [NatCast K] [BEq K]
  [LT K] [LE K] [DecidableLT K] [DecidableLE K]

/-- What a bar has bought and sold so far. -/
structure DayTotals (K : Type) where
  bought : K
  sold : K

/-- The worth of the account at the closes of a bar. -/
def portfolioValue (math : NanMath K) (prices : Prices K) (barIndex : ℕ) (account : Account K) : K :=
  account.cash + math.sum (account.positions.map fun p => p.shares * prices.closeAt p.symbol barIndex)

def commissionOf (config : MeanReversionConfig K) (gross : K) : K :=
  pyMax (gross * config.commissionRate) config.commissionMin

/-- The shares an order buys of a value, within the participation limit where the bar has a volume. -/
def sharesFor (config : MeanReversionConfig K) (volume : Option K) (orderValue fillPrice : K) : K :=
  match volume with
  | some volume => pyMin (volume * config.maxParticipation) (orderValue / fillPrice)
  | none => orderValue / fillPrice

/-- The trade of a buy and the position it opens. -/
def recordBuy (config : MeanReversionConfig K) (barIndex : ℕ) (order : PendingOrder K)
    (rawPrice fillPrice shares : K) (filled : Account K × DayTotals K) : Account K × DayTotals K :=
  let gross := fillPrice * shares
  let commission := commissionOf config gross
  let slippageCost := (fillPrice - rawPrice) * shares
  ({ filled.1 with
      cash := filled.1.cash - (gross + commission)
      positions := filled.1.positions ++
        [{ symbol := order.symbol, entryBar := barIndex, entryPrice := fillPrice, shares,
           weight := order.targetWeight }]
      trades := filled.1.trades ++
        [{ symbol := order.symbol, side := .buy, barIndex, fillPrice, rawPrice, shares,
           grossValue := gross, commission, stampTax := 0, slippageCost,
           totalCost := commission + slippageCost, signalValue := order.signalValue,
           reason := order.reason }]
      entryCount := filled.1.entryCount + 1 },
    { filled.2 with bought := filled.2.bought + gross })

/-- The branch `BUY`, given the worth of the portfolio. -/
def fillBuy (config : MeanReversionConfig K) (barIndex : ℕ) (worth : K) (volume : Option K)
    (order : PendingOrder K) (rawPrice : K) (filled : Account K × DayTotals K) :
    Account K × DayTotals K :=
  let fillPrice := rawPrice * (1 + basisPoints config.slippageBps)
  let orderValue := pyMin (worth * order.targetWeight) (worth * config.maxWeightPerPosition)
  if orderValue ≤ 0 then filled
  else
    let shares := sharesFor config volume orderValue fillPrice
    if shares ≤ 0 then filled
    else
      let gross := fillPrice * shares
      let commission := commissionOf config gross
      if filled.1.cash < gross + commission then
        let affordable := pyMax 0 (filled.1.cash - commission) / fillPrice
        if affordable ≤ 0 then filled
        else recordBuy config barIndex order rawPrice fillPrice affordable filled
      else recordBuy config barIndex order rawPrice fillPrice shares filled

/-- The branch `SELL`, which closes the first position of the symbol. -/
def fillSell (config : MeanReversionConfig K) (barIndex : ℕ) (order : PendingOrder K) (rawPrice : K)
    (filled : Account K × DayTotals K) : Account K × DayTotals K :=
  let fillPrice := rawPrice * (1 - basisPoints config.slippageBps)
  match filled.1.positions.find? fun p => p.symbol = order.symbol with
  | none => filled
  | some position =>
    let gross := fillPrice * position.shares
    let commission := commissionOf config gross
    let stampTax := gross * config.stampTaxRate
    let slippageCost := (rawPrice - fillPrice) * position.shares
    ({ filled.1 with
        cash := filled.1.cash + (gross - commission - stampTax)
        positions := filled.1.positions.eraseP fun p => p.symbol = order.symbol
        cooldowns := filled.1.cooldowns ++
          [{ symbol := order.symbol, remaining := config.cooldownDays }]
        trades := filled.1.trades ++
          [{ symbol := order.symbol, side := .sell, barIndex, fillPrice, rawPrice,
             shares := position.shares, grossValue := gross, commission, stampTax, slippageCost,
             totalCost := commission + stampTax + slippageCost, signalValue := order.signalValue,
             reason := order.reason }]
        exitSignalCount :=
          if order.reason = .maxHolding then filled.1.exitSignalCount
          else filled.1.exitSignalCount + 1
        exitMaxHoldingCount :=
          if order.reason = .maxHolding then filled.1.exitMaxHoldingCount + 1
          else filled.1.exitMaxHoldingCount },
      { filled.2 with sold := filled.2.sold + gross })

/-- The open an order can be filled at. -/
def fillable? (prices : Prices K) (barIndex : ℕ) (order : PendingOrder K) : Option K :=
  match (prices.opens order.symbol)[barIndex]? with
  | none => none
  | some rawPrice => if rawPrice ≤ 0 then none else some rawPrice

def fillOrder (setup : Setup K) (prices : Prices K) (barIndex : ℕ)
    (filled : Account K × DayTotals K) (order : PendingOrder K) : Account K × DayTotals K :=
  match fillable? prices barIndex order with
  | none => filled
  | some rawPrice =>
    match order.side with
    | .buy =>
      fillBuy setup.config barIndex (portfolioValue setup.math prices barIndex filled.1)
        (prices.volumes order.symbol)[barIndex]? order rawPrice filled
    | .sell => fillSell setup.config barIndex order rawPrice filled

/-- Step 1. -/
def fillPending (setup : Setup K) (prices : Prices K) (barIndex : ℕ) (account : Account K)
    (orders : List (PendingOrder K)) : Account K × DayTotals K :=
  orders.foldl (fillOrder setup prices barIndex) (account, { bought := 0, sold := 0 })

/-- Step 2. -/
def decrementCooldowns (cooldowns : List CooldownState) : List CooldownState :=
  (cooldowns.filter fun cd => 0 < cd.remaining).map fun cd =>
    { cd with remaining := cd.remaining - 1 }

/-- Why `check_entry` refuses an entry, with the values its text names. -/
inductive EntryBlock (K : Type)
  | cooling (symbol : String) (remaining : ℕ)
  | full (maxPositions : ℕ)
  | held (symbol : String) (averagingDown : Bool)
  | turnover (newTurnover limit : K)

/-- `check_entry`: the cooldowns, the number of positions, a position in the symbol, the turnover. -/
def checkEntry (config : MeanReversionConfig K) (symbol : String) (positions : List (OpenPosition K))
    (cooldowns : List CooldownState) (pendingBuyValue portfolioValue dailyTurnoverSoFar : K) :
    Option (EntryBlock K) :=
  match cooldowns.find? fun cd => cd.symbol = symbol ∧ 0 < cd.remaining with
  | some cd => some (.cooling symbol cd.remaining)
  | none =>
    if config.maxPositions ≤ positions.length then some (.full config.maxPositions)
    else if positions.any fun position => position.symbol = symbol then
      some (.held symbol config.noAveragingDown)
    else if 0 < portfolioValue then
      let newTurnover := dailyTurnoverSoFar + pendingBuyValue / portfolioValue
      if config.maxDailyTurnover < newTurnover then
        some (.turnover newTurnover config.maxDailyTurnover)
      else none
    else none

def checkMaxHolding (config : MeanReversionConfig K) (position : OpenPosition K) : Bool :=
  config.maxHoldingDays ≤ position.barsHeld

def exitOrder? (setup : Setup K) (closesAtBar : List (String × List K)) (position : OpenPosition K) :
    Option (PendingOrder K) :=
  match find position.symbol closesAtBar with
  | none => none
  | some prices =>
    if prices.length < 2 then none
    else
      let signalValue := computeSignalValue setup.math setup.config prices
      let order reason : PendingOrder K :=
        { symbol := position.symbol, side := .sell, targetWeight := 0, signalValue, reason }
      if (signalDirection setup.config signalValue).exit then some (order .exitSignal)
      else if checkMaxHolding setup.config position then some (order .maxHolding)
      else none

/-- What step 7 carries from signal to signal. -/
structure EntryScan (K : Type) where
  newOrders : List (PendingOrder K)
  heldSymbols : List String
  symbolsWithOrders : List String
  dailyTurnover : K
  blockedCount : ℕ

def scanSignal (setup : Setup K) (regime : List (String × RegimeResult K)) (account : Account K)
    (worth targetWeight : K) (scan : EntryScan K) (sig : SignalResult K) : EntryScan K :=
  if sig.symbol ∈ scan.heldSymbols then scan
  else if sig.symbol ∈ scan.symbolsWithOrders then scan
  else if !sig.shouldEnter then scan
  else
    match find sig.symbol regime with
    | none => { scan with blockedCount := scan.blockedCount + 1 }
    | some reg =>
      if !isEntryAllowed reg then { scan with blockedCount := scan.blockedCount + 1 }
      else if (checkEntry setup.config sig.symbol account.positions account.cooldowns
          (worth * targetWeight) worth scan.dailyTurnover).isSome then
        { scan with blockedCount := scan.blockedCount + 1 }
      else
        { newOrders := scan.newOrders ++
            [{ symbol := sig.symbol, side := .buy, targetWeight, signalValue := sig.value,
               reason := .entry }]
          heldSymbols := sig.symbol :: scan.heldSymbols
          symbolsWithOrders := sig.symbol :: scan.symbolsWithOrders
          dailyTurnover := scan.dailyTurnover + targetWeight
          blockedCount := scan.blockedCount }

/-- The close of a symbol at a bar or the last one before it, `_safe_close`. -/
def safeClose (prices : Prices K) (symbol : String) (barIndex : ℕ) : K :=
  match (prices.closes symbol)[barIndex]? with
  | some close => close
  | none => lastClose (prices.closes symbol)

/-- The worth of the account at the last known closes. -/
def equityOf (math : NanMath K) (prices : Prices K) (barIndex : ℕ) (account : Account K) : K :=
  account.cash + math.sum (account.positions.map fun p => p.shares * safeClose prices p.symbol barIndex)

/-- `_position_weights`. -/
def weightsOf (positions : List (OpenPosition K)) (equity : K) : List (String × K) :=
  if equity ≤ 0 then []
  else positions.foldl (fun weights p => assign p.symbol (p.shares * p.entryPrice / equity) weights) []

def closesAtBar (prices : Prices K) (barIndex : ℕ) : List (String × List K) :=
  (prices.symbols.filter fun symbol => barIndex < (prices.closes symbol).length).map fun symbol =>
    (symbol, (prices.closes symbol).take (barIndex + 1))

/-- Steps 3 to 8, given the account and the day's totals after the fills of the bar. -/
def closeBar (setup : Setup K) (prices : Prices K) (barIndex : ℕ) (filled : Account K × DayTotals K)
    (state : SimulatorState K) : SimulatorState K :=
  let cooled := { filled.1 with cooldowns := decrementCooldowns filled.1.cooldowns }
  let closes := closesAtBar prices barIndex
  if barIndex < setup.config.minDataDays then
    let equity := equityOf setup.math prices barIndex cooled
    { state with
      account := cooled
      pendingOrders := []
      equityCurve := state.equityCurve ++ [equity]
      positionWeights := state.positionWeights ++ [weightsOf cooled.positions equity]
      regimeStates := state.regimeStates ++ [[]]
      skippedBars := state.skippedBars + 1 }
  else if closes.isEmpty then
    { state with
      account := cooled
      pendingOrders := []
      equityCurve := state.equityCurve ++ [cooled.cash]
      positionWeights := state.positionWeights ++ [[]]
      regimeStates := state.regimeStates ++ [[]]
      skippedBars := state.skippedBars + 1 }
  else
    let account := { cooled with
      positions := cooled.positions.map fun p => { p with barsHeld := p.barsHeld + 1 } }
    let regime := classifyRegime setup.math setup.config closes
    let exits := account.positions.filterMap (exitOrder? setup closes)
    let worth := equityOf setup.math prices barIndex account
    let targetWeight := 1 / (setup.config.maxPositions : K)
    let scan := (generateSignals setup.math setup.config closes).foldl
      (scanSignal setup regime account worth targetWeight)
      { newOrders := exits
        heldSymbols := account.positions.map (·.symbol)
        symbolsWithOrders := exits.map (·.symbol)
        dailyTurnover :=
          if 0 < worth then (filled.2.bought + filled.2.sold) / worth else 0
        blockedCount := state.blockedCount }
    let equity := equityOf setup.math prices barIndex account
    { account
      pendingOrders := scan.newOrders
      equityCurve := state.equityCurve ++ [equity]
      positionWeights := state.positionWeights ++ [weightsOf account.positions equity]
      regimeStates := state.regimeStates ++
        [regime.map fun entry => (entry.1, entry.2.state)]
      blockedCount := scan.blockedCount
      skippedBars := state.skippedBars }

/-- One bar. -/
def barStep (setup : Setup K) (prices : Prices K) (barIndex : ℕ) (state : SimulatorState K) :
    SimulatorState K :=
  closeBar setup prices barIndex
    (fillPending setup prices barIndex state.account state.pendingOrders) state

def stateAt (setup : Setup K) (prices : Prices K) (bars : ℕ) : SimulatorState K :=
  afterBars (barStep setup prices) { account := { cash := setup.initialCapital } } bars

/-- The parts of `MeanReversionResult` the loop produces. -/
structure MeanReversionResult (K : Type) where
  equityCurve : List K
  trades : List (Trade K)
  positionWeights : List (List (String × K))
  regimeStates : List (List (String × RegimeState))
  barsProcessed : ℕ
  skippedBars : ℕ
  entryCount : ℕ
  exitSignalCount : ℕ
  exitMaxHoldingCount : ℕ
  blockedCount : ℕ

/-- `n_bars`. -/
def barCount (prices : Prices K) : ℕ :=
  (prices.symbols.map fun symbol => (prices.closes symbol).length).foldr max 0

/-- What the loop has produced after so many bars. -/
def resultOf (setup : Setup K) (prices : Prices K) (bars : ℕ) : MeanReversionResult K :=
  let final := stateAt setup prices bars
  { equityCurve := final.equityCurve
    trades := final.account.trades
    positionWeights := final.positionWeights
    regimeStates := final.regimeStates
    barsProcessed := bars - final.skippedBars
    skippedBars := final.skippedBars
    entryCount := final.account.entryCount
    exitSignalCount := final.account.exitSignalCount
    exitMaxHoldingCount := final.account.exitMaxHoldingCount
    blockedCount := final.blockedCount }

/-- `MeanReversionSimulator.run`; without symbols it raises. -/
def run (setup : Setup K) (prices : Prices K) : Option (MeanReversionResult K) :=
  if prices.symbols = [] then none else some (resultOf setup prices (barCount prices))

end FinDashboard.MeanReversion
