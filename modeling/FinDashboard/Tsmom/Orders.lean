import FinDashboard.Ledger.Dictionary
import FinDashboard.Shared.Arithmetic
import FinDashboard.Shared.PriceSeries

/-!
# Signals, positions and fills

A symbol is bought or sold by the signs of its past returns and weighted by the inverse of its
volatility. A signal of a bar reads the closes up to that bar. An order of the day before is filled at the
slipped open of the bar; a fill changes positions and trades, never the cash.
-/

namespace FinDashboard.Tsmom

section Signals

inductive TsmomSignalFamily
  | singleLookback | multipleLookback
deriving DecidableEq

/-- `FuturesTsmomConfig`, as far as a run reads it, together with the participation limit. -/
structure FuturesTsmomConfig (K : Type) where
  family : TsmomSignalFamily := .multipleLookback
  lookbacks : List ℕ := [21, 63, 126, 252]
  volTarget : K
  volLookback : ℕ := 63
  volFloor : K
  maxLeverage : K
  maxMarginUsage : K
  maxSingleMarketWeight : K
  maxSingleContractWeight : K
  slippageBps : K
  maxParticipation : K
  lookbacks_ne_nil : lookbacks ≠ [] := by decide

def FuturesTsmomConfig.minDataDays {K : Type} (config : FuturesTsmomConfig K) : ℕ :=
  config.lookbacks.foldr max 0 + config.volLookback

/-- The texts that explain a signal, with the numbers they print. -/
inductive SignalReason (K : Type)
  | long (score : K)
  | short (score : K)
  | flat
  | vol (value : Option K)
  | rawWeight (value : K)
  | insufficientData
deriving DecidableEq

/-- `TsmomSignal`; an infinite volatility is `none`. -/
structure TsmomSignal (K : Type) where
  symbol : String
  direction : ℤ
  targetWeight : K
  compositeScore : K
  realizedVol : Option K
  reasons : List (SignalReason K)
deriving DecidableEq

variable {K : Type} [Zero K] [One K] [Add K] [Sub K] [Neg K] [Mul K] [Div K] [NatCast K] [LT K]
  [DecidableLT K]

def dailyReturns : List K → List K
  | [] => []
  | [_] => []
  | prev :: px :: rest => (if 0 < prev then px / prev - 1 else 0) :: dailyReturns (px :: rest)

/-- `realized_volatility`; `none` is infinite. -/
def realizedVolatility (math : FloatMath K) (closes : List K) (lookback : ℕ) : Option K :=
  if closes.length < lookback + 1 then none
  else
    let rets := dailyReturns (lastOf (lookback + 1) closes)
    if rets.length < 2 then none
    else
      let mean := math.sum rets / (rets.length : K)
      let var := math.sum (rets.map fun r => (r - mean) * (r - mean)) / ((rets.length - 1 : ℕ) : K)
      some (math.sqrt var * math.sqrt ((252 : ℕ) : K))

def pastReturn (closes : List K) (lookback : ℕ) : K :=
  if closes.length < lookback + 1 then 0
  else
    match closes[closes.length - (lookback + 1)]?, closes.getLast? with
    | some old, some new => if 0 < old then new / old - 1 else 0
    | _, _ => 0

/-- `math.copysign(1.0, value)` where the value is not nearly zero, and zero otherwise. -/
def signOf (value : K) : K :=
  if (1 : K) / ((10000000000 : ℕ) : K) < pyAbs value then (if value < 0 then -1 else 1) else 0

def computeCompositeScore (math : FloatMath K) (closes : List K) (config : FuturesTsmomConfig K) : K :=
  match config.family with
  | .singleLookback => signOf (pastReturn closes (config.lookbacks.head config.lookbacks_ne_nil))
  | .multipleLookback =>
    math.sum (config.lookbacks.map fun lookback => signOf (pastReturn closes lookback)) /
      (config.lookbacks.length : K)

/-- `generate_tsmom_signal`; a volatility target over an infinite volatility is zero. -/
def generateTsmomSignal (math : FloatMath K) (config : FuturesTsmomConfig K) (symbol : String)
    (closes : List K) : TsmomSignal K :=
  let score := computeCompositeScore math closes config
  let direction : ℤ :=
    if (1 : K) / ((10000000000 : ℕ) : K) < pyAbs score then (if score < 0 then -1 else 1) else 0
  let vol := realizedVolatility math closes config.volLookback
  let rawWeight :=
    match vol with
    | none => 0
    | some value => config.volTarget / pyMax value config.volFloor
  { symbol
    direction
    targetWeight := pyAbs score * rawWeight
    compositeScore := score
    realizedVol := vol
    reasons :=
      [ if 0 < direction then .long score else if direction < 0 then .short score else .flat,
        .vol vol, .rawWeight rawWeight ] }

/-- The signal of one symbol in `generate_signals`. -/
def signalOf (math : FloatMath K) (config : FuturesTsmomConfig K) (symbol : String)
    (closes : List K) : TsmomSignal K :=
  if closes.length < config.minDataDays then
    { symbol
      direction := 0
      targetWeight := 0
      compositeScore := 0
      realizedVol := none
      reasons := [.insufficientData] }
  else generateTsmomSignal math config symbol closes

/-- `generate_signals`, a dictionary in the order of the histories. -/
def generateSignals (math : FloatMath K) (config : FuturesTsmomConfig K)
    (closesHistory : List (String × List K)) : List (String × TsmomSignal K) :=
  closesHistory.map fun entry => (entry.1, signalOf math config entry.1 entry.2)

end Signals

/-!
## Contracts, positions and fills

An order of the day before is filled at the slipped open of the bar. Long and short positions of a symbol
are kept apart; a fill changes positions and trades, never the cash.
-/

section Orders

open Ledger

inductive FuturesMarket
  | equityIndex | treasuryBond
deriving DecidableEq

/-- `ContractSpec`, as far as a run reads it, with the bounds its constructor checks. -/
structure ContractSpec (K : Type) [Zero K] [One K] [LT K] [LE K] where
  market : FuturesMarket
  multiplier : K
  marginRate : K
  commissionRate : K
  commissionPerLot : K
  lotSize : ℤ := 1
  multiplier_pos : 0 < multiplier
  marginRate_pos : 0 < marginRate
  marginRate_le_one : marginRate ≤ 1
  commissionRate_nonneg : 0 ≤ commissionRate
  commissionPerLot_nonneg : 0 ≤ commissionPerLot
  lotSize_pos : 1 ≤ lotSize := by decide

inductive TradeAction
  | openLong | openShort | closeLong | closeShort | roll
deriving DecidableEq

/-- Why an order was made; the first two print the score. -/
inductive OrderReason (K : Type)
  | signalLong (score : K)
  | signalShort (score : K)
  | rebalance
  | reduceLong
  | reduceShort
deriving DecidableEq

structure FuturesTrade (K : Type) where
  symbol : String
  action : TradeAction
  barIndex : ℕ
  contractId : String
  lots : ℤ
  fillPrice : K
  rawPrice : K
  notional : K
  commission : K
  slippageCost : K
  totalCost : K
  reason : OrderReason K
deriving DecidableEq

/-- `_Position`; symbol and direction are those of the dictionary it stands in. -/
structure Position (K : Type) where
  lots : ℤ
  entryPrice : K
  contractId : String := ""
deriving DecidableEq

structure PendingOrder (K : Type) where
  symbol : String
  action : TradeAction
  targetLots : ℤ
  contractId : String
  reason : OrderReason K
deriving DecidableEq

/-- The cash, the positions and the trades of a run. -/
structure Book (K : Type) where
  cash : K
  longPositions : String → Position K
  shortPositions : String → Position K
  trades : List (FuturesTrade K) := []

namespace Book

variable {K : Type} (book : Book K)

def side (isLong : Bool) : String → Position K :=
  if isLong then book.longPositions else book.shortPositions

/-- A trade is recorded and the position it leaves stands on its side. -/
def fill (isLong : Bool) (symbol : String) (position : Position K) (trade : FuturesTrade K) : Book K :=
  if isLong then
    { book with
      longPositions := Function.update book.longPositions symbol position
      trades := book.trades ++ [trade] }
  else
    { book with
      shortPositions := Function.update book.shortPositions symbol position
      trades := book.trades ++ [trade] }

section

variable {isLong : Bool} {symbol : String} {position : Position K} {trade : FuturesTrade K}

@[simp] theorem fill_cash : (book.fill isLong symbol position trade).cash = book.cash := by
  cases isLong <;> rfl

@[simp] theorem fill_trades :
    (book.fill isLong symbol position trade).trades = book.trades ++ [trade] := by
  cases isLong <;> rfl

theorem side_fill (other : Bool) (name : String) :
    (book.fill isLong symbol position trade).side other name =
      if other = isLong ∧ name = symbol then position else book.side other name := by
  cases isLong <;> cases other <;> simp [fill, side, Function.update_apply]

end

end Book

variable {K : Type} [Zero K] [One K] [Add K] [Sub K] [Neg K] [Mul K] [Div K] [NatCast K] [IntCast K]
  [LT K] [LE K] [DecidableLT K] [DecidableLE K]

namespace ContractSpec

variable (spec : ContractSpec K)

def notionalValue (price : K) (lots : ℤ) : K := price * spec.multiplier * (lots : K)

def marginRequired (price : K) (lots : ℤ) : K := spec.notionalValue price lots * spec.marginRate

def commission (price : K) (lots : ℤ) : K :=
  pyMax (spec.notionalValue price lots * spec.commissionRate) (spec.commissionPerLot * (lots : K))

end ContractSpec

def applySlippage (price : K) (isBuy : Bool) (bps : K) : K :=
  if bps ≤ 0 then price
  else if isBuy then price * (1 + basisPoints bps) else price * (1 - basisPoints bps)

def tradeOf (spec : ContractSpec K) (order : PendingOrder K) (barIndex : ℕ) (lots : ℤ)
    (fillPrice openPrice : K) : FuturesTrade K :=
  let commission := spec.commission fillPrice lots
  let slippageCost := pyAbs (fillPrice - openPrice) * spec.multiplier * (lots : K)
  { symbol := order.symbol
    action := order.action
    barIndex
    contractId := order.contractId
    lots
    fillPrice
    rawPrice := openPrice
    notional := spec.notionalValue fillPrice lots
    commission
    slippageCost
    totalCost := commission + slippageCost
    reason := order.reason }

/-- The lots an opening order is filled for: what the cash affords at the open where the margin at the
fill price exceeds it. -/
def openLots (math : FloatMath K) (spec : ContractSpec K) (cash openPrice fillPrice : K)
    (targetLots : ℤ) : ℤ :=
  if cash < spec.marginRequired fillPrice targetLots then
    max (math.truncate (cash / (spec.marginRate * openPrice * spec.multiplier)) * spec.lotSize) 0
  else targetLots

namespace Position

variable (position : Position K)

def isOpen : Bool := 0 < position.lots

def increase (lots : ℤ) (fillPrice : K) (contractId : String) : Position K :=
  if 0 < position.lots then
    { lots := position.lots + lots
      entryPrice := ((position.lots : K) * position.entryPrice + (lots : K) * fillPrice) /
        ((position.lots + lots : ℤ) : K)
      contractId }
  else { lots, entryPrice := fillPrice, contractId }

/-- Fewer lots; a closed position has no entry price. -/
def decrease (lots : ℤ) : Position K :=
  if position.lots - lots ≤ 0 then { position with lots := 0, entryPrice := 0 }
  else { position with lots := position.lots - lots }

def roll (price : K) (contractId : String) : Position K :=
  { position with entryPrice := price, contractId }

end Position

section Fills

variable (math : FloatMath K) (config : FuturesTsmomConfig K) (spec : ContractSpec K) (barIndex : ℕ)
  (openPrice : K) (order : PendingOrder K) (book : Book K)

/-- The branches `OPEN_LONG` and `OPEN_SHORT`, which differ in the side they trade on. -/
def fillOpen (isLong : Bool) : Book K :=
  if order.targetLots ≤ 0 then book
  else
    let fillPrice := applySlippage openPrice isLong config.slippageBps
    let lots := openLots math spec book.cash openPrice fillPrice order.targetLots
    if lots ≤ 0 then book
    else
      book.fill isLong order.symbol
        ((book.side isLong order.symbol).increase lots fillPrice order.contractId)
        (tradeOf spec order barIndex lots fillPrice openPrice)

/-- The branches `CLOSE_LONG` and `CLOSE_SHORT`. -/
def fillClose (isLong : Bool) : Book K :=
  let position := book.side isLong order.symbol
  let lots := min order.targetLots position.lots
  if lots ≤ 0 then book
  else
    book.fill isLong order.symbol (position.decrease lots)
      (tradeOf spec order barIndex lots (applySlippage openPrice (!isLong) config.slippageBps) openPrice)

/-- One side of the branch `ROLL`: a long position is rolled at the price of a sale. -/
def fillRoll (isLong : Bool) : Book K :=
  let position := book.side isLong order.symbol
  if position.isOpen then
    let newPrice := applySlippage openPrice (!isLong) config.slippageBps
    book.fill isLong order.symbol (position.roll newPrice order.contractId)
      (tradeOf spec order barIndex position.lots newPrice openPrice)
  else book

/-- The branch an order takes once it can be filled. -/
def fillAt : Book K :=
  match order.action with
  | .openLong => fillOpen math config spec barIndex openPrice order book true
  | .openShort => fillOpen math config spec barIndex openPrice order book false
  | .closeLong => fillClose config spec barIndex openPrice order book true
  | .closeShort => fillClose config spec barIndex openPrice order book false
  | .roll =>
    fillRoll config spec barIndex openPrice order
      (fillRoll config spec barIndex openPrice order book true) false

end Fills

/-- The specification and the open an order can be filled with at a bar: there has to be a positive open
and a positive volume. -/
def fillable? (specs : List (String × ContractSpec K)) (prices : Prices K) (barIndex : ℕ)
    (order : PendingOrder K) : Option (ContractSpec K × K) :=
  match find order.symbol specs, (prices.opens order.symbol)[barIndex]? with
  | some spec, some openPrice =>
    if openPrice ≤ 0 then none
    else if (prices.volumes order.symbol)[barIndex]?.getD 0 ≤ 0 then none
    else some (spec, openPrice)
  | _, _ => none

def fillOrder (math : FloatMath K) (config : FuturesTsmomConfig K)
    (specs : List (String × ContractSpec K)) (prices : Prices K) (barIndex : ℕ) (book : Book K)
    (order : PendingOrder K) : Book K :=
  match fillable? specs prices barIndex order with
  | some (spec, openPrice) => fillAt math config spec barIndex openPrice order book
  | none => book

end Orders

end FinDashboard.Tsmom
