import FinDashboard.Runs.Bars
import FinDashboard.Tsmom.Orders
import Mathlib.Algebra.Field.Rat
import Mathlib.Algebra.Order.Ring.Rat

/-!
# The trend backtest

Each bar fills the orders of the day before, settles the positions at the close, records the account, and
turns the signals of the close into orders for the next bar.
-/

namespace FinDashboard.Tsmom

open Ledger Runs List

structure DailyRecord (K : Type) where
  barIndex : ℕ
  equity : K
  cash : K
  longNotional : K
  shortNotional : K
  marginUsed : K
  grossExposure : K
  longPositions : List (String × ℤ)
  shortPositions : List (String × ℤ)
deriving DecidableEq

/-- The state of the loop over the bars. -/
structure TsmomState (K : Type) where
  book : Book K
  pendingOrders : List (PendingOrder K) := []
  allSignals : List (List (String × TsmomSignal K)) := []
  dailyRecords : List (DailyRecord K) := []

/-- The arguments of `run_backtest` other than the prices. -/
structure Setup (K : Type) [Zero K] [One K] [LT K] [LE K] where
  math : FloatMath K
  specs : List (String × ContractSpec K)
  config : FuturesTsmomConfig K
  initialCapital : K
  /-- The contract ids of the active series, empty without one. -/
  contractIds : String → List String := fun _ => []

variable {K : Type} [Zero K] [One K] [Add K] [Sub K] [Neg K] [Mul K] [Div K] [NatCast K] [IntCast K]
  [LT K] [LE K] [DecidableLT K] [DecidableLE K]

/-- What the positions of a symbol gain on a day, from close to close. -/
def settleSymbol (specs : List (String × ContractSpec K)) (prices : Prices K) (barIndex : ℕ)
    (book : Book K) (symbol : String) : Book K :=
  match find symbol specs with
  | none => book
  | some spec =>
    let px := prices.closeAt symbol barIndex
    if px ≤ 0 then book
    else
      let move := px - prices.prevClose symbol barIndex
      let long := book.longPositions symbol
      let short := book.shortPositions symbol
      let afterLong :=
        if long.isOpen then book.cash + move * spec.multiplier * (long.lots : K) else book.cash
      { book with
        cash :=
          if short.isOpen then afterLong + -(move * spec.multiplier * (short.lots : K))
          else afterLong }

/-- Step 2. -/
def settle (specs : List (String × ContractSpec K)) (prices : Prices K) (barIndex : ℕ)
    (book : Book K) : Book K :=
  prices.symbols.foldl (settleSymbol specs prices barIndex) book

/-- The long notional, the short notional and the margin of one symbol at its close. -/
def exposureOf (specs : List (String × ContractSpec K)) (prices : Prices K) (barIndex : ℕ)
    (book : Book K) (symbol : String) : Option (K × K × K) :=
  match find symbol specs with
  | none => none
  | some spec =>
    let px := prices.closeAt symbol barIndex
    if px ≤ 0 then none
    else
      let long := ((book.longPositions symbol).lots : K) * px * spec.multiplier
      let short := ((book.shortPositions symbol).lots : K) * px * spec.multiplier
      some (long, short, (long + short) * spec.marginRate)

def openLotsOf (symbols : List String) (positions : String → Position K) : List (String × ℤ) :=
  (symbols.map fun symbol => (symbol, (positions symbol).lots)).filter fun entry => 0 < entry.2

/-- Step 3. -/
def recordOf (specs : List (String × ContractSpec K)) (prices : Prices K) (barIndex : ℕ)
    (book : Book K) : DailyRecord K :=
  let exposures := prices.symbols.filterMap (exposureOf specs prices barIndex book)
  let longNotional := exposures.foldl (fun total exposure => total + exposure.1) 0
  let shortNotional := exposures.foldl (fun total exposure => total + exposure.2.1) 0
  { barIndex
    equity := book.cash
    cash := book.cash
    longNotional
    shortNotional
    marginUsed := exposures.foldl (fun total exposure => total + exposure.2.2) 0
    grossExposure := longNotional + shortNotional
    longPositions := openLotsOf prices.symbols book.longPositions
    shortPositions := openLotsOf prices.symbols book.shortPositions }

/-- Long and short lots by symbol. -/
abbrev Desired : Type := List (String × ℤ × ℤ)

def lotsFromWeight (math : FloatMath K) (weight equity : K) (spec : ContractSpec K) (price : K) : ℤ :=
  if weight ≤ 0 ∨ equity ≤ 0 ∨ price ≤ 0 then 0
  else max (math.truncate (weight * equity / (price * spec.multiplier))) 0 * spec.lotSize

def desiredOf (math : FloatMath K) (specs : List (String × ContractSpec K))
    (signals : List (String × TsmomSignal K)) (equity : K) (symbol : String) (px : K) : ℤ × ℤ :=
  match find symbol signals, find symbol specs with
  | some sig, some spec =>
    if px ≤ 0 then (0, 0)
    else if 0 < sig.direction then (lotsFromWeight math sig.targetWeight equity spec px, 0)
    else if sig.direction < 0 then (0, lotsFromWeight math sig.targetWeight equity spec px)
    else (0, 0)
  | _, _ => (0, 0)

/-- Both sides are cut by a factor. -/
def scaleLots (math : FloatMath K) (scale : K) (lots : ℤ × ℤ) : ℤ × ℤ :=
  (math.truncate ((lots.1 : K) * scale), math.truncate ((lots.2 : K) * scale))

section Constraints

variable (setup : Setup K) (px : String → K) (equity : K)

/-- The limit of a single contract. -/
def capContract (symbol : String) (lots : ℤ × ℤ) : ℤ × ℤ :=
  match find symbol setup.specs with
  | none => lots
  | some spec =>
    if px symbol ≤ 0 then lots
    else
      let maxLots := setup.math.truncate (setup.config.maxSingleContractWeight * equity /
        (px symbol * spec.multiplier))
      (min lots.1 maxLots, min lots.2 maxLots)

/-- The notional of the entries that have a specification, weighted. -/
def totalOf (weight : ContractSpec K → K → K) (desired : Desired) : K :=
  desired.foldl (fun total entry =>
    match find entry.1 setup.specs with
    | none => total
    | some spec =>
      total + weight spec (((entry.2.1 + entry.2.2 : ℤ) : K) * px entry.1 * spec.multiplier)) 0

def marketNotional (market : FuturesMarket) (desired : Desired) : K :=
  desired.foldl (fun total entry =>
    match find entry.1 setup.specs with
    | none => total
    | some spec =>
      if spec.market = market then
        total + ((entry.2.1 + entry.2.2 : ℤ) : K) * px entry.1 * spec.multiplier
      else total) 0

def scaleTo (limit total : K) : K := if 0 < total then limit / total else 0

/-- The limit of a market; the totals are those before any market is cut. -/
def capMarket (desired : Desired) (symbol : String) (lots : ℤ × ℤ) : ℤ × ℤ :=
  match find symbol setup.specs with
  | none => lots
  | some spec =>
    let maxMarket := setup.config.maxSingleMarketWeight * equity
    let total := marketNotional setup px spec.market desired
    if maxMarket < total then scaleLots setup.math (scaleTo maxMarket total) lots else lots

def capTotal (limit total : K) (desired : Desired) : Desired :=
  if limit < total then
    desired.map fun entry => (entry.1, scaleLots setup.math (scaleTo limit total) entry.2)
  else desired

/-- `_check_risk_constraints`: contract, market, leverage and margin. -/
def checkRiskConstraints (desired : Desired) : Desired :=
  let contracts := desired.map fun entry => (entry.1, capContract setup px equity entry.1 entry.2)
  let markets := contracts.map fun entry =>
    (entry.1, capMarket setup px equity contracts entry.1 entry.2)
  let leveraged := capTotal setup (setup.config.maxLeverage * equity)
    (totalOf setup px (fun _ notional => notional) markets) markets
  capTotal setup (setup.config.maxMarginUsage * equity)
    (totalOf setup px (fun spec notional => notional * spec.marginRate) leveraged) leveraged

end Constraints

def sideOrders (setup : Setup K) (signals : List (String × TsmomSignal K)) (barIndex : ℕ)
    (symbol : String) (isLong : Bool) (position : Position K) (target : ℤ) : List (PendingOrder K) :=
  if position.lots < target then
    [{ symbol
       action := if isLong then .openLong else .openShort
       targetLots := target - position.lots
       contractId := (setup.contractIds symbol)[barIndex]?.getD symbol
       reason :=
         match find symbol signals with
         | some sig => if isLong then .signalLong sig.compositeScore else .signalShort sig.compositeScore
         | none => .rebalance }]
  else if target < position.lots then
    [{ symbol
       action := if isLong then .closeLong else .closeShort
       targetLots := position.lots - target
       contractId := if position.contractId = "" then symbol else position.contractId
       reason := if isLong then .reduceLong else .reduceShort }]
  else []

def symbolOrders (setup : Setup K) (signals : List (String × TsmomSignal K)) (barIndex : ℕ)
    (book : Book K) (desired : Desired) (symbol : String) : List (PendingOrder K) :=
  match find symbol setup.specs with
  | none => []
  | some _ =>
    let target := (find symbol desired).getD (0, 0)
    sideOrders setup signals barIndex symbol true (book.longPositions symbol) target.1 ++
      sideOrders setup signals barIndex symbol false (book.shortPositions symbol) target.2

/-- Step 7. -/
def ordersOf (setup : Setup K) (signals : List (String × TsmomSignal K)) (barIndex : ℕ)
    (symbols : List String) (book : Book K) (desired : Desired) : List (PendingOrder K) :=
  symbols.flatMap (symbolOrders setup signals barIndex book desired)

/-- Steps 5 to 7. -/
def nextOrders (setup : Setup K) (prices : Prices K) (barIndex : ℕ) (book : Book K)
    (signals : List (String × TsmomSignal K)) : List (PendingOrder K) :=
  let px symbol := prices.closeAt symbol barIndex
  let desired := prices.symbols.map fun symbol =>
    (symbol, desiredOf setup.math setup.specs signals book.cash symbol (px symbol))
  ordersOf setup signals barIndex prices.symbols book
    (checkRiskConstraints setup px book.cash desired)

/-- Step 1. -/
def fillPending (setup : Setup K) (prices : Prices K) (barIndex : ℕ) (state : TsmomState K) : Book K :=
  state.pendingOrders.foldl (fillOrder setup.math setup.config setup.specs prices barIndex) state.book

def closesHistory (prices : Prices K) (barIndex : ℕ) : List (String × List K) :=
  prices.symbols.map fun symbol => (symbol, (prices.closes symbol).take (barIndex + 1))

/-- Steps 2 to 7, given the book after the fills of the bar. -/
def closeBar (setup : Setup K) (prices : Prices K) (barIndex : ℕ) (filled : Book K)
    (state : TsmomState K) : TsmomState K :=
  let book := settle setup.specs prices barIndex filled
  let dailyRecords := state.dailyRecords ++ [recordOf setup.specs prices barIndex book]
  if barIndex < setup.config.minDataDays then
    { book, pendingOrders := [], allSignals := state.allSignals ++ [[]], dailyRecords }
  else
    let signals := generateSignals setup.math setup.config (closesHistory prices barIndex)
    { book
      pendingOrders :=
        if book.cash ≤ 0 then [] else nextOrders setup prices barIndex book signals
      allSignals := state.allSignals ++ [signals]
      dailyRecords }

/-- One bar. -/
def barStep (setup : Setup K) (prices : Prices K) (barIndex : ℕ) (state : TsmomState K) : TsmomState K :=
  closeBar setup prices barIndex (fillPending setup prices barIndex state) state

def initialState (setup : Setup K) : TsmomState K :=
  { book :=
      { cash := setup.initialCapital
        longPositions := fun _ => { lots := 0, entryPrice := 0 }
        shortPositions := fun _ => { lots := 0, entryPrice := 0 } } }

def stateAt (setup : Setup K) (prices : Prices K) (bars : ℕ) : TsmomState K :=
  afterBars (barStep setup prices) (initialState setup) bars

def barCount (prices : Prices K) : ℕ :=
  (prices.symbols.map fun symbol => (prices.closes symbol).length).foldr max 0

/-- What `run_backtest` raises. -/
inductive RunError
  | emptyCloses
  | lengthMismatch (symbol : String) (length barCount : ℕ)
deriving DecidableEq

/-- The parts of `TsmomResult` the loop produces; `equity_curve` is read off the records. -/
structure TsmomResult (K : Type) where
  equityCurve : List K
  dailyRecords : List (DailyRecord K)
  trades : List (FuturesTrade K)
  allSignals : List (List (String × TsmomSignal K))
  barCount : ℕ

/-- What the loop has produced after so many bars. -/
def resultOf (setup : Setup K) (prices : Prices K) (bars : ℕ) : TsmomResult K where
  equityCurve := (stateAt setup prices bars).dailyRecords.map (·.equity)
  dailyRecords := (stateAt setup prices bars).dailyRecords
  trades := (stateAt setup prices bars).book.trades
  allSignals := (stateAt setup prices bars).allSignals
  barCount := bars

def runBacktest (setup : Setup K) (prices : Prices K) : Except RunError (TsmomResult K) :=
  if prices.symbols = [] then .error .emptyCloses
  else
    let bars := barCount prices
    match prices.symbols.find? fun symbol => (prices.closes symbol).length ≠ bars with
    | some symbol => .error (.lengthMismatch symbol (prices.closes symbol).length bars)
    | none => .ok (resultOf setup prices bars)

/-- A finished run has gone through every bar, and every symbol has a close at each. -/
theorem runBacktest_eq_ok {setup : Setup K} {prices : Prices K} {result : TsmomResult K} :
    runBacktest setup prices = .ok result ↔ prices.symbols ≠ [] ∧
      (∀ symbol ∈ prices.symbols, (prices.closes symbol).length = barCount prices) ∧
      result = resultOf setup prices (barCount prices) := by
  unfold runBacktest
  by_cases empty : prices.symbols = []
  · rw [if_pos empty]
    constructor
    · nofun
    · exact fun ⟨nonempty, _, _⟩ => absurd empty nonempty
  · rw [if_neg empty]
    dsimp only
    cases uneven : prices.symbols.find? fun symbol =>
        (prices.closes symbol).length ≠ barCount prices with
    | some symbol =>
      have member := mem_of_find?_eq_some uneven
      have differs := find?_some uneven
      constructor
      · nofun
      · rintro ⟨-, even, -⟩
        simp [even symbol member] at differs
    | none =>
      have even := find?_eq_none.mp uneven
      constructor
      · intro returned
        cases returned
        refine ⟨empty, fun symbol member => ?_, rfl⟩
        simpa using even symbol member
      · rintro ⟨-, -, rfl⟩
        rfl

section SmallMarket

/-- Exact arithmetic, as far as a run of the small market uses it: its returns never vary, so the only
roots are those of zero and of the days of a year, which the zero multiplies. -/
def smallMath : FloatMath ℚ where
  sqrt x := x
  truncate x := x.num.tdiv x.den
  sum := sum

def smallSpec : ContractSpec ℚ where
  market := .equityIndex
  multiplier := 1
  marginRate := 1 / 10
  commissionRate := 0
  commissionPerLot := 1
  multiplier_pos := by decide
  marginRate_pos := by decide +kernel
  marginRate_le_one := by decide +kernel
  commissionRate_nonneg := le_refl 0
  commissionPerLot_nonneg := by decide

def smallSetup : Setup ℚ where
  math := smallMath
  specs := [("IF", smallSpec)]
  config :=
    { lookbacks := [1]
      volTarget := 1 / 10
      volLookback := 2
      volFloor := 1 / 10
      maxLeverage := 1
      maxMarginUsage := 1 / 2
      maxSingleMarketWeight := 1
      maxSingleContractWeight := 1
      slippageBps := 0
      maxParticipation := 1 / 10 }
  initialCapital := 1000

def smallPrices (closes opens : List ℚ) (volume : ℚ) : Prices ℚ where
  symbols := ["IF"]
  closes _ := closes
  opens _ := opens
  volumes _ := replicate 6 volume
  nodup := nodup_singleton "IF"

/-- Prices that rise, with one open away from the close before. -/
def risingPrices : Prices ℚ := smallPrices [1, 2, 4, 8, 16, 32] [1, 2, 4, 8, 10, 16] 200

/-- A run over the small market goes through its six days. -/
theorem smallRun (closes opens : List ℚ) (volume : ℚ) (six : closes.length = 6) :
    runBacktest smallSetup (smallPrices closes opens volume) =
      .ok (resultOf smallSetup (smallPrices closes opens volume) 6) := by
  have bars : barCount (smallPrices closes opens volume) = 6 := by
    simp [barCount, smallPrices, six]
  refine runBacktest_eq_ok.mpr ⟨cons_ne_nil _ _, ?_, by rw [bars]⟩
  intro symbol _
  rw [bars]
  exact six

end SmallMarket

end FinDashboard.Tsmom
