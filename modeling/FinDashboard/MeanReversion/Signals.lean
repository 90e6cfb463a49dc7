import FinDashboard.Shared.Arithmetic
import FinDashboard.Shared.PriceSeries

/-!
# Mean-reversion signals

An oversold symbol is entered where the market is calm and not falling. A signal and a regime of a bar
read the closes up to that bar.
-/

namespace FinDashboard.MeanReversion

inductive SignalFamily
  | zScore | bollinger | rsi | reversal
deriving DecidableEq

inductive RegimeMethod
  | sma | none
deriving DecidableEq

/-- `MeanReversionConfig`, with the bounds its constructor checks on the windows. -/
structure MeanReversionConfig (K : Type) where
  family : SignalFamily := .zScore
  lookback : ℕ := 20
  entryThreshold : K
  exitThreshold : K
  bollingerNumStd : K
  rsiPeriod : ℕ := 14
  regimeMethod : RegimeMethod := .sma
  regimeSmaWindow : ℕ := 200
  regimeVolLookback : ℕ := 60
  regimeVolMaxRatio : K
  maxPositions : ℕ := 5
  maxWeightPerPosition : K
  maxHoldingDays : ℕ := 10
  cooldownDays : ℕ := 5
  noAveragingDown : Bool := true
  maxDailyTurnover : K
  maxParticipation : K
  commissionRate : K
  commissionMin : K
  stampTaxRate : K
  slippageBps : K
  two_le_lookback : 2 ≤ lookback := by decide
  two_le_rsiPeriod : 2 ≤ rsiPeriod := by decide
  five_le_regimeSmaWindow : 5 ≤ regimeSmaWindow := by decide
  five_le_regimeVolLookback : 5 ≤ regimeVolLookback := by decide
  maxPositions_pos : 1 ≤ maxPositions := by decide
  maxHoldingDays_pos : 1 ≤ maxHoldingDays := by decide

def MeanReversionConfig.minDataDays {K : Type} (config : MeanReversionConfig K) : ℕ :=
  let signalDays :=
    if config.family = .rsi then max config.lookback config.rsiPeriod else config.lookback
  let regimeDays := if config.regimeMethod = .sma then config.regimeSmaWindow else 0
  max (max signalDays regimeDays) config.regimeVolLookback + 1

/-- The float arithmetic with its value that is not a number. -/
structure NanMath (K : Type) extends FloatMath K where
  nan : K

structure SignalResult (K : Type) where
  symbol : String
  value : K
  shouldEnter : Bool
  shouldExit : Bool
  family : SignalFamily

structure SignalDirection where
  enter : Bool
  exit : Bool
deriving DecidableEq

inductive RegimeState
  | bull | bear | neutral | highVol | unknown
deriving DecidableEq

structure RegimeResult (K : Type) where
  symbol : String
  state : RegimeState
  smaRatio : K
  volRatio : K

variable {K : Type} [Zero K] [One K] [Add K] [Sub K] [Neg K] [Mul K] [Div K] [NatCast K] [BEq K]
  [LT K] [LE K] [DecidableLT K] [DecidableLE K] (math : NanMath K)

/-- Only a value that is not a number differs from itself. -/
def isNan (value : K) : Bool := value != value

/-- The last element, as `[-1]` reads it where there is one. -/
def lastClose (closes : List K) : K := closes.getLast?.getD 0

def sma (values : List K) (window : ℕ) : K :=
  if values.length < window then math.nan else math.sum (lastOf window values) / (window : K)

def meanOver (values : List K) (count : ℕ) : K := math.sum values / (count : K)

def deviationOver (values : List K) (count : ℕ) : K :=
  let mean := meanOver math values count
  math.sqrt (meanOver math (values.map fun x => (x - mean) * (x - mean)) count)

def std (values : List K) (window : ℕ) : K :=
  if values.length < window then math.nan else deviationOver math (lastOf window values) window

def computeZscore (closes : List K) (window : ℕ) : K :=
  if closes.length < window then math.nan
  else
    let mean := sma math closes window
    let sd := std math closes window
    if sd == 0 || isNan sd then math.nan else (lastClose closes - mean) / sd

def computeBollingerPosition (closes : List K) (window : ℕ) (numStd : K) : K :=
  if closes.length < window then math.nan
  else
    let mean := sma math closes window
    let sd := std math closes window
    if sd == 0 || isNan sd then math.nan
    else
      let upper := mean + numStd * sd
      let lower := mean - numStd * sd
      let bandWidth := upper - lower
      if bandWidth == 0 then math.nan else (lastClose closes - lower) / bandWidth

def closePairs (closes : List K) : List (K × K) := closes.zip closes.tail

def computeRsi (closes : List K) (period : ℕ) : K :=
  if closes.length < period + 1 then math.nan
  else
    let changes := (closePairs (lastOf (period + 1) closes)).map fun pair => pair.2 - pair.1
    let avgGain := math.sum (changes.map fun change => if 0 < change then change else 0) / (period : K)
    let avgLoss := math.sum (changes.map fun change => if 0 < change then 0 else -change) / (period : K)
    if avgLoss == 0 then ((100 : ℕ) : K)
    else ((100 : ℕ) : K) - ((100 : ℕ) : K) / (1 + avgGain / avgLoss)

def computeReversal (closes : List K) (lookback : ℕ) : K :=
  if closes.length < lookback + 1 then math.nan
  else
    let start := closes[closes.length - (lookback + 1)]?.getD 0
    if start ≤ 0 then math.nan else lastClose closes / start - 1

def computeSignalValue (config : MeanReversionConfig K) (closes : List K) : K :=
  match config.family with
  | .zScore => computeZscore math closes config.lookback
  | .bollinger => computeBollingerPosition math closes config.lookback config.bollingerNumStd
  | .rsi => computeRsi math closes config.rsiPeriod
  | .reversal => computeReversal math closes config.lookback

def signalDirection (config : MeanReversionConfig K) (value : K) : SignalDirection :=
  if isNan value then { enter := false, exit := false }
  else
    match config.family with
    | .zScore | .reversal =>
      { enter := value < -config.entryThreshold, exit := -config.exitThreshold < value }
    | .bollinger | .rsi =>
      { enter := value < config.entryThreshold, exit := config.exitThreshold < value }

/-- `generate_signals`, over histories in the order of their symbols. -/
def generateSignals (config : MeanReversionConfig K) (closes : List (String × List K)) :
    List (SignalResult K) :=
  closes.map fun entry =>
    let value := computeSignalValue math config entry.2
    let direction := signalDirection config value
    { symbol := entry.1
      value
      shouldEnter := direction.enter
      shouldExit := direction.exit
      family := config.family }

def realizedVol (prices : List K) (window : ℕ) : K :=
  if prices.length < window + 1 then math.nan
  else
    let returns := (closePairs (lastOf (window + 1) prices)).filterMap fun pair =>
      if 0 < pair.1 then some (pair.2 / pair.1 - 1) else none
    if returns.isEmpty then math.nan else deviationOver math returns returns.length

/-- The regime of one symbol in `classify_regime`. -/
def regimeOf (config : MeanReversionConfig K) (symbol : String) (prices : List K) : RegimeResult K :=
  if config.regimeMethod = .none then
    { symbol, state := .bull, smaRatio := math.nan, volRatio := math.nan }
  else
    let average := sma math prices config.regimeSmaWindow
    if isNan average || average ≤ 0 then
      { symbol, state := .unknown, smaRatio := math.nan, volRatio := math.nan }
    else
      let smaRatio := lastClose prices / average
      let currentVol := realizedVol math prices (min 20 (prices.length - 1))
      let historicalVol := realizedVol math prices config.regimeVolLookback
      let volRatio :=
        if isNan currentVol || isNan historicalVol then math.nan
        else if 0 < historicalVol then currentVol / historicalVol
        else math.nan
      let state :=
        if !isNan volRatio && config.regimeVolMaxRatio < volRatio then .highVol
        else if ((102 : ℕ) : K) / ((100 : ℕ) : K) < smaRatio then .bull
        else if smaRatio < ((98 : ℕ) : K) / ((100 : ℕ) : K) then .bear
        else .neutral
      { symbol, state, smaRatio, volRatio }

def classifyRegime (config : MeanReversionConfig K) (closes : List (String × List K)) :
    List (String × RegimeResult K) :=
  closes.map fun entry => (entry.1, regimeOf math config entry.1 entry.2)

def isEntryAllowed (regime : RegimeResult K) : Bool :=
  regime.state = .bull ∨ regime.state = .neutral

end FinDashboard.MeanReversion
