import FinDashboard.Ledger.Dictionary
import Mathlib.Algebra.Field.Rat
import Mathlib.Algebra.Order.Ring.Rat
import Mathlib.Data.List.Sort

/-!
# Which convertible bonds are wanted

The bonds a day may trade are those of its snapshots that pass the universe and have no event against
them that is known by then; they are ranked by a weighted score.
-/

namespace FinDashboard.ConvertibleDoubleLow

open Ledger

/-- The operations on decimals. -/
class Decimals (K : Type) extends Zero K, One K, Add K, Sub K, Mul K, Div K, NatCast K, IntCast K,
    LT K, LE K, BEq K where
  decidableLT : DecidableLT K
  decidableLE : DecidableLE K
  /-- `int`, which drops the fraction. -/
  truncate : K → ℤ
  /-- `to_integral_value` with `ROUND_FLOOR`. -/
  floor : K → ℤ

attribute [reducible, instance] Decimals.decidableLT Decimals.decidableLE

inductive ListingStatus
  | active | suspended | delisted | pending | unknown
deriving DecidableEq

/-- The fields of `Instrument` the backtest reads; a date is its day number. -/
structure Instrument where
  code : String
  listDate : Option ℤ
  delistDate : Option ℤ
  status : ListingStatus

def Instrument.wasListedAt (instrument : Instrument) (asOf : ℤ) : Bool :=
  (instrument.listDate.all fun date => date ≤ asOf) && instrument.delistDate.all fun date => asOf ≤ date

/-- The fields of `ConvertibleSnapshot` the backtest reads. -/
structure ConvertibleSnapshot (K : Type) where
  instrument : Instrument
  underlyingStockCode : String
  close : K
  conversionPremium : K
  ytm : Option K
  daysToMaturity : Option ℤ
  remainingSize : K
  avgAmount20d : K

inductive LifecycleEventType
  | listing | delisting | dividend | split | coupon | forcedRedemption | sellBack | downwardRevision
  | conversionPriceAdjust | roll | expiration | delivery | suspension | resumption | nameChange | other
deriving DecidableEq

/-- The fields of `LifecycleEvent` the backtest reads; an instant is its microseconds from the midnight
UTC that begins day zero. -/
structure LifecycleEvent where
  symbol : String
  eventType : LifecycleEventType
  effectiveDate : ℤ
  availableAt : ℤ

inductive RebalanceFrequency
  | monthly | biweekly
deriving DecidableEq

structure ConvertibleDoubleLowConfig (K : Type) where
  universeMinListingDays : ℤ := 15
  universeMinRemainingDays : ℤ := 30
  universeMinAmount20d : K
  universeMinRemainingSize : K
  priceMax : K
  priceMin : K
  premiumMax : K
  factorWeights : List (String × K)
  topN : ℕ := 20
  maxWeightPerBond : K
  maxWeightPerIssuer : K
  rebalanceFrequency : RebalanceFrequency := .monthly
  entryBufferPct : K
  exitBufferPct : K
  maxDailyTurnover : K
  maxParticipation : K
  commissionRate : K
  slippageBps : K
  capital : K

def ConvertibleDoubleLowConfig.rebalanceIntervalDays {K : Type} (config : ConvertibleDoubleLowConfig K) :
    ℤ :=
  if config.rebalanceFrequency = .monthly then 21 else 10

/-- What `__post_init__` accepts. -/
structure ConvertibleDoubleLowConfig.Valid {K : Type} [Decimals K]
    (config : ConvertibleDoubleLowConfig K) : Prop where
  universe_nonneg : 0 ≤ config.universeMinListingDays ∧ 0 ≤ config.universeMinRemainingDays ∧
    0 ≤ config.universeMinAmount20d ∧ 0 ≤ config.universeMinRemainingSize ∧ 0 ≤ config.premiumMax
  prices : config.priceMin < config.priceMax
  topN : 1 ≤ config.topN
  weights : 0 < config.maxWeightPerBond ∧ config.maxWeightPerBond ≤ 1 ∧
    0 < config.maxWeightPerIssuer ∧ config.maxWeightPerIssuer ≤ 1
  buffers : 0 ≤ config.entryBufferPct ∧ 0 ≤ config.exitBufferPct
  turnover : 0 ≤ config.maxDailyTurnover ∧ config.maxDailyTurnover ≤ 1
  participation : 0 ≤ config.maxParticipation ∧ config.maxParticipation ≤ 1
  costs : 0 ≤ config.commissionRate ∧ 0 ≤ config.slippageBps
  capital : 0 < config.capital

variable {K : Type}

namespace ConvertibleSnapshot

def code (snapshot : ConvertibleSnapshot K) : String := snapshot.instrument.code

def issuerCode (snapshot : ConvertibleSnapshot K) : String := snapshot.underlyingStockCode

def doubleLowValue [Decimals K] (snapshot : ConvertibleSnapshot K) : K :=
  snapshot.close + snapshot.conversionPremium * ((100 : ℕ) : K)

end ConvertibleSnapshot

def midnight (asOf : ℤ) : ℤ := asOf * 86400000000

def isEventActive (event : LifecycleEvent) (asOf lookforwardDays : ℤ) : Bool :=
  if midnight asOf < event.availableAt then false
  else event.effectiveDate - lookforwardDays ≤ asOf ∧ asOf ≤ event.effectiveDate

structure EventRiskResult where
  code : String
  isBlocked : Bool
  blockReason : String
  activeEvents : List LifecycleEvent

/-- Whether an event of a bond counts on a day, in `check_event_risk`. -/
def countsOn (code : String) (asOf : ℤ) (event : LifecycleEvent) : Bool :=
  if event.symbol ≠ code then false
  else if midnight asOf < event.availableAt then false
  else
    match event.eventType with
    | .forcedRedemption | .delisting | .suspension => true
    | .sellBack | .conversionPriceAdjust | .downwardRevision => isEventActive event asOf 30
    | _ => false

def blockReason? (event : LifecycleEvent) : Option String :=
  match event.eventType with
  | .forcedRedemption => some "forced_redemption"
  | .delisting => some "delisting"
  | .suspension => some "suspended"
  | .sellBack => some "sell_back_period"
  | _ => none

def checkEventRisk (snapshot : ConvertibleSnapshot K) (events : List LifecycleEvent)
    (asOf minDaysToMaturity : ℤ) : EventRiskResult :=
  let active := events.filter (countsOn snapshot.code asOf)
  let nearMaturity := snapshot.daysToMaturity.any fun days => days < minDaysToMaturity
  let blockReasons := active.filterMap blockReason? ++ if nearMaturity then ["near_maturity"] else []
  { code := snapshot.code
    isBlocked := 0 < blockReasons.length
    blockReason := if blockReasons.isEmpty then "ok" else String.intercalate ";" blockReasons
    activeEvents := active }

/-- `filter_event_risk`: the snapshots without an event against them, and every result. -/
def filterEventRisk (snapshots : List (ConvertibleSnapshot K)) (allEvents : String → List LifecycleEvent)
    (asOf minDaysToMaturity : ℤ) : List (ConvertibleSnapshot K) × List EventRiskResult :=
  let check := fun snapshot : ConvertibleSnapshot K =>
    checkEventRisk snapshot (allEvents snapshot.code) asOf minDaysToMaturity
  (snapshots.filter fun snapshot => !(check snapshot).isBlocked, snapshots.map check)

variable [Decimals K]

def isTradableOn (snapshot : ConvertibleSnapshot K) (config : ConvertibleDoubleLowConfig K) (asOf : ℤ) :
    Bool :=
  let instr := snapshot.instrument
  if instr.listDate.any fun date => asOf - date < config.universeMinListingDays then false
  else if snapshot.daysToMaturity.any fun days => days < config.universeMinRemainingDays then false
  else if snapshot.avgAmount20d < config.universeMinAmount20d then false
  else if snapshot.remainingSize < config.universeMinRemainingSize then false
  else if snapshot.close < config.priceMin ∨ config.priceMax < snapshot.close then false
  else if config.premiumMax < snapshot.conversionPremium then false
  else if instr.status = .delisted then false
  else instr.wasListedAt asOf

def filterUniverse (snapshots : List (ConvertibleSnapshot K)) (config : ConvertibleDoubleLowConfig K)
    (asOf : ℤ) : List (ConvertibleSnapshot K) :=
  snapshots.filter fun snapshot => isTradableOn snapshot config asOf

structure ConvertibleSignal (K : Type) where
  code : String
  doubleLowValue : K
  compositeScore : K
  rank : ℕ

def percentileRank (value : K) (allValues : List K) : K :=
  if allValues.length ≤ 1 then 0
  else ((allValues.countP fun v => v < value : ℕ) : K) / ((allValues.length - 1 : ℕ) : K)

/-- The built-in `sum` of decimals. -/
def sumOf (values : List K) : K := values.foldl (· + ·) 0

/-- The factors of `compute_composite_score` with the weight each has: the value of a bond, and whether
a high value is good. -/
def factors : List (String × (ConvertibleSnapshot K → K) × Bool) :=
  [("price", fun s => s.close, false),
   ("premium", fun s => s.conversionPremium, false),
   ("ytm", fun s => s.ytm.getD 0, true),
   ("duration", fun s => ((s.daysToMaturity.getD 0 : ℤ) : K), false),
   ("liquidity", fun s => s.avgAmount20d, true)]

def computeCompositeScore (snapshot : ConvertibleSnapshot K)
    (allSnapshots : List (ConvertibleSnapshot K)) (config : ConvertibleDoubleLowConfig K) : K :=
  let totalWeight := sumOf (config.factorWeights.map (·.2))
  if totalWeight == 0 then snapshot.doubleLowValue
  else
    let score := factors.foldl (fun (score : K) (name, value, descending) =>
      let weight := (find name config.factorWeights).getD 0
      if 0 < weight then
        let position := percentileRank (value snapshot) (allSnapshots.map value)
        score + weight * if descending then 1 - position else position
      else score) 0
    score / totalWeight

/-- `generate_signals`; the sort keeps the order of equal scores. -/
def generateSignals (candidates : List (ConvertibleSnapshot K)) (config : ConvertibleDoubleLowConfig K) :
    List (ConvertibleSignal K) :=
  let ranked := (candidates.map fun snapshot =>
    (computeCompositeScore snapshot candidates config, snapshot)).insertionSort
      fun entry other => ¬other.1 < entry.1
  (ranked.take config.topN).zipIdx.map fun (entry, i) =>
    { code := entry.2.code
      doubleLowValue := entry.2.doubleLowValue
      compositeScore := entry.1
      rank := i + 1 }

inductive Direction
  | entry | exit
deriving DecidableEq

def computeRankThreshold (config : ConvertibleDoubleLowConfig K) (direction : Direction) : ℤ :=
  let ratio := 1 + if direction = .entry then config.entryBufferPct else config.exitBufferPct
  max 1 (Decimals.truncate ((config.topN : K) * ratio))

/-- Decimals without rounding. -/
scoped instance exactDecimals : Decimals ℚ where
  decidableLT := inferInstance
  decidableLE := inferInstance
  truncate x := x.num.tdiv x.den
  floor := Rat.floor

/-- The defaults of `ConvertibleDoubleLowConfig`. -/
def defaultConfig : ConvertibleDoubleLowConfig ℚ where
  universeMinAmount20d := 5000000
  universeMinRemainingSize := 50000000
  priceMax := 130
  priceMin := 100
  premiumMax := 1 / 2
  factorWeights := [("price", 1), ("premium", 1), ("ytm", 0), ("duration", 0), ("liquidity", 0)]
  maxWeightPerBond := 1 / 10
  maxWeightPerIssuer := 3 / 20
  entryBufferPct := 1 / 50
  exitBufferPct := 1 / 20
  maxDailyTurnover := 3 / 10
  maxParticipation := 1 / 10
  commissionRate := 1 / 5000
  slippageBps := 5
  capital := 100000

theorem defaultConfig_valid : defaultConfig.Valid where
  universe_nonneg := by decide +kernel
  prices := by decide +kernel
  topN := by decide
  weights := by decide +kernel
  buffers := by decide +kernel
  turnover := by decide +kernel
  participation := by decide +kernel
  costs := by decide +kernel
  capital := by decide +kernel

end FinDashboard.ConvertibleDoubleLow
