import FinDashboard.Text.Timestamps
import FinDashboard.Text.Json

/-!
# Inputs of the factor selection

The selection rules, the record of a candidate that the reader returns, and the snapshot that is
published or skipped.
-/

namespace FinDashboard.Selection

open Text

/-- The operations on decimals; their order is a linear order. -/
class FactorDecimals (K : Type) extends Zero K, One K, Add K, Sub K, Div K, Neg K, NatCast K where
  square : K → K
  sqrt : K → K
  str : K → String
  /-- `Decimal(str(value))` of a float. -/
  ofFloat : PyFloat → K

inductive FactorName
  | marketCap | pb | turnoverRate | momentum | volatility20d | roe | grossProfitMargin | revenueYoy
deriving DecidableEq

namespace FactorName

def value : FactorName → String
  | marketCap => "market_cap"
  | pb => "pb"
  | turnoverRate => "turnover_rate"
  | momentum => "momentum"
  | volatility20d => "volatility_20d"
  | roe => "roe"
  | grossProfitMargin => "gross_profit_margin"
  | revenueYoy => "revenue_yoy"

/-- `FACTOR_CATALOG`, in its order. -/
def catalog : List FactorName :=
  [marketCap, pb, turnoverRate, momentum, volatility20d, roe, grossProfitMargin, revenueYoy]

/-- `FactorName(text)`; an unknown name raises, and the callers skip it. -/
def ofText (text : String) : Option FactorName := catalog.find? fun factor => factor.value = text

end FactorName

inductive InputsMode
  | researchDb | bars | snapshot
deriving DecidableEq

def InputsMode.value : InputsMode → String
  | researchDb => "research_db"
  | bars => "bars"
  | snapshot => "snapshot"

inductive RankingScope
  | global | industry
deriving DecidableEq

def RankingScope.value : RankingScope → String
  | global => "global"
  | industry => "industry"

/-- `_validate_bounds`. -/
def Ordered {K : Type} [LE K] (minimum maximum : Option K) : Prop :=
  ∀ low ∈ minimum, ∀ high ∈ maximum, low ≤ high

structure FactorSelectionConfig (K : Type) [LinearOrder K] where
  enabled : Bool := false
  source : String := "tushare"
  inputsMode : InputsMode := .researchDb
  snapshotIds : List String := []
  factorVersion : String := "v1"
  maxSymbols : ℕ := 20
  rankingFactor : FactorName := .marketCap
  rankingScope : RankingScope := .global
  rankingAscending : Bool := false
  maxPerIndustry : Option ℕ := none
  minListingDays : ℕ := 60
  excludeSt : Bool := true
  excludeSuspended : Bool := true
  momentumLookback : ℕ := 20
  minMarketCap : Option K := none
  maxMarketCap : Option K := none
  minPb : Option K := none
  maxPb : Option K := none
  minTurnoverRate : Option K := none
  maxTurnoverRate : Option K := none
  minMomentum : Option K := none
  minRoe : Option K := none
  minGrossProfitMargin : Option K := none
  minRevenueYoy : Option K := none
  datasetVersions : List (String × String) := []
  factorVersion_known : factorVersion = "v1" := by rfl
  snapshotIds_mode : snapshotIds ≠ [] ↔ inputsMode = .snapshot := by decide
  snapshotIds_nodup : snapshotIds.Nodup := by decide
  maxSymbols_pos : 0 < maxSymbols := by decide
  maxPerIndustry_pos : ∀ most ∈ maxPerIndustry, 0 < most := by decide
  momentumLookback_pos : 0 < momentumLookback := by decide
  marketCap_ordered : Ordered minMarketCap maxMarketCap := by simp [Ordered]
  pb_ordered : Ordered minPb maxPb := by simp [Ordered]
  turnoverRate_ordered : Ordered minTurnoverRate maxTurnoverRate := by simp [Ordered]

structure InstrumentProfile where
  name : String
  listStatus : String
  listDate : Date
  delistDate : Option Date
  source : String
  availableAt : DateTime

structure DailySecurityMetrics (K : Type) where
  tradeDate : Date
  turnoverRate : Option K
  pb : Option K
  totalMarketCap : Option K
  source : String
  availableAt : DateTime

structure FinancialIndicator (K : Type) where
  returnOnEquity : Option K
  grossProfitMargin : Option K
  revenueYoy : Option K
  source : String
  availableAt : DateTime

structure IndustryMembership where
  level3Code : String
  source : String
  availableAt : DateTime

structure FeatureObservation where
  featureName : String
  value : PyFloat

structure FactorInputRecord (K : Type) where
  symbol : String
  profile : Option InstrumentProfile
  daily : Option (DailySecurityMetrics K)
  financial : Option (FinancialIndicator K)
  industry : Option IndustryMembership
  features : List FeatureObservation := []

structure FactorInputBatch (K : Type) where
  records : List (FactorInputRecord K)
  source : String
  datasetVersions : List (String × String)
  issues : List String := []

structure FactorInputRequest where
  symbols : List String
  businessDate : Date
  decisionAt : DateTime
  source : String
  requiredDatasets : List String
  datasetVersions : List (String × String)

/-- The fields of a bar the selection reads. -/
structure Bar (K : Type) where
  timestamp : DateTime
  close : K
  volume : K

structure FactorValue (K : Type) where
  symbol : String
  factorName : FactorName
  value : K
  globalRank : Option ℕ
  industryRank : Option ℕ
  industryCode : Option String

inductive FactorSnapshotStatus
  | published | skipped
deriving DecidableEq

def FactorSnapshotStatus.value : FactorSnapshotStatus → String
  | published => "published"
  | skipped => "skipped"

structure FactorSnapshot (K : Type) where
  decisionAt : DateTime
  businessDate : Date
  effectiveDate : Date
  source : String
  datasetVersions : List (String × String)
  factorVersion : String
  staticUniverse : List String
  selectedSymbols : List String
  values : List (FactorValue K)
  status : FactorSnapshotStatus
  skipReason : Option String
  config : Json
  checksum : Option String
  snapshotId : Option ℤ := none
  warnings : List String := []

end FinDashboard.Selection
