import FinDashboard.Runs.GreedyCaps
import FinDashboard.Runs.SortedOn
import FinDashboard.Selection.Inputs
import Mathlib.Data.Prod.Lex

/-!
# The factor selection of a day

Eligible candidates are ranked on one factor and taken under the caps. A cross section that is not
complete is skipped with a reason and publishes nothing.
-/

namespace FinDashboard.Selection

open Ledger Text

variable {K : Type} [LinearOrder K]

section

variable (config : FactorSelectionConfig K)

/-- Whether the rules cannot do without a factor. -/
def requires (factor : FactorName) : Bool :=
  factor = config.rankingFactor ||
  match factor with
  | .marketCap => config.minMarketCap.isSome || config.maxMarketCap.isSome
  | .pb => config.minPb.isSome || config.maxPb.isSome
  | .turnoverRate => config.minTurnoverRate.isSome || config.maxTurnoverRate.isSome
  | .momentum => config.minMomentum.isSome
  | .volatility20d => false
  | .roe => config.minRoe.isSome
  | .grossProfitMargin => config.minGrossProfitMargin.isSome
  | .revenueYoy => config.minRevenueYoy.isSome

def requiredFactors : List FactorName := FactorName.catalog.filter (requires config)

def dailyDependentFactors : List FactorName := [.marketCap, .pb, .turnoverRate]

def requiresDaily : Bool := dailyDependentFactors.any (requires config)

def requiredDatasets : List String :=
  (if config.inputsMode = .researchDb then ["instrument_profiles"] else []) ++
  (if requiresDaily config then ["daily_metrics"] else []) ++
  (if [FactorName.roe, .grossProfitMargin, .revenueYoy].any (requires config) then
    ["financial_indicators"] else []) ++
  if config.rankingScope = .industry ∨ config.maxPerIndustry.isSome then
    ["industry_memberships"] else []

variable [FactorDecimals K]

def decimalText (value : Option K) : Json :=
  value.elim .null fun decimal => .str (FactorDecimals.str decimal)

def versionsJson (versions : List (String × String)) : Json :=
  .obj (Json.sortFields (versions.map fun version => (version.1, .str version.2)))

def asDict : Json := .obj
  [("enabled", .bool config.enabled),
    ("source", .str config.source),
    ("inputs_mode", .str config.inputsMode.value),
    ("snapshot_ids", .arr (config.snapshotIds.map .str)),
    ("factor_version", .str config.factorVersion),
    ("max_symbols", .int config.maxSymbols),
    ("ranking_factor", .str config.rankingFactor.value),
    ("ranking_scope", .str config.rankingScope.value),
    ("ranking_ascending", .bool config.rankingAscending),
    ("max_per_industry", config.maxPerIndustry.elim .null fun most => .int most),
    ("min_listing_days", .int config.minListingDays),
    ("exclude_st", .bool config.excludeSt),
    ("exclude_suspended", .bool config.excludeSuspended),
    ("momentum_lookback", .int config.momentumLookback),
    ("min_market_cap", decimalText config.minMarketCap),
    ("max_market_cap", decimalText config.maxMarketCap),
    ("min_pb", decimalText config.minPb),
    ("max_pb", decimalText config.maxPb),
    ("min_turnover_rate", decimalText config.minTurnoverRate),
    ("max_turnover_rate", decimalText config.maxTurnoverRate),
    ("min_momentum", decimalText config.minMomentum),
    ("min_roe", decimalText config.minRoe),
    ("min_gross_profit_margin", decimalText config.minGrossProfitMargin),
    ("min_revenue_yoy", decimalText config.minRevenueYoy),
    ("dataset_versions", versionsJson config.datasetVersions)]

end

/-- The values of each factor, by symbol. -/
abbrev FactorMatrix (K : Type) := FactorName → List (String × K)

def put (target : FactorMatrix K) (factor : FactorName) (symbol : String) :
    Option K → FactorMatrix K
  | none => target
  | some value => Function.update target factor (assign symbol value (target factor))

section

variable [FactorDecimals K]

/-- `end / start - 1` over the lookback. -/
def momentumOf (bars : List (Bar K)) (lookback : ℕ) : Option K :=
  match bars.reverse[lookback]?, bars.getLast? with
  | some start, some last => if 0 < start.close then some (last.close / start.close - 1) else none
  | _, _ => none

def volatilityWindow : ℕ := 20

/-- The sample deviation of the last twenty returns. -/
def volatility20dOf (bars : List (Bar K)) : Option K :=
  if bars.length < volatilityWindow + 1 then none
  else
    let closes := (bars.drop (bars.length - (volatilityWindow + 1))).map (·.close)
    let previous := closes.take volatilityWindow
    if previous.any (· ≤ 0) then none
    else
      let returns := List.zipWith (fun close before => close / before - 1) closes.tail previous
      let mean := returns.foldl (· + ·) 0 / (returns.length : K)
      let squares := returns.map fun change => FactorDecimals.square (change - mean)
      some (FactorDecimals.sqrt (squares.foldl (· + ·) 0 / ((returns.length - 1 : ℕ) : K)))

/-- What is put into the matrix for a symbol, in order. -/
def symbolFactors (record : FactorInputRecord K) (bars : List (Bar K)) (lookback : ℕ) :
    List (FactorName × Option K) :=
  if record.features ≠ [] then
    -- frozen observations are taken as they are, names outside the catalog skipped
    record.features.filterMap fun observation =>
      (FactorName.ofText observation.featureName).map fun factor =>
        (factor, some (FactorDecimals.ofFloat observation.value))
  else
    (record.daily.elim [] fun daily => [(.marketCap, daily.totalMarketCap), (.pb, daily.pb),
      (.turnoverRate, daily.turnoverRate)]) ++
    [(.momentum, momentumOf bars lookback), (.volatility20d, volatility20dOf bars)] ++
    record.financial.elim [] fun financial => [(.roe, financial.returnOnEquity),
      (.grossProfitMargin, financial.grossProfitMargin), (.revenueYoy, financial.revenueYoy)]

def calculateFactorValues (symbols : List String) (record : String → Option (FactorInputRecord K))
    (bars : String → List (Bar K)) (lookback : ℕ) : FactorMatrix K :=
  symbols.foldl (fun target symbol =>
    ((record symbol).elim [] fun row => symbolFactors row (bars symbol) lookback).foldl
      (fun target entry => put target entry.1 symbol entry.2) target) fun _ => []

end

/-- What the selection of a day reads: the records by symbol and the bars by symbol. -/
structure CrossSection (K : Type) [LinearOrder K] where
  config : FactorSelectionConfig K
  universeSymbols : List String
  businessDate : Date
  decisionAt : DateTime
  record : String → Option (FactorInputRecord K)
  bars : String → List (Bar K)

def recordInputs (record : FactorInputRecord K) : List (DateTime × String) :=
  (record.profile.map fun item => (item.availableAt, item.source)).toList ++
  (record.daily.map fun item => (item.availableAt, item.source)).toList ++
  (record.financial.map fun item => (item.availableAt, item.source)).toList ++
  (record.industry.map fun item => (item.availableAt, item.source)).toList

section

variable (day : CrossSection K)

def recordIssue (symbol : String) (record : FactorInputRecord K) : Option String :=
  if record.symbol ≠ symbol then some s!"symbol_mismatch:{symbol}"
  else if day.config.inputsMode = .researchDb ∧ record.profile.isNone then
    some s!"profile_missing:{symbol}"
  else if (record.daily.any fun daily => daily.tradeDate ≠ day.businessDate) ∧
      requiresDaily day.config then some s!"daily_metrics_stale:{symbol}"
  else if (recordInputs record).any fun input => day.decisionAt.instant < input.1.instant then
    some s!"future_data:{symbol}"
  else if (recordInputs record).any fun input => input.2 ≠ day.config.source then
    some s!"record_source_mismatch:{symbol}"
  else none

def inputIntegrityIssue (symbols : List String) : Option String :=
  symbols.findSome? fun symbol => (day.record symbol).bind (recordIssue day symbol)

def industryCode (symbol : String) : Option String :=
  ((day.record symbol).bind (·.industry)).map (·.level3Code)

end

section

variable [FactorDecimals K] (upper : String → String) (day : CrossSection K)

def isEligible (record : FactorInputRecord K) (config : FactorSelectionConfig K)
    (businessDate : Date) (currentBars : List (Bar K)) : Bool :=
  (record.profile.all fun profile =>
    upper profile.listStatus = "L" &&
    profile.listDate.toordinal ≤ businessDate.toordinal &&
    (profile.delistDate.all fun date => businessDate.toordinal < date.toordinal) &&
    (config.minListingDays : ℤ) ≤ businessDate.toordinal - profile.listDate.toordinal &&
    !(config.excludeSt && decide ("ST".toList <:+: (upper profile.name).toList))) &&
  (!config.excludeSuspended ||
    currentBars.getLast?.any fun latest => latest.timestamp.date = businessDate && 0 < latest.volume)

def eligible : List String := day.universeSymbols.filter fun symbol =>
  (day.record symbol).any fun record =>
    isEligible upper record day.config day.businessDate (day.bars symbol)

def factorValues : FactorMatrix K :=
  calculateFactorValues (eligible upper day) day.record day.bars
    day.config.momentumLookback

/-- The first eligible symbol without daily metrics, where the rules need them. -/
def missingDaily : Option String :=
  if day.config.inputsMode ≠ .snapshot ∧ requiresDaily day.config then
    (eligible upper day).find? fun symbol => ((day.record symbol).bind (·.daily)).isNone
  else none

def missingRequiredFactor : Option String :=
  (sortedOn FactorName.value (requiredFactors day.config)).findSome? fun factor =>
    (sortedSet ((eligible upper day).filter fun symbol =>
      (find symbol (factorValues upper day factor)).isNone)).head?.map fun symbol =>
        s!"factor_missing:{factor.value}:{symbol}"

def industryIncomplete : Bool :=
  (day.config.rankingScope = .industry || day.config.maxPerIndustry.isSome) &&
    (eligible upper day).any fun symbol => (industryCode day symbol).isNone

def valueOf (values : List (String × K)) (symbol : String) : K := (find symbol values).getD 0

/-- Highest value first unless ascending, and equal values by symbol. -/
def rankKey (ascending : Bool) (values : List (String × K)) (symbol : String) : K ×ₗ String :=
  toLex (if ascending then valueOf values symbol else -valueOf values symbol, symbol)

def grouped (code : String → Option String) (symbols : List String) : List (String × List String) :=
  symbols.foldl (fun groups symbol =>
    (code symbol).elim groups fun group =>
      assign group ((find group groups).getD [] ++ [symbol]) groups) []

def places (key : String → K ×ₗ String) (symbols : List String) : List (String × ℕ) :=
  (sortedOn key symbols).zipIdx 1

def groupPlaces (code : String → Option String) (key : String → K ×ₗ String)
    (symbols : List String) : List (String × ℕ) :=
  (grouped code symbols).foldl (fun ranks group =>
    (places key group.2).foldl (fun ranks place => assign place.1 place.2 ranks) ranks) []

def rankFactorValues : List (FactorValue K) :=
  (sortedOn FactorName.value FactorName.catalog).flatMap fun factor =>
    let values := factorValues upper day factor
    let available := (eligible upper day).filter fun symbol => (find symbol values).isSome
    let key := rankKey false values
    (sortedSet (values.map (·.1))).filterMap fun symbol =>
      if symbol ∈ eligible upper day then
        (find symbol values).map fun value =>
          { symbol, factorName := factor, value
            globalRank := find symbol (places key available)
            industryRank := find symbol (groupPlaces (industryCode day) key available)
            industryCode := industryCode day symbol }
      else none

def inBounds (value minimum maximum : Option K) : Bool :=
  if minimum.isNone && maximum.isNone then true
  else value.any fun number => (minimum.all (· ≤ number)) && maximum.all (number ≤ ·)

def atLeast (value minimum : Option K) : Bool :=
  minimum.all fun low => value.any (low ≤ ·)

def passesFilters (symbol : String) : Bool :=
  let config := day.config
  let value := fun factor => find symbol (factorValues upper day factor)
  [inBounds (value .marketCap) config.minMarketCap config.maxMarketCap,
    inBounds (value .pb) config.minPb config.maxPb,
    inBounds (value .turnoverRate) config.minTurnoverRate config.maxTurnoverRate,
    atLeast (value .momentum) config.minMomentum,
    atLeast (value .roe) config.minRoe,
    atLeast (value .grossProfitMargin) config.minGrossProfitMargin,
    atLeast (value .revenueYoy) config.minRevenueYoy].all id

def filtered : List String := (eligible upper day).filter (passesFilters upper day)

def candidateKey (symbol : String) : K ×ₗ String :=
  rankKey day.config.rankingAscending
    (factorValues upper day day.config.rankingFactor) symbol

/-- The place within the industry, then the industry, then the symbol; every candidate that is
ranked by industry has one. -/
def industryKey (symbol : String) : ℕ ×ₗ String ×ₗ String :=
  let ranks := groupPlaces (industryCode day) (candidateKey upper day)
    (filtered upper day)
  toLex ((find symbol ranks).getD 0, toLex ((industryCode day symbol).getD "", symbol))

def orderCandidates : List String :=
  match day.config.rankingScope with
  | .global => sortedOn (candidateKey upper day) (filtered upper day)
  | .industry => sortedOn (industryKey upper day) (filtered upper day)

/-- The code under which a candidate is counted; one without an industry has the empty code. -/
def countedCode (symbol : String) : String := (industryCode day symbol).getD ""

/-- The loop of `_apply_limits`: the symbols still to see, those selected, and the counts by code. -/
def applyLimits : List String → List String → List (String × ℕ) → List String
  | [], selected, _ => selected
  | symbol :: rest, selected, counts =>
    let code := countedCode day symbol
    let count := (find code counts).getD 0
    if day.config.maxPerIndustry.any (· ≤ count) then applyLimits rest selected counts
    else if day.config.maxSymbols ≤ (selected ++ [symbol]).length then selected ++ [symbol]
    else applyLimits rest (selected ++ [symbol]) (assign code (count + 1) counts)

def selectedSymbols : List String := applyLimits day (orderCandidates upper day) [] []

end

def demand (holds : Bool) (reason : String) : Except String Unit :=
  if holds then .ok () else .error reason

def noIssue (issue : Option String) : Except String Unit := issue.elim (.ok ()) .error

structure Publication (K : Type) where
  selected : List String
  values : List (FactorValue K)
  warnings : List String

def degradableIssues (issues : List String) : List String :=
  issues.filter fun issue => "dataset_unpublished:".toList.isPrefixOf issue.toList

def readerWarnings (config : FactorSelectionConfig K) (issues : List String) : List String :=
  if config.inputsMode ≠ .researchDb then degradableIssues issues else []

def hardIssues (config : FactorSelectionConfig K) (issues : List String) : List String :=
  issues.filter (· ∉ readerWarnings config issues)

def profileWarning : String := "instrument_profiles_unavailable:ST/上市天数/退市过滤降级为不生效"

/-- The dictionary of the records; a later record of a symbol replaces an earlier one. -/
def recordsBySymbol (records : List (FactorInputRecord K)) : List (String × FactorInputRecord K) :=
  records.foldl (fun known record => assign record.symbol record known) []

def sameMembers (known universeSymbols : List String) : Bool :=
  known.all (· ∈ universeSymbols) && universeSymbols.all (· ∈ known)

section

variable [FactorDecimals K] (strip upper : String → String)

/-- The checks after the records are known to cover the universe. -/
def publication (day : CrossSection K) (symbols : List String) (unprofiled : Bool)
    (warnings : List String) : Except String (Publication K) := do
  noIssue (inputIntegrityIssue day symbols)
  noIssue ((missingDaily upper day).map fun symbol => s!"daily_metrics_missing:{symbol}")
  noIssue (missingRequiredFactor upper day)
  demand (!industryIncomplete upper day) "industry_coverage_incomplete"
  .ok {
    selected := selectedSymbols upper day
    values := rankFactorValues upper day
    warnings := warnings ++
      if day.config.inputsMode ≠ .researchDb ∧ unprofiled then [profileWarning] else [] }

def crossSectionOf (config : FactorSelectionConfig K) (universeSymbols : List String)
    (businessDate : Date) (decisionAt : DateTime) (priceHistory : List (String × List (Bar K)))
    (records : List (FactorInputRecord K)) : CrossSection K where
  config := config
  universeSymbols := universeSymbols
  businessDate := businessDate
  decisionAt := decisionAt
  record := fun symbol => find symbol (recordsBySymbol records)
  bars := fun symbol => (find symbol priceHistory).getD []

def judge (config : FactorSelectionConfig K) (universeSymbols : List String) (businessDate : Date)
    (decisionAt : DateTime) (priceHistory : List (String × List (Bar K)))
    (batch : FactorInputBatch K) : Except String (Publication K) := do
  demand (batch.source = config.source) "source_mismatch"
  demand (hardIssues config batch.issues = [])
    (";".intercalate (sortedSet (hardIssues config batch.issues)))
  demand (sameMembers ((recordsBySymbol batch.records).map (·.1)) universeSymbols)
    "candidate_coverage_incomplete"
  publication upper
    (crossSectionOf config universeSymbols businessDate decisionAt priceHistory batch.records)
    (sortedSet ((recordsBySymbol batch.records).map (·.1)))
    ((recordsBySymbol batch.records).any fun row => row.2.profile.isNone)
    (readerWarnings config batch.issues)

def valueJson (item : FactorValue K) : Json := .obj
  [("symbol", .str item.symbol),
    ("factor_name", .str item.factorName.value),
    ("value", .str (FactorDecimals.str item.value)),
    ("global_rank", item.globalRank.elim .null fun rank => .int rank),
    ("industry_rank", item.industryRank.elim .null fun rank => .int rank),
    ("industry_code", item.industryCode.elim .null .str)]

variable (sha256 : List Char → String)

def snapshotOf (config : FactorSelectionConfig K) (universeSymbols : List String)
    (businessDate : Date) (decisionAt : DateTime) (effectiveDate : Date)
    (datasetVersions : List (String × String)) (outcome : Except String (Publication K)) : FactorSnapshot K :=
  let status : FactorSnapshotStatus := if outcome.toOption.isSome then .published else .skipped
  let skipReason : Option String := match outcome with
    | .error reason => some reason
    | .ok _ => none
  let published : Publication K :=
    outcome.toOption.getD { selected := [], values := [], warnings := [] }
  let payload : Json := .obj
    [("decision_at", .str (String.ofList decisionAt.isoformat)),
      ("business_date", .str (String.ofList businessDate.isoformat)),
      ("effective_date", .str (String.ofList effectiveDate.isoformat)),
      ("source", .str config.source),
      ("dataset_versions", versionsJson datasetVersions),
      ("factor_version", .str config.factorVersion),
      ("static_universe", .arr (universeSymbols.map .str)),
      ("selected_symbols", .arr (published.selected.map .str)),
      ("values", .arr (published.values.map valueJson)),
      ("status", .str status.value),
      ("skip_reason", skipReason.elim .null .str),
      ("warnings", .arr (published.warnings.map .str)),
      ("config", asDict config)]
  { decisionAt, businessDate, effectiveDate
    source := config.source
    datasetVersions := sortedOn Prod.fst datasetVersions
    factorVersion := config.factorVersion
    staticUniverse := universeSymbols
    selectedSymbols := published.selected
    values := published.values
    status, skipReason
    config := asDict config
    checksum := payload.dumps.map sha256
    warnings := published.warnings }

/-- `_persist`: the snapshot with the number under which it was saved. -/
def persist (writer : Option (FactorSnapshot K → ℤ)) (snapshot : FactorSnapshot K) : FactorSnapshot K :=
  { snapshot with snapshotId := writer.map (· snapshot) }

def normalized (staticUniverse : List String) : List String :=
  sortedSet (staticUniverse.map fun symbol => upper (strip symbol))

def requestOf (config : FactorSelectionConfig K) (staticUniverse : List String)
    (businessDate : Date) (decisionAt : DateTime) : FactorInputRequest where
  symbols := normalized strip upper staticUniverse
  businessDate := businessDate
  decisionAt := decisionAt
  source := config.source
  requiredDatasets := requiredDatasets config
  datasetVersions := config.datasetVersions

def select (reader : FactorInputRequest → FactorInputBatch K)
    (writer : Option (FactorSnapshot K → ℤ)) (config : FactorSelectionConfig K)
    (staticUniverse : List String) (businessDate : Date) (decisionAt : DateTime)
    (effectiveDate : Date) (priceHistory : List (String × List (Bar K))) :
    Except String (FactorSnapshot K) := do
  demand config.enabled "因子选股未启用"
  demand (businessDate.toordinal < effectiveDate.toordinal) "因子快照只能在下一交易日或之后生效"
  let universeSymbols := normalized strip upper staticUniverse
  let batch := reader (requestOf strip upper config staticUniverse businessDate decisionAt)
  let outcome := judge upper config universeSymbols businessDate decisionAt priceHistory batch
  demand (outcome.toOption.all fun published => published.selected.all (· ∈ universeSymbols))
    "因子快照越过静态候选池"
  .ok (persist writer (snapshotOf sha256 config universeSymbols businessDate decisionAt
    effectiveDate batch.datasetVersions outcome))

end

end FinDashboard.Selection
