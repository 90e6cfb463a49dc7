import FinDashboard.Factors.Standardize
import FinDashboard.Runs.Fallible

/-!
# Multi-factor scores

Each factor is filled, clipped, standardised and neutralised; the factor scores are combined to one
score for each symbol, and symbols are ranked by it. The combination walks a set of symbols, whose
order is a parameter.
-/

namespace FinDashboard.Factors

open Ledger

variable {K : Type} [Field K] [LinearOrder K]

inductive CombinationMethod
  | weightedAverage | rankAverage
deriving DecidableEq

structure FactorWeight (K : Type) [Field K] [LinearOrder K] where
  factorName : String
  weight : K
  weight_nonneg : 0 ≤ weight
  weight_le : weight ≤ 1 + eps

structure CombinationConfig (K : Type) [Field K] [LinearOrder K] where
  weights : List (FactorWeight K)
  method : CombinationMethod := .weightedAverage
  weights_ne_nil : weights ≠ []
  weights_total : |(weights.map (·.weight)).sum - 1| ≤ 2 / 100
  names_nodup : (weights.map (·.factorName)).Nodup

structure ScoringConfig (K : Type) [Field K] [LinearOrder K] where
  combination : CombinationConfig K
  industryNeutralize : Bool := false
  capNeutralize : Bool := false

inductive StandardizeMethod
  | zscore | rank | none
deriving DecidableEq

/-- What the catalog says about the scoring of a factor. -/
structure FactorMeta (K : Type) where
  long : Bool
  winsorizeLowerPct : K
  winsorizeUpperPct : K
  standardize : StandardizeMethod := .zscore
  missingStrategy : MissingStrategy := .exclude

abbrev FactorMatrix (K : Type) := List (String × Column K)

def undefineInfinite (values : Column K) : Column K :=
  values.map fun row => (row.1, row.2.finite?.elim .nan .finite)

section

variable (numerics : Numerics K) (config : ScoringConfig K)

def logCaps (marketCaps : Column K) : Column K :=
  marketCaps.map fun row => (row.1, match row.2 with
    | .finite x => if 0 < x then .finite (numerics.log x) else .nan
    | .posInf => .posInf
    | _ => .nan)

def standardizeBy (method : StandardizeMethod) (values : Column K) : Column K :=
  match method with
  | .rank => rankNormalize numerics values
  | .zscore => zscore numerics values
  | .none => undefineInfinite values

def processFactor [FloorSemiring K] (factor : FactorMeta K)
    (industryMap : List (String × String)) (marketCaps : Column K) (raw : Column K) : Column K :=
  let values := fillMissing factor.missingStrategy raw
  let values := winsorize factor.winsorizeLowerPct factor.winsorizeUpperPct values
  let values := standardizeBy numerics factor.standardize values
  let values :=
    if config.industryNeutralize ∧ industryMap ≠ [] then industryDemean industryMap values
    else values
  let values :=
    if config.capNeutralize ∧ marketCaps ≠ [] then
      regressionNeutralize numerics (logCaps numerics marketCaps) values
    else values
  applyDirection factor.long values

end

section

variable (factorScores : FactorMatrix K) (config : CombinationConfig K)

def scoresOf (factorName : String) : Column K := (find factorName factorScores).getD []

/-- The symbols of the weighted factors, each once. -/
def combinedSymbols : List String :=
  (config.weights.flatMap fun weight =>
    (scoresOf factorScores weight.factorName).map (·.1)).dedup

/-- What a factor adds for a symbol with a finite score: its weight times the score, and the
weight. -/
def weightedPart (symbol : String) (weight : FactorWeight K) : Option (K × K) :=
  ((find symbol (scoresOf factorScores weight.factorName)).bind Value.finite?).map fun x =>
    (weight.weight * x, weight.weight)

/-- The same with the rank of the score between zero and one, where two scores are finite. -/
def rankPart (symbol : String) (weight : FactorWeight K) : Option (K × K) :=
  let scores := scoresOf factorScores weight.factorName
  if (finites scores).length < 2 then none
  else ((find symbol scores).bind Value.finite?).map fun x =>
    (weight.weight * uniformRank (finites scores) x, weight.weight)

/-- The sum of the parts over the weight that was used. -/
def average (parts : List (K × K)) : Value K :=
  let total := (parts.map (·.2)).sum
  if eps < total then .finite ((parts.map (·.1)).sum / total) else .nan

def compositeScore (symbol : String) : Value K :=
  average (config.weights.filterMap (match config.method with
    | .weightedAverage => weightedPart factorScores symbol
    | .rankAverage => rankPart factorScores symbol))

/-- `iterate` is the order in which a set of symbols is walked. -/
def combineScores (iterate : List String → List String) : Column K :=
  (iterate (combinedSymbols factorScores config)).map fun symbol =>
    (symbol, compositeScore factorScores config symbol)

end

def validEntries (scores : Column K) : List (String × K) :=
  scores.filterMap fun row => row.2.finite?.map fun x => (row.1, x)

/-- Highest score first; `sorted` with `reverse` leaves equal scores as they come. -/
def rankedSymbols (scores : Column K) : List String :=
  (sortedOn (fun entry => OrderDual.toDual entry.2) (validEntries scores)).map (·.1)

def rankDict (scores : Column K) : List (String × ℕ) := (rankedSymbols scores).zipIdx 1

structure ScoringResult (K : Type) where
  compositeScores : Column K
  factorScores : FactorMatrix K
  factorRanks : List (String × List (String × ℕ))
  coverage : List (String × K)
  nEligible : ℕ
  nTotal : ℕ

def ScoringResult.rankedSymbols (result : ScoringResult K) : List String :=
  Factors.rankedSymbols result.compositeScores

section

variable [FloorSemiring K] (numerics : Numerics K) (catalog : String → Option (FactorMeta K))
  (config : ScoringConfig K) (iterate : List String → List String)

def collectSymbols (matrix : FactorMatrix K) : List String :=
  (matrix.flatMap fun factor => factor.2.map (·.1)).dedup

def capsOf (matrix : FactorMatrix K) (marketCaps : Option (Column K)) : Column K :=
  marketCaps.getD (if config.capNeutralize then (find "market_cap" matrix).getD [] else [])

/-- The scores of the weighted factors; a factor outside the catalog raises. -/
def factorScores (matrix : FactorMatrix K) (industryMap : List (String × String))
    (marketCaps : Option (Column K)) : Except String (FactorMatrix K) :=
  collect (fun weight => do
    let factor ← (catalog weight.factorName).elim (.error weight.factorName) .ok
    .ok (weight.factorName, processFactor numerics config factor industryMap
      (capsOf config matrix marketCaps) ((find weight.factorName matrix).getD [])))
    config.combination.weights

def computeRanks (scores : FactorMatrix K) (composite : Column K) : List (String × List (String × ℕ)) :=
  assign "__composite__" (rankDict composite)
    (scores.map fun factor => (factor.1, rankDict factor.2))

def score (matrix : FactorMatrix K) (industryMap : List (String × String))
    (marketCaps : Option (Column K)) : Except String (ScoringResult K) :=
  if collectSymbols matrix = [] then
    .ok { compositeScores := [], factorScores := [], factorRanks := [], coverage := []
          nEligible := 0, nTotal := 0 }
  else do
    let scores ← factorScores numerics catalog config matrix industryMap marketCaps
    let composite := combineScores scores config.combination iterate
    .ok {
      compositeScores := composite
      factorScores := scores
      factorRanks := computeRanks scores composite
      coverage := scores.map fun factor =>
        (factor.1, ((finites factor.2).length : K) / ((collectSymbols matrix).length : K))
      nEligible := (finites composite).length
      nTotal := (collectSymbols matrix).length }

end

end FinDashboard.Factors
