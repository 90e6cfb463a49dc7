import FinDashboard.Ledger.Dictionary
import FinDashboard.Runs.RowWise
import Mathlib.Algebra.BigOperators.Group.List.Basic
import Mathlib.Algebra.Field.Defs
import Mathlib.Algebra.Order.Floor.Defs
import Mathlib.Data.String.Basic

/-!
# Standardising a cross section

The cross section of a factor is a dictionary from symbols to values. The steps of the scoring
pipeline fill, clip, standardise and neutralise it; each of them treats every symbol alike, with
statistics that do not depend on the order of the dictionary.
-/

namespace FinDashboard.Factors

open Ledger

/-- A float: a number, an infinity or undefined. -/
inductive Value (K : Type)
  | finite (x : K)
  | posInf
  | negInf
  | nan
deriving DecidableEq

def Value.finite? {K : Type} : Value K → Option K
  | .finite x => some x
  | _ => none

abbrev Column (K : Type) := List (String × Value K)

/-- What the pipeline takes from the numeric library: the root, the logarithm, and the intercept
and slope of a least squares fit of pairs of a control and a value. -/
structure Numerics (K : Type) where
  sqrt : K → K
  log : K → K
  lstsq : List (K × K) → K × K

variable {K : Type}

def finites (values : Column K) : List K := values.filterMap fun row => row.2.finite?

theorem finites_perm {values others : Column K} (shuffled : values.Perm others) :
    (finites values).Perm (finites others) := shuffled.filterMap _

section

variable [Field K] [LinearOrder K]

-- The numerals below share these two proofs.
local instance atLeastTwo_two : Nat.AtLeastTwo 2 := inferInstance

local instance atLeastTwo_ten : Nat.AtLeastTwo 10 := inferInstance

/-- `1e-12`. -/
def eps : K := (10 ^ 12)⁻¹

def mean (sample : List K) : K := sample.sum / (sample.length : K)

/-- `std(ddof=0)`. -/
def std (numerics : Numerics K) (sample : List K) : K :=
  numerics.sqrt (mean (sample.map fun x => (x - mean sample) ^ 2))

def sorted (sample : List K) : List K := sortedOn id sample

/-- The middle of the sorted sample, or half way between the two in the middle. -/
def median (sample : List K) : K :=
  let middle := sample.length / 2
  if sample.length % 2 = 1 then (sorted sample).getD middle 0
  else ((sorted sample).getD (middle - 1) 0 + (sorted sample).getD middle 0) / 2

/-- Linear interpolation between the two neighbours in the sorted sample. -/
def quantile [FloorSemiring K] (sample : List K) (fraction : K) : K :=
  let place : K := fraction * ((sample.length - 1 : ℕ) : K)
  let below := (sorted sample).getD ⌊place⌋₊ 0
  let above := (sorted sample).getD (min (⌊place⌋₊ + 1) (sample.length - 1)) 0
  below + (above - below) * (place - (⌊place⌋₊ : K))

def minimum (sample : List K) : K := (sorted sample).headD 0

/-- The mean rank of a value: `count[dense]` values are at most as large and `count[dense - 1]`
smaller. -/
def rankdata (sample : List K) (x : K) : K :=
  (((sample.countP (· ≤ x) + sample.countP (· < x) + 1 : ℕ) : K)) / 2

inductive MissingStrategy
  | exclude | fillMedian | fillWorst
deriving DecidableEq

def fillValue (strategy : MissingStrategy) (sample : List K) : Option K :=
  if sample = [] then none
  else match strategy with
    | .exclude => none
    | .fillMedian => some (median sample)
    | .fillWorst => some (minimum sample)

def fill (filler : Option K) (value : Value K) : Value K :=
  match filler, value with
  | some x, .posInf | some x, .negInf | some x, .nan => .finite x
  | _, value => value

def fillMissing (strategy : MissingStrategy) (values : Column K) : Column K :=
  values.map fun row => (row.1, fill (fillValue strategy (finites values)) row.2)

/-- The bounds of the clip, where two values or more are finite and the bounds are apart. -/
def winsorBounds [FloorSemiring K] (lowerPct upperPct : K) (sample : List K) : Option (K × K) :=
  if sample.length < 2 then none
  else if quantile sample upperPct ≤ quantile sample lowerPct then none
  else some (quantile sample lowerPct, quantile sample upperPct)

def clip (bounds : Option (K × K)) (value : Value K) : Value K :=
  match bounds, value with
  | some (low, high), .finite x => .finite (min (max x low) high)
  | some (_, high), .posInf => .finite high
  | some (low, _), .negInf => .finite low
  | _, value => value

def winsorize [FloorSemiring K] (lowerPct upperPct : K) (values : Column K) : Column K :=
  values.map fun row => (row.1, clip (winsorBounds lowerPct upperPct (finites values)) row.2)

/-- A finite value centred and scaled; zero where the sample has no spread. -/
def standardized (centre : Option (K × K)) (value : Value K) : Value K :=
  match value with
  | .finite x => .finite (centre.elim 0 fun (mu, sigma) => (x - mu) / sigma)
  | _ => .nan

def spread (numerics : Numerics K) (sample : List K) : Option (K × K) :=
  if sample.length < 2 then none
  else if std numerics sample < eps then none
  else some (mean sample, std numerics sample)

def zscore (numerics : Numerics K) (values : Column K) : Column K :=
  values.map fun row => (row.1, standardized (spread numerics (finites values)) row.2)

/-- The rank of a value between zero and one. -/
def uniformRank (sample : List K) (x : K) : K :=
  (rankdata sample x - 1) / ((max (sample.length - 1) 1 : ℕ) : K)

/-- Ranks between zero and one, standardised. -/
def rankNormalize (numerics : Numerics K) (values : Column K) : Column K :=
  let sample := finites values
  let uniform := sample.map (uniformRank sample)
  values.map fun row => (row.1, standardized (spread numerics uniform) (match row.2 with
      | .finite x => .finite (uniformRank sample x)
      | value => value))

def unknownIndustry : String := "__unknown__"

def industryOf (industryMap : List (String × String)) (symbol : String) : String :=
  (find symbol industryMap).getD unknownIndustry

def industryMembers (industryMap : List (String × String)) (values : Column K)
    (industry : String) : List K :=
  finites (values.filter fun row => industryOf industryMap row.1 = industry)

/-- The median of an industry with three members or more, and of all values otherwise. -/
def industryMedian (industryMap : List (String × String)) (values : Column K) (industry : String) : K :=
  let members := industryMembers industryMap values industry
  if 3 ≤ members.length then median members else median (finites values)

def industryMedians (industryMap : List (String × String)) (values : Column K) : Option (String → K) :=
  if finites values = [] then none else some (industryMedian industryMap values)

def demean (industryMap : List (String × String)) (medians : Option (String → K))
    (row : String × Value K) : Value K :=
  match medians, row.2 with
  | none, value => value
  | some medians, .finite x => .finite (x - medians (industryOf industryMap row.1))
  | some _, _ => .nan

def industryDemean (industryMap : List (String × String)) (values : Column K) : Column K :=
  values.map fun row => (row.1, demean industryMap (industryMedians industryMap values) row)

def regressionPairs (control values : Column K) : List (K × K) :=
  (sortedSet ((values.map (·.1)).filter (· ∈ control.map (·.1)))).filterMap fun symbol =>
    match (find symbol control).bind Value.finite?, (find symbol values).bind Value.finite? with
    | some x, some y => some (x, y)
    | _, _ => none

def regressionFit (numerics : Numerics K) (pairs : List (K × K)) : Option (K × K) :=
  if pairs.length < 3 then none else some (numerics.lstsq pairs)

def residual (control : Column K) (fit : Option (K × K)) (row : String × Value K) : Value K :=
  match fit, row.2, (find row.1 control).bind Value.finite? with
  | some (intercept, slope), .finite y, some x => .finite (y - (intercept + slope * x))
  | _, value, _ => value

def regressionNeutralize (numerics : Numerics K) (control values : Column K) : Column K :=
  values.map fun row =>
    (row.1, residual control (regressionFit numerics (regressionPairs control values)) row)

def flip (value : Value K) : Value K :=
  match value with
  | .finite x => .finite (-x)
  | _ => .nan

/-- `apply_direction` with the sign of a direction. -/
def applyDirection (long : Bool) (values : Column K) : Column K :=
  if long then values else values.map fun row => (row.1, flip row.2)

end

section

variable [Field K] [LinearOrder K] {sample others : List K}

omit [Field K] in
theorem sorted_perm (shuffled : sample.Perm others) : sorted others = sorted sample :=
  (sortedOn_eq_of_perm shuffled fun _ _ _ _ same => same).symm

omit [LinearOrder K] in
theorem mean_perm (shuffled : sample.Perm others) : mean others = mean sample := by
  rw [mean, mean, shuffled.sum_eq, shuffled.length_eq]

omit [LinearOrder K] in
theorem std_perm (numerics : Numerics K) (shuffled : sample.Perm others) :
    std numerics others = std numerics sample := by
  rw [std, std, mean_perm shuffled, mean_perm (shuffled.map _)]

theorem median_perm (shuffled : sample.Perm others) : median others = median sample := by
  simp only [median, sorted_perm shuffled, shuffled.length_eq]

theorem quantile_perm [FloorSemiring K] (shuffled : sample.Perm others) (fraction : K) :
    quantile others fraction = quantile sample fraction := by
  simp only [quantile, sorted_perm shuffled, shuffled.length_eq]

theorem fillValue_perm (strategy : MissingStrategy) (shuffled : sample.Perm others) :
    fillValue strategy others = fillValue strategy sample := by
  have empty : others = [] ↔ sample = [] :=
    ⟨fun none => (none ▸ shuffled).eq_nil, fun none => (none ▸ shuffled).symm.eq_nil⟩
  simp only [fillValue, empty, median_perm shuffled, minimum, sorted_perm shuffled]

theorem winsorBounds_perm [FloorSemiring K] (lowerPct upperPct : K) (shuffled : sample.Perm others) :
    winsorBounds lowerPct upperPct others = winsorBounds lowerPct upperPct sample := by
  simp only [winsorBounds, quantile_perm shuffled, shuffled.length_eq]

theorem spread_perm (numerics : Numerics K) (shuffled : sample.Perm others) :
    spread numerics others = spread numerics sample := by
  simp only [spread, std_perm numerics shuffled, mean_perm shuffled, shuffled.length_eq]

theorem uniformRank_perm (shuffled : sample.Perm others) : uniformRank others = uniformRank sample := by
  funext x
  simp only [uniformRank, rankdata, shuffled.countP_eq, shuffled.length_eq]

theorem rowWise_fillMissing (strategy : MissingStrategy) : RowWise (fillMissing (K := K) strategy) :=
  RowWise.of_statistic (fun rows => fillValue strategy (finites rows))
    (fun filler row => fill filler row.2) (fun _ => rfl)
    fun _ _ _ shuffled => fillValue_perm strategy (finites_perm shuffled)

theorem rowWise_winsorize [FloorSemiring K] (lowerPct upperPct : K) :
    RowWise (winsorize lowerPct upperPct) :=
  RowWise.of_statistic (fun rows => winsorBounds lowerPct upperPct (finites rows))
    (fun bounds row => clip bounds row.2) (fun _ => rfl)
    fun _ _ _ shuffled => winsorBounds_perm lowerPct upperPct (finites_perm shuffled)

theorem rowWise_zscore (numerics : Numerics K) : RowWise (zscore numerics) :=
  RowWise.of_statistic (fun rows => spread numerics (finites rows))
    (fun centre row => standardized centre row.2) (fun _ => rfl)
    fun _ _ _ shuffled => spread_perm numerics (finites_perm shuffled)

theorem rowWise_rankNormalize (numerics : Numerics K) : RowWise (rankNormalize numerics) := by
  refine RowWise.of_statistic
    (fun rows => (spread numerics ((finites rows).map (uniformRank (finites rows))),
      uniformRank (finites rows)))
    (fun (centre, rank) row => standardized centre (match row.2 with
      | .finite x => .finite (rank x)
      | value => value)) (fun _ => rfl) ?_
  intro rows others _ shuffled
  have samples := finites_perm shuffled
  simp only [uniformRank_perm samples, spread_perm numerics (samples.map _)]

theorem industryMedian_perm (industryMap : List (String × String)) {values others : Column K}
    (shuffled : values.Perm others) :
    industryMedian industryMap others = industryMedian industryMap values := by
  funext industry
  have members : (industryMembers industryMap values industry).Perm
      (industryMembers industryMap others industry) := finites_perm (shuffled.filter _)
  simp only [industryMedian, median_perm members, members.length_eq, median_perm (finites_perm shuffled)]

theorem rowWise_industryDemean (industryMap : List (String × String)) :
    RowWise (industryDemean (K := K) industryMap) := by
  refine RowWise.of_statistic (industryMedians industryMap) (demean industryMap) (fun _ => rfl) ?_
  intro rows others _ shuffled
  have samples := finites_perm shuffled
  have empty : finites others = [] ↔ finites rows = [] :=
    ⟨fun none => (none ▸ samples).eq_nil, fun none => (none ▸ samples).symm.eq_nil⟩
  simp only [industryMedians, empty, industryMedian_perm industryMap shuffled]

omit [Field K] [LinearOrder K] in
theorem regressionPairs_perm (control : Column K) {values others : Column K}
    (apart : (values.map Prod.fst).Nodup) (shuffled : values.Perm others) :
    regressionPairs control others = regressionPairs control values := by
  have symbols : sortedSet ((others.map (·.1)).filter (· ∈ control.map (·.1))) =
      sortedSet ((values.map (·.1)).filter (· ∈ control.map (·.1))) :=
    sortedSet_congr fun _ => ((shuffled.map _).filter _).symm.mem_iff
  unfold regressionPairs
  rw [symbols]
  simp only [find_perm apart shuffled]

omit [LinearOrder K] in
theorem rowWise_regressionNeutralize (numerics : Numerics K) (control : Column K) :
    RowWise (regressionNeutralize numerics control) :=
  RowWise.of_statistic (fun rows => regressionFit numerics (regressionPairs control rows))
    (fun fit row => residual control fit row) (fun _ => rfl)
    fun _ _ apart shuffled => by rw [regressionPairs_perm control apart shuffled]

omit [LinearOrder K] in
theorem rowWise_applyDirection (long : Bool) : RowWise (applyDirection (K := K) long) := by
  cases long with
  | true => exact RowWise.id
  | false => exact RowWise.of_map (fun row => flip row.2) fun _ => rfl

end

end FinDashboard.Factors
