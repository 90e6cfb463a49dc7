import FinDashboard.Portfolio.Constraints
import FinDashboard.Runs.Fallible

/-!
# The cap on risk contributions

The weights whose share in the variance of the portfolio exceeds the cap are scaled down, in rounds, until
no share exceeds it. Scaling one weight raises the shares of the others, and the number of rounds is
bounded: whatever the rounds return has been measured again.
-/

namespace FinDashboard.Portfolio

open List

open Ledger (total)

/-- `CovarianceEstimate`: a row and a column of the matrix for every ticker. -/
structure CovarianceEstimate (K : Type) where
  tickers : List String
  matrix : ℕ → ℕ → K
  tickers_given : tickers ≠ []

inductive RiskBudgetError
  | threshold
  | maxIterations
  | tolerance
  | shortPosition
  | missingTickers (symbols : List String)
  | infeasible
  | variance
  | compressed
  | notConverged (argmax : String)
deriving DecidableEq, Repr

def firstMax {K : Type} [LinearOrder K] (value : String → K) : List String → Option String
  | [] => none
  | symbol :: rest =>
      match firstMax value rest with
      | none => some symbol
      | some best => if value symbol < value best then some best else some symbol

section Model

variable {K : Type} [Field K] [LinearOrder K]

/-- The symbols, sorted. -/
def Weights.codes (weights : Weights K) : List String :=
  (weights.entries.map Prod.fst).insertionSort (· ≤ ·)

namespace CovarianceEstimate

/-- The row of a ticker: the last one, if it is listed twice. -/
def index (covariance : CovarianceEstimate K) (ticker : String) : Option ℕ :=
  (range covariance.tickers.length).reverse.find? fun i => covariance.tickers[i]? = some ticker

/-- The weights in the order of the rows. -/
def vector (covariance : CovarianceEstimate K) (candidate : Weights K) (i : ℕ) : K :=
  (covariance.tickers[i]?).elim 0 fun ticker =>
    if covariance.index ticker = some i then candidate.get ticker else 0

/-- `covariance.matrix @ vector`. -/
def marginal (covariance : CovarianceEstimate K) (candidate : Weights K) (i : ℕ) : K :=
  total (fun j => covariance.matrix i j * covariance.vector candidate j)
    (range covariance.tickers.length)

def variance (covariance : CovarianceEstimate K) (candidate : Weights K) : K :=
  total (fun i => covariance.vector candidate i * covariance.marginal candidate i)
    (range covariance.tickers.length)

/-- The share of a row in the variance. -/
def ratio (covariance : CovarianceEstimate K) (candidate : Weights K) (i : ℕ) : K :=
  covariance.vector candidate i * covariance.marginal candidate i / covariance.variance candidate

def contribution (covariance : CovarianceEstimate K) (candidate : Weights K) (symbol : String) : K :=
  (covariance.index symbol).elim 0 (covariance.ratio candidate)

end CovarianceEstimate

/-- The largest share, its symbol and the shares of all. -/
structure Concentration (K : Type) where
  largest : K
  argmax : String
  ratios : String → K

def concentration (covariance : CovarianceEstimate K) (candidate : Weights K) :
    Except RiskBudgetError (Concentration K) :=
  if covariance.variance candidate ≤ maxWeightEpsilon then .error .variance
  else
    let ratios := covariance.contribution candidate
    let argmax := (firstMax ratios candidate.codes).getD ""
    .ok { largest := ratios argmax, argmax, ratios }

/-- `RiskContributionProjection`; what is returned has converged. -/
structure RiskContributionProjection (K : Type) where
  weights : Weights K
  beforeMaxContribution : K
  afterMaxContribution : K
  beforeArgmax : String
  afterArgmax : String
  iterations : ℕ
deriving DecidableEq

/-- The factor of a symbol above the threshold; `root` is what the square root yields in a round. -/
def shrinkFactor (root : K → K) (threshold contribution : K) : K :=
  min ((99 : ℕ) / (100 : ℕ)) (max ((10 : ℕ) / (100 : ℕ)) (root (threshold / contribution)))

/-- The symbols above the threshold are scaled, and weights of nothing are dropped. -/
def reduceContributions (root : String → K → K) (threshold tolerance : K) (projected : Weights K)
    (ratios : String → K) : Weights K :=
  (projected.update fun symbol weight =>
    if threshold + tolerance < ratios symbol then
      weight * shrinkFactor (root symbol) threshold (ratios symbol)
    else weight).filter fun weight => maxWeightEpsilon < weight

def contributionRounds (root : ℕ → String → K → K) (covariance : CovarianceEstimate K)
    (threshold tolerance : K) (start : Concentration K) :
    ℕ → ℕ → Weights K → (String → K) → Except RiskBudgetError (RiskContributionProjection K)
  | 0, _, projected, _ =>
      (concentration covariance projected).bind fun after => .error (.notConverged after.argmax)
  | remaining + 1, iteration, projected, ratios =>
      if projected.codes.all fun symbol => decide (ratios symbol ≤ threshold + tolerance) then
        (concentration covariance projected).map fun after =>
          { weights := projected
            beforeMaxContribution := start.largest
            afterMaxContribution := after.largest
            beforeArgmax := start.argmax
            afterArgmax := after.argmax
            iterations := iteration - 1 }
      else
        let reduced := reduceContributions (root iteration) threshold tolerance projected ratios
        if reduced.entries = [] then .error .compressed
        else
          (concentration covariance reduced).bind fun after =>
            if after.largest ≤ threshold + tolerance then .ok
              { weights := reduced
                beforeMaxContribution := start.largest
                afterMaxContribution := after.largest
                beforeArgmax := start.argmax
                afterArgmax := after.argmax
                iterations := iteration }
            else contributionRounds root covariance threshold tolerance start remaining
              (iteration + 1) reduced after.ratios

theorem contributionRounds_succ (root : ℕ → String → K → K) (covariance : CovarianceEstimate K)
    (threshold tolerance : K) (start : Concentration K) (remaining iteration : ℕ) (projected : Weights K)
    (ratios : String → K) :
    contributionRounds root covariance threshold tolerance start (remaining + 1) iteration projected ratios =
      if projected.codes.all fun symbol => decide (ratios symbol ≤ threshold + tolerance) then
        (concentration covariance projected).map fun after =>
          { weights := projected
            beforeMaxContribution := start.largest
            afterMaxContribution := after.largest
            beforeArgmax := start.argmax
            afterArgmax := after.argmax
            iterations := iteration - 1 }
      else if (reduceContributions (root iteration) threshold tolerance projected ratios).entries = [] then
        .error .compressed
      else
        (concentration covariance
            (reduceContributions (root iteration) threshold tolerance projected ratios)).bind fun after =>
          if after.largest ≤ threshold + tolerance then .ok
            { weights := reduceContributions (root iteration) threshold tolerance projected ratios
              beforeMaxContribution := start.largest
              afterMaxContribution := after.largest
              beforeArgmax := start.argmax
              afterArgmax := after.argmax
              iterations := iteration }
          else contributionRounds root covariance threshold tolerance start remaining (iteration + 1)
            (reduceContributions (root iteration) threshold tolerance projected ratios) after.ratios := rfl

def emptyProjection : RiskContributionProjection K where
  weights := { entries := [], nodup := nodup_nil }
  beforeMaxContribution := 0
  afterMaxContribution := 0
  beforeArgmax := ""
  afterArgmax := ""
  iterations := 0

/-- `root` stands for the square root, round by round and symbol by symbol. -/
def enforceRiskContributionCap (root : ℕ → String → K → K) (covariance : CovarianceEstimate K)
    (weights : Weights K) (threshold : K) (maxIterations : ℤ) (tolerance : K) :
    Except RiskBudgetError (RiskContributionProjection K) :=
  if ¬(0 < threshold ∧ threshold ≤ 1) then .error .threshold
  else if maxIterations ≤ 0 then .error .maxIterations
  else if tolerance ≤ 0 then .error .tolerance
  else if weights.entries = [] then .ok emptyProjection
  else if weights.entries.any fun entry => decide (entry.2 < -maxWeightEpsilon) then .error .shortPosition
  else
    let missing := weights.codes.filter fun code => code ∉ covariance.tickers
    if missing ≠ [] then .error (.missingTickers missing)
    else
      let active := weights.filter fun weight => maxWeightEpsilon < weight
      if active.entries = [] then .ok emptyProjection
      else if threshold + tolerance < 1 / (active.entries.length : K) then .error .infeasible
      else
        (concentration covariance active).bind fun start =>
          if start.largest ≤ threshold + tolerance then .ok
            { weights := active
              beforeMaxContribution := start.largest
              afterMaxContribution := start.largest
              beforeArgmax := start.argmax
              afterArgmax := start.argmax
              iterations := 0 }
          else contributionRounds root covariance threshold tolerance start maxIterations.toNat 1 active
            start.ratios

section Measured

variable {covariance : CovarianceEstimate K} {candidate : Weights K} {cap : K}

theorem mem_codes {K : Type} {candidate : Weights K} {symbol : String} :
    symbol ∈ candidate.codes ↔ symbol ∈ candidate.entries.map Prod.fst :=
  (perm_insertionSort _ _).mem_iff

theorem le_firstMax {K : Type} [LinearOrder K] (value : String → K) {symbols : List String} {symbol : String}
    (member : symbol ∈ symbols) : ∃ best, firstMax value symbols = some best ∧ value symbol ≤ value best := by
  induction symbols with
  | nil => cases member
  | cons first rest ih =>
    unfold firstMax
    cases found : firstMax value rest with
    | none =>
      rcases mem_cons.mp member with rfl | later
      · exact ⟨symbol, rfl, le_refl _⟩
      · obtain ⟨best, same, -⟩ := ih later
        rw [found] at same
        cases same
    | some best =>
      by_cases less : value first < value best
      · refine ⟨best, if_pos less, ?_⟩
        rcases mem_cons.mp member with rfl | later
        · exact less.le
        · obtain ⟨other, same, le⟩ := ih later
          rw [found] at same
          exact le.trans_eq (by rw [Option.some.inj same])
      · refine ⟨first, if_neg less, ?_⟩
        rcases mem_cons.mp member with rfl | later
        · exact le_refl _
        · obtain ⟨other, same, le⟩ := ih later
          rw [found] at same
          rw [← Option.some.inj same] at le
          exact le.trans (not_lt.mp less)

theorem concentration_ok {found : Concentration K} (measured : concentration covariance candidate = .ok found) :
    found.ratios = covariance.contribution candidate ∧
      ∀ symbol ∈ candidate.codes, covariance.contribution candidate symbol ≤ found.largest := by
  unfold concentration at measured
  split at measured
  · cases measured
  · obtain rfl := Except.ok.inj measured
    refine ⟨rfl, fun symbol member => ?_⟩
    obtain ⟨best, same, le⟩ := le_firstMax (covariance.contribution candidate) member
    simp only [same, Option.getD_some]
    exact le

theorem ratio_le (nonneg : 0 ≤ cap)
    (bounded : ∀ symbol ∈ candidate.codes, covariance.contribution candidate symbol ≤ cap) (i : ℕ) :
    covariance.ratio candidate i ≤ cap := by
  by_cases empty : covariance.vector candidate i = 0
  · rw [CovarianceEstimate.ratio, empty, zero_mul, zero_div]
    exact nonneg
  · unfold CovarianceEstimate.vector at empty
    cases listed : covariance.tickers[i]? with
    | none => simp [listed] at empty
    | some ticker =>
      rw [listed, Option.elim_some] at empty
      have own : covariance.index ticker = some i := by
        by_contra other
        exact empty (if_neg other)
      rw [if_pos own] at empty
      have held : ticker ∈ candidate.codes := by
        rw [mem_codes]
        by_contra unlisted
        exact empty (Weights.get_of_not_mem unlisted)
      have share := bounded ticker held
      rw [CovarianceEstimate.contribution, own] at share
      exact share

end Measured

variable [IsStrictOrderedRing K]

theorem shrinkFactor_bounds (root : K → K) (threshold contribution : K) :
    0 ≤ shrinkFactor root threshold contribution ∧ shrinkFactor root threshold contribution ≤ 1 := by
  unfold shrinkFactor
  constructor
  · apply le_min
    · norm_num
    · exact le_max_of_le_left (by norm_num)
  · exact (min_le_left _ _).trans (by norm_num)

theorem reduceContributions_reduced (root : String → K → K) (threshold tolerance : K) (projected : Weights K)
    (ratios : String → K) :
    Reduced projected (reduceContributions root threshold tolerance projected ratios) := by
  have shrinks : ∀ code weight, Shrunk weight (if threshold + tolerance < ratios code then
      weight * shrinkFactor (root code) threshold (ratios code) else weight) := by
    intro code weight
    have bounds := shrinkFactor_bounds (root code) threshold (ratios code)
    split
    · exact Shrunk.scaled bounds.1 bounds.2 weight
    · exact Shrunk.refl weight
  exact (Reduced.update shrinks projected).trans (Reduced.filter _ _)

/-- A projection that keeps to the cap. -/
structure Capped (covariance : CovarianceEstimate K) (cap : K) (weights projected : Weights K) : Prop where
  reduced : Reduced weights projected
  within : ∀ i, covariance.ratio projected i ≤ cap

theorem contributionRounds_capped {root : ℕ → String → K → K} {covariance : CovarianceEstimate K}
    {threshold tolerance : K} {start : Concentration K} {remaining iteration : ℕ}
    {weights projected : Weights K} {ratios : String → K} {projection : RiskContributionProjection K}
    (nonneg : 0 ≤ threshold + tolerance) (reduced : Reduced weights projected)
    (measured : ratios = covariance.contribution projected)
    (returned : contributionRounds root covariance threshold tolerance start remaining iteration projected
      ratios = .ok projection) :
    Capped covariance (threshold + tolerance) weights projection.weights := by
  induction remaining generalizing iteration projected ratios with
  | zero =>
    obtain ⟨after, -, refused⟩ := bind_eq_ok.mp returned
    cases refused
  | succ remaining ih =>
    rw [contributionRounds_succ] at returned
    split at returned
    · rename_i settled
      cases found : concentration covariance projected with
      | error error =>
        rw [found] at returned
        cases returned
      | ok after =>
        rw [found] at returned
        obtain rfl := Except.ok.inj returned
        refine ⟨reduced, ratio_le nonneg fun symbol member => ?_⟩
        rw [← measured]
        exact of_decide_eq_true (all_eq_true.mp settled symbol member)
    · have less := reduced.trans (reduceContributions_reduced (root iteration) threshold tolerance projected ratios)
      split at returned
      · cases returned
      · obtain ⟨after, found, returned⟩ := bind_eq_ok.mp returned
        obtain ⟨shares, bounded⟩ := concentration_ok found
        split at returned
        · rename_i within
          obtain rfl := Except.ok.inj returned
          exact ⟨less, ratio_le nonneg fun symbol member => (bounded symbol member).trans within⟩
        · exact ih less shares returned

theorem emptyProjection_capped {covariance : CovarianceEstimate K} {cap : K} (nonneg : 0 ≤ cap)
    (weights : Weights K) : Capped covariance cap weights (emptyProjection (K := K)).weights := by
  refine ⟨⟨by simp [emptyProjection], ?_⟩, ratio_le nonneg (by simp [emptyProjection, Weights.codes])⟩
  constructor
  · exact fun code => Shrunk.zero _
  · exact fun counts => weights.exposure_nonneg counts

theorem enforceRiskContributionCap_capped {root : ℕ → String → K → K} {covariance : CovarianceEstimate K}
    {weights : Weights K} {threshold : K} {maxIterations : ℤ} {tolerance : K}
    {projection : RiskContributionProjection K}
    (returned : enforceRiskContributionCap root covariance weights threshold maxIterations tolerance =
      .ok projection) : Capped covariance (threshold + tolerance) weights projection.weights := by
  unfold enforceRiskContributionCap at returned
  obtain ⟨valid, returned⟩ := ok_of_guard returned
  obtain ⟨-, returned⟩ := ok_of_guard returned
  obtain ⟨tolerated, returned⟩ := ok_of_guard returned
  have nonneg : 0 ≤ threshold + tolerance := by linarith [(not_not.mp valid).1]
  by_cases empty : weights.entries = []
  · rw [if_pos empty] at returned
    obtain rfl := Except.ok.inj returned
    exact emptyProjection_capped nonneg weights
  · rw [if_neg empty] at returned
    obtain ⟨-, returned⟩ := ok_of_guard returned
    obtain ⟨-, returned⟩ := ok_of_guard returned
    by_cases inactive : (weights.filter fun weight => maxWeightEpsilon < weight).entries = []
    · rw [if_pos inactive] at returned
      obtain rfl := Except.ok.inj returned
      exact emptyProjection_capped nonneg weights
    · rw [if_neg inactive] at returned
      obtain ⟨-, returned⟩ := ok_of_guard returned
      have active := Reduced.filter (fun weight => maxWeightEpsilon < weight) weights
      obtain ⟨start, found, returned⟩ := bind_eq_ok.mp returned
      obtain ⟨shares, bounded⟩ := concentration_ok found
      by_cases within : start.largest ≤ threshold + tolerance
      · rw [if_pos within] at returned
        obtain rfl := Except.ok.inj returned
        exact ⟨active, ratio_le nonneg fun symbol member => (bounded symbol member).trans within⟩
      · rw [if_neg within] at returned
        exact contributionRounds_capped nonneg active shares returned

/-- Every run of the projection ends. If it returns, no symbol is new, no weight is larger, and no
share in the variance exceeds the threshold by more than the tolerance. -/
theorem contribution_cap_enforced (root : ℕ → String → K → K) (covariance : CovarianceEstimate K)
    (weights : Weights K) (threshold : K) (maxIterations : ℤ) (tolerance : K)
    (projection : RiskContributionProjection K)
    (returned : enforceRiskContributionCap root covariance weights threshold maxIterations tolerance =
      .ok projection) :
    (∀ symbol ∈ projection.weights.entries.map Prod.fst, symbol ∈ weights.entries.map Prod.fst) ∧
      (∀ symbol, |projection.weights.get symbol| ≤ |weights.get symbol|) ∧
      ∀ i, covariance.ratio projection.weights i ≤ threshold + tolerance := by
  have capped := enforceRiskContributionCap_capped returned
  exact ⟨capped.reduced.symbols, fun symbol => (capped.reduced.below.weight symbol).abs_le, capped.within⟩

end Model

/-- Two uncorrelated assets, with variances of 25 and 7. -/
def twoAssets : CovarianceEstimate ℚ where
  tickers := ["A", "B"]
  matrix i j := if i ≠ j then 0 else if i = 0 then 25 else 7
  tickers_given := by simp

def evenWeights : Weights ℚ where
  entries := [("A", 1 / 10), ("B", 1 / 10)]
  nodup := by decide

/-- The root of 16 / 25, the only one that is taken here. -/
def fourFifths : ℕ → String → ℚ → ℚ := fun _ _ x => if x = 16 / 25 then 4 / 5 else x

def cappedWeights : RiskContributionProjection ℚ where
  weights := { entries := [("A", 8 / 100), ("B", 1 / 10)], nodup := by decide }
  beforeMaxContribution := 25 / 32
  afterMaxContribution := 16 / 23
  beforeArgmax := "A"
  afterArgmax := "A"
  iterations := 1

theorem contribution_cap_enforced_two_assets :
    enforceRiskContributionCap fourFifths twoAssets evenWeights (1 / 2) 1000 (1 / 5) = .ok cappedWeights ∧
    (∀ symbol ∈ cappedWeights.weights.entries.map Prod.fst, symbol ∈ evenWeights.entries.map Prod.fst) ∧
      (∀ symbol, |cappedWeights.weights.get symbol| ≤ |evenWeights.get symbol|) ∧
      ∀ i, twoAssets.ratio cappedWeights.weights i ≤ 1 / 2 + 1 / 5 :=
  have returned : enforceRiskContributionCap fourFifths twoAssets evenWeights (1 / 2) 1000 (1 / 5) =
      .ok cappedWeights := by decide +kernel
  ⟨returned, contribution_cap_enforced fourFifths twoAssets evenWeights (1 / 2) 1000 (1 / 5) cappedWeights
    returned⟩

end FinDashboard.Portfolio
