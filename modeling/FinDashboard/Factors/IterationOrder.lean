import FinDashboard.Factors.Scorer

/-!
# Scores and ranks under another iteration order

The scores of a symbol do not depend on the order in which dictionaries and sets are walked. The
ranks do where two symbols have the same score: equal scores are ranked as they come.
-/

namespace FinDashboard.Factors

open Ledger List

variable {K : Type}

/-- The same columns, each with its rows in another order. -/
def Reordered (matrix other : FactorMatrix K) : Prop :=
  List.Forall₂ (fun factor moved => factor.1 = moved.1 ∧ factor.2.Perm moved.2) matrix other

theorem Reordered.refl (matrix : FactorMatrix K) : Reordered matrix matrix :=
  forall₂_same.mpr fun _ _ => ⟨rfl, List.Perm.refl _⟩

variable {matrix other : FactorMatrix K}

theorem Reordered.find_rel (moved : Reordered matrix other)
    (name : String) : (find name matrix).Rel List.Perm (find name other) := by
  induction moved with
  | nil => exact .none
  | cons same _ ih =>
    rw [find_cons, find_cons, ← same.1]
    split_ifs
    · exact .some same.2
    · exact ih

theorem Reordered.find (moved : Reordered matrix other) (name : String) :
    ((find name matrix).getD []).Perm ((find name other).getD []) := by
  have columns := moved.find_rel name
  generalize Ledger.find name matrix = first at columns ⊢
  generalize Ledger.find name other = second at columns ⊢
  cases columns with
  | none => exact List.Perm.refl _
  | some perm => exact perm

theorem Reordered.find_of_mem (moved : Reordered matrix other)
    (apart : (matrix.map Prod.fst).Nodup) {factor : String × Column K} (member : factor ∈ matrix) :
    ∃ column, Ledger.find factor.1 other = some column ∧ factor.2.Perm column := by
  have columns := moved.find_rel factor.1
  rw [Ledger.find_of_mem apart member] at columns
  generalize Ledger.find factor.1 other = found at columns ⊢
  cases columns with
  | @some _ column perm => exact ⟨column, rfl, perm⟩

theorem Reordered.assign {matrix : FactorMatrix K} {name : String} {raw moved : Column K}
    (known : Ledger.find name matrix = some raw) (shuffled : raw.Perm moved) :
    Reordered matrix (assign name moved matrix) := by
  induction matrix with
  | nil => cases known
  | cons factor rest ih =>
    rw [find_cons] at known
    rw [Ledger.assign]
    split_ifs at known ⊢ with same
    · cases known
      exact List.Forall₂.cons ⟨same, shuffled⟩ (Reordered.refl rest)
    · exact List.Forall₂.cons ⟨rfl, List.Perm.refl _⟩ (ih known)

/-- A dictionary lists each symbol once. -/
def Keyed (matrix : FactorMatrix K) : Prop := ∀ factor ∈ matrix, (factor.2.map Prod.fst).Nodup

theorem Keyed.find {matrix : FactorMatrix K} (keyed : Keyed matrix) (name : String) :
    (((Ledger.find name matrix).getD []).map Prod.fst).Nodup := by
  cases known : Ledger.find name matrix with
  | none => exact nodup_nil
  | some column => exact keyed _ (mem_of_find known)

theorem perm_ne_nil {α : Type} {items others : List α} (shuffled : items.Perm others) :
    others ≠ [] ↔ items ≠ [] :=
  not_congr ⟨fun none => (none ▸ shuffled).eq_nil, fun none => (none ▸ shuffled).symm.eq_nil⟩

section

variable [Field K] [LinearOrder K] (numerics : Numerics K) (config : ScoringConfig K)

theorem rowWise_standardizeBy (method : StandardizeMethod) : RowWise (standardizeBy numerics method) := by
  cases method with
  | zscore => exact rowWise_zscore numerics
  | rank => exact rowWise_rankNormalize numerics
  | none => exact RowWise.of_map (fun row => row.2.finite?.elim .nan .finite) fun _ => rfl

theorem rowWise_processFactor [FloorSemiring K] (factor : FactorMeta K)
    (industryMap : List (String × String)) (marketCaps : Column K) :
    RowWise (processFactor numerics config factor industryMap marketCaps) := by
  have filled := rowWise_fillMissing (K := K) factor.missingStrategy
  have clipped := (rowWise_winsorize factor.winsorizeLowerPct factor.winsorizeUpperPct).comp filled
  have standard := (rowWise_standardizeBy numerics factor.standardize).comp clipped
  have demeaned := ((rowWise_industryDemean industryMap).ite
    (config.industryNeutralize ∧ industryMap ≠ []) RowWise.id).comp standard
  have neutral := ((rowWise_regressionNeutralize numerics (logCaps numerics marketCaps)).ite
    (config.capNeutralize ∧ marketCaps ≠ []) RowWise.id).comp demeaned
  exact (rowWise_applyDirection factor.long).comp neutral

/-- Another order of the industries and of the market values. -/
theorem processFactor_congr [FloorSemiring K] (factor : FactorMeta K)
    {industryMap otherMap : List (String × String)} {marketCaps otherCaps : Column K}
    (industriesKeyed : (industryMap.map Prod.fst).Nodup) (industries : industryMap.Perm otherMap)
    (capsKeyed : (marketCaps.map Prod.fst).Nodup) (caps : marketCaps.Perm otherCaps) :
    processFactor numerics config factor otherMap otherCaps =
      processFactor numerics config factor industryMap marketCaps := by
  have industryOfSame : industryOf otherMap = industryOf industryMap := by
    funext symbol
    rw [industryOf, industryOf, find_perm industriesKeyed industries]
  have demeanSame : industryDemean (K := K) otherMap = industryDemean industryMap := by
    funext values
    have medians : industryMedians otherMap values = industryMedians industryMap values := by
      have each : industryMedian otherMap values = industryMedian industryMap values := by
        funext industry
        have members : industryMembers otherMap values industry =
            industryMembers industryMap values industry := by
          rw [industryMembers, industryMembers, industryOfSame]
        rw [industryMedian, industryMedian, members]
      rw [industryMedians, industryMedians, each]
    have rows : demean (K := K) otherMap = demean industryMap := by
      funext medians row
      simp only [demean, industryOfSame]
    rw [industryDemean, industryDemean, medians, rows]
  have logsKeyed : ((logCaps numerics marketCaps).map Prod.fst).Nodup := by
    rw [logCaps, map_map]
    exact capsKeyed
  have logs : (logCaps numerics marketCaps).Perm (logCaps numerics otherCaps) := caps.map _
  have regressionSame : regressionNeutralize numerics (logCaps numerics otherCaps) =
      regressionNeutralize numerics (logCaps numerics marketCaps) := by
    funext values
    have members : ∀ symbol, symbol ∈ (logCaps numerics otherCaps).map (·.1) ↔
        symbol ∈ (logCaps numerics marketCaps).map (·.1) := fun _ => (logs.map _).symm.mem_iff
    have pairs : regressionPairs (logCaps numerics otherCaps) values =
        regressionPairs (logCaps numerics marketCaps) values := by
      simp only [regressionPairs, members, find_perm logsKeyed logs]
    have rows : ∀ fit row, residual (logCaps numerics otherCaps) fit row =
        residual (logCaps numerics marketCaps) fit row := by
      intro fit row
      simp only [residual, find_perm logsKeyed logs]
    simp only [regressionNeutralize, pairs, rows]
  funext raw
  simp only [processFactor, demeanSame, regressionSame, perm_ne_nil industries, perm_ne_nil caps]

theorem capsOf_perm {marketCaps otherCaps : Option (Column K)}
    (moved : Reordered matrix other) (caps : marketCaps.Rel List.Perm otherCaps) :
    (capsOf config matrix marketCaps).Perm (capsOf config other otherCaps) := by
  cases caps with
  | some given => exact given
  | none =>
    unfold capsOf
    split_ifs
    · exact moved.find "market_cap"
    · exact List.Perm.refl _

variable {marketCaps : Option (Column K)}

theorem capsOf_keyed {matrix : FactorMatrix K}
    (keyed : Keyed matrix) (given : ∀ caps ∈ marketCaps, (caps.map Prod.fst).Nodup) :
    ((capsOf config matrix marketCaps).map Prod.fst).Nodup := by
  cases marketCaps with
  | some caps => exact given caps rfl
  | none =>
    unfold capsOf
    split_ifs
    · exact keyed.find "market_cap"
    · exact nodup_nil

variable {numerics config} {catalog : String → Option (FactorMeta K)}
variable {industryMap : List (String × String)}

theorem factorScores_column [FloorSemiring K] {matrix scores : FactorMatrix K}
    (scored : factorScores numerics catalog config matrix industryMap marketCaps = .ok scores)
    {factor : String × Column K} (member : factor ∈ scores) :
    ∃ factorMeta, catalog factor.1 = some factorMeta ∧
      factor.2 = processFactor numerics config factorMeta industryMap
        (capsOf config matrix marketCaps) ((Ledger.find factor.1 matrix).getD []) := by
  obtain ⟨weight, _, treated⟩ := collect_mem scored factor member
  cases known : catalog weight.factorName with
  | none =>
    rw [known] at treated
    cases treated
  | some factorMeta =>
    rw [known] at treated
    cases treated
    exact ⟨factorMeta, known, rfl⟩

theorem factorScores_names [FloorSemiring K] {matrix scores : FactorMatrix K}
    (scored : factorScores numerics catalog config matrix industryMap marketCaps = .ok scores) :
    (scores.map Prod.fst).Nodup := by
  have names := collect_map scored (g := Prod.fst) (h := FactorWeight.factorName) (by
    intro weight _ factor treated
    obtain ⟨_, _, treated⟩ := bind_eq_ok.mp treated
    cases treated
    rfl)
  rw [names]
  exact config.combination.names_nodup

theorem factorScores_keyed [FloorSemiring K] {matrix scores : FactorMatrix K} (keyed : Keyed matrix)
    (scored : factorScores numerics catalog config matrix industryMap marketCaps = .ok scores) :
    Keyed scores := by
  intro factor member
  obtain ⟨factorMeta, _, treated⟩ := factorScores_column scored member
  rw [treated, (rowWise_processFactor numerics config factorMeta industryMap _).keys
    (keyed.find factor.1)]
  exact keyed.find factor.1

/-- Another iteration order moves the rows of the factor scores and changes none. -/
theorem factorScores_reordered [FloorSemiring K] {industryMap otherMap : List (String × String)}
    {marketCaps otherCaps : Option (Column K)} (keyed : Keyed matrix)
    (industriesKeyed : (industryMap.map Prod.fst).Nodup)
    (capsKeyed : ∀ caps ∈ marketCaps, (caps.map Prod.fst).Nodup) (moved : Reordered matrix other)
    (industries : industryMap.Perm otherMap) (caps : marketCaps.Rel List.Perm otherCaps) :
    SameOutcome Reordered (factorScores numerics catalog config matrix industryMap marketCaps)
      (factorScores numerics catalog config other otherMap otherCaps) := by
  refine SameOutcome.collect (fun weight => ?_) config.combination.weights
  cases catalog weight.factorName with
  | none => exact .error weight.factorName
  | some factorMeta =>
    refine .ok ⟨rfl, ?_⟩
    have same := processFactor_congr numerics config factorMeta industriesKeyed industries
      (capsOf_keyed config keyed capsKeyed) (capsOf_perm config moved caps)
    rw [same]
    exact (rowWise_processFactor numerics config factorMeta industryMap _).perm
      (keyed.find weight.factorName) (moved.find weight.factorName)

end

section

variable [Field K] [LinearOrder K] {config : CombinationConfig K} {scores others : FactorMatrix K}

theorem compositeScore_reordered (keyed : Keyed scores) (moved : Reordered scores others)
    (symbol : String) : compositeScore others config symbol = compositeScore scores config symbol := by
  have found : ∀ name, Ledger.find symbol (scoresOf others name) =
      Ledger.find symbol (scoresOf scores name) := fun name =>
    find_perm (keyed.find name) (moved.find name)
  have samples : ∀ name, (finites (scoresOf scores name)).Perm (finites (scoresOf others name)) :=
    fun name => finites_perm (moved.find name)
  have weighted : weightedPart others symbol = weightedPart scores symbol := by
    funext weight
    rw [weightedPart, weightedPart, found]
  have ranked : rankPart others symbol = rankPart scores symbol := by
    funext weight
    simp only [rankPart, found, uniformRank_perm (samples weight.factorName),
      (samples weight.factorName).length_eq]
  unfold compositeScore
  rw [weighted, ranked]

theorem combinedSymbols_perm (moved : Reordered scores others) :
    (combinedSymbols scores config).Perm (combinedSymbols others config) := by
  refine (perm_ext_iff_of_nodup (nodup_dedup _) (nodup_dedup _)).mpr fun symbol => ?_
  have each : ∀ name, symbol ∈ (scoresOf scores name).map (·.1) ↔
      symbol ∈ (scoresOf others name).map (·.1) := fun name =>
    ((moved.find name).map _).mem_iff
  simp only [mem_dedup, mem_flatMap, each]

/-- The composite scores are the same rows, in the order in which the symbols are walked. -/
theorem combineScores_perm {iterate walk : List String → List String} (keyed : Keyed scores)
    (moved : Reordered scores others) (iterates : ∀ symbols, (iterate symbols).Perm symbols)
    (walks : ∀ symbols, (walk symbols).Perm symbols) :
    (combineScores scores config iterate).Perm (combineScores others config walk) := by
  have symbols : (iterate (combinedSymbols scores config)).Perm
      (walk (combinedSymbols others config)) :=
    (iterates _).trans ((combinedSymbols_perm moved).trans (walks _).symm)
  have rows : (fun symbol => (symbol, compositeScore others config symbol)) =
      fun symbol => (symbol, compositeScore scores config symbol) := by
    funext symbol
    rw [compositeScore_reordered keyed moved]
  unfold combineScores
  rw [rows]
  exact symbols.map _

theorem combineScores_keyed {iterate : List String → List String}
    (iterates : ∀ symbols, (iterate symbols).Perm symbols) :
    ((combineScores scores config iterate).map Prod.fst).Nodup := by
  have keys : (combineScores scores config iterate).map Prod.fst =
      iterate (combinedSymbols scores config) := by
    rw [combineScores, map_map]
    exact map_id _
  rw [keys]
  exact (iterates _).nodup_iff.mpr (nodup_dedup _)

end

end FinDashboard.Factors
