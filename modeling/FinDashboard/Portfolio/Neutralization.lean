import FinDashboard.Portfolio.Constraints
import FinDashboard.Runs.Fallible
import Mathlib.Tactic.Ring

/-!
# Risk factor neutralization

The active exposures of a portfolio to its risk factors are brought within their limits by scaling
weights down, one factor after the other and in rounds. A round is accepted if every factor was within
its limit when its turn was over.
-/

namespace FinDashboard.Portfolio

open List

open Ledger (find total total_cons)

section Model

variable {K : Type} [Field K] [LinearOrder K]

structure RiskFactorLimit (K : Type) [Field K] [LinearOrder K] where
  factor : String
  maxActiveExposure : K
  factor_given : factor ≠ ""
  maxActiveExposure_pos : 0 < maxActiveExposure

def activeExposure (symbols : List String) (weights baseline factor : String → K) : K :=
  total (fun symbol => (weights symbol - baseline symbol) * factor symbol) symbols

/-- The scale for the symbols that have to be scaled, and whether scaling helps. -/
structure LimitScale (K : Type) where
  scale : K
  actionable : String → Bool
  progressed : Bool

/-- `_scale_for_limit`; a quotient by more than the tolerance is finite. -/
def scaleForLimit (symbols : List String) (weights baseline factor : String → K) (limit tolerance : K) :
    LimitScale K :=
  let exposure := activeExposure symbols weights baseline factor
  if |exposure| ≤ limit + tolerance then ⟨1, fun _ => false, true⟩
  else
    let direction : K := if 0 < exposure then 1 else -1
    let signed := fun symbol => factor symbol * direction
    let actionable := fun symbol =>
      decide (tolerance < (weights symbol - baseline symbol) * signed symbol) &&
        decide (maxWeightEpsilon < |weights symbol|)
    let a := total (fun symbol => weights symbol * signed symbol) (symbols.filter actionable)
    if a ≤ tolerance then ⟨1, actionable, false⟩
    else ⟨min 1 (max 0 (1 + (limit - exposure * direction) / a)), actionable, true⟩

/-- A factor whose limit is enforced. -/
structure EnforcedFactor (K : Type) where
  factor : String
  limit : K
  observed : String → K

/-- What the turn of a factor leaves. -/
structure Turn (K : Type) where
  vector : String → K
  scaled : Bool
  within : Bool

/-- The body of the loop over the factors. -/
def factorTurn (symbols : List String) (baseline : String → K) (tolerance : K) (factor : EnforcedFactor K)
    (vector : String → K) : Turn K :=
  let found := scaleForLimit symbols vector baseline factor.observed factor.limit tolerance
  if found.progressed = false then { vector, scaled := false, within := false }
  else
    let scaled := decide (found.scale < 1 - tolerance)
    let next := fun symbol =>
      if scaled && found.actionable symbol then vector symbol * found.scale else vector symbol
    { vector := next
      scaled
      within := decide (|activeExposure symbols next baseline factor.observed| ≤
        factor.limit + tolerance) }

structure Round (K : Type) where
  vector : String → K
  scaled : List Bool
  within : Bool

def factorRound (symbols : List String) (baseline : String → K) (tolerance : K) :
    List (EnforcedFactor K) → (String → K) → Round K
  | [], vector => { vector, scaled := [], within := true }
  | factor :: rest, vector =>
      let first := factorTurn symbols baseline tolerance factor vector
      let later := factorRound symbols baseline tolerance rest first.vector
      { vector := later.vector
        scaled := first.scaled :: later.scaled
        within := first.within && later.within }

def Round.progress (result : Round K) : Bool := result.scaled.any id

structure Projection (K : Type) where
  vector : String → K
  /-- How often each factor was scaled. -/
  used : List ℕ
  iterations : ℕ
  changed : Bool
  allWithin : Bool

/-- A last round that scales nothing is not counted. -/
def Projection.next (before : Projection K) (iteration : ℕ) (result : Round K) : Projection K where
  vector := result.vector
  used := zipWith (fun used scaled => if scaled then used + 1 else used) before.used result.scaled
  iterations := if result.progress then iteration
    else if result.within then iteration - 1 else before.iterations
  changed := before.changed || result.progress
  allWithin := result.within

def factorRounds (symbols : List String) (baseline : String → K) (tolerance : K)
    (factors : List (EnforcedFactor K)) : ℕ → ℕ → Projection K → Projection K
  | 0, _, before => before
  | remaining + 1, iteration, before =>
      let result := factorRound symbols baseline tolerance factors before.vector
      if result.within || !result.progress then before.next iteration result
      else factorRounds symbols baseline tolerance factors remaining (iteration + 1)
        (before.next iteration result)

inductive NeutralizationError
  | value (message : String)
  | missingKey (symbol : String)
  | notNumber (symbol : String)
deriving DecidableEq

structure FactorNeutralizationAudit (K : Type) where
  factor : String
  limit : K
  beforeExposure : Option K
  afterExposure : Option K
  iterations : ℕ
  enforced : Bool
  warning : Option String
deriving DecidableEq

/-- The finite observations of the symbols; a symbol can also be listed without one. -/
abbrev Observations (K : Type) : Type := List (String × Option K)

/-- `_finite_observation(observations.get(symbol))`. -/
def finiteObservation (observations : Observations K) (symbol : String) : Bool :=
  ((find symbol observations).getD none).isSome

def observedValue (observations : Observations K) (symbol : String) : K :=
  ((find symbol observations).getD none).getD 0

/-- `float(observations[symbol])` for every symbol. -/
def factorVector (symbols : List String) (observations : Observations K) :
    Except NeutralizationError (String → K) :=
  match symbols.find? fun symbol => !finiteObservation observations symbol with
  | some symbol =>
      if (find symbol observations).isNone then .error (.missingKey symbol)
      else .error (.notNumber symbol)
  | none => .ok (observedValue observations)

def missingSymbols (symbols : List String) (vector baseline : String → K)
    (observations : Observations K) : List String :=
  symbols.filter fun symbol =>
    (decide (maxWeightEpsilon < |vector symbol|) || decide (maxWeightEpsilon < |baseline symbol|)) &&
      !finiteObservation observations symbol

def skippedAudit (symbols missing : List String) (limit : RiskFactorLimit K) :
    FactorNeutralizationAudit K where
  factor := limit.factor
  limit := limit.maxActiveExposure
  beforeExposure := none
  afterExposure := none
  iterations := 0
  enforced := false
  warning :=
    let preview := String.intercalate "," (missing.take 5) ++ if 5 < missing.length then "…" else ""
    some (s!"factor_neutralization_inactive:{limit.factor}: {missing.length}/{symbols.length}" ++
      s!" 个持仓标的缺失暴露观测 ({preview}),约束跳过不静默失效")

def prepareFactors (symbols : List String) (vector baseline : String → K)
    (factorExposures : List (String × Observations K)) :
    List (RiskFactorLimit K) →
      Except NeutralizationError (List (FactorNeutralizationAudit K) × List (EnforcedFactor K))
  | [] => .ok ([], [])
  | limit :: rest =>
      let observations := (find limit.factor factorExposures).getD []
      let missing := missingSymbols symbols vector baseline observations
      if missing ≠ [] then do
        let later ← prepareFactors symbols vector baseline factorExposures rest
        return (skippedAudit symbols missing limit :: later.1, later.2)
      else do
        let observed ← factorVector symbols observations
        let later ← prepareFactors symbols vector baseline factorExposures rest
        return (later.1, ⟨limit.factor, limit.maxActiveExposure, observed⟩ :: later.2)

structure FactorNeutralizationResult (K : Type) where
  weights : Weights K
  audits : List (FactorNeutralizationAudit K)
  iterations : ℕ
  converged : Bool
  changed : Bool

def neutralizedSymbols (weights baseline : Weights K) : List String :=
  ((weights.entries ++ baseline.entries).map Prod.fst).dedup.insertionSort (· ≤ ·)

def enforcedAudit (symbols : List String) (vector baseline : String → K) (final : String → K)
    (factor : EnforcedFactor K) (used : ℕ) : FactorNeutralizationAudit K where
  factor := factor.factor
  limit := factor.limit
  beforeExposure := some (activeExposure symbols vector baseline factor.observed)
  afterExposure := some (activeExposure symbols final baseline factor.observed)
  iterations := used
  enforced := true
  warning := none

def projectRiskFactorNeutralization (weights : Weights K) (limits : List (RiskFactorLimit K))
    (factorExposures : List (String × Observations K)) (baselineWeights : Weights K) (maxIterations : ℤ)
    (tolerance : K) : Except NeutralizationError (FactorNeutralizationResult K) :=
  if maxIterations ≤ 0 then .error (.value "max_iterations 必须为正")
  else if tolerance ≤ 0 then .error (.value "tolerance 必须为正")
  else if limits = [] ∨ weights.entries = [] then
    .ok { weights, audits := [], iterations := 0, converged := true, changed := false }
  else do
    let symbols := neutralizedSymbols weights baselineWeights
    let vector := weights.get
    let baseline := baselineWeights.get
    let factors ← prepareFactors symbols vector baseline factorExposures
      (limits.insertionSort fun limit other => limit.factor ≤ other.factor)
    let projected := factorRounds symbols baseline tolerance factors.2 maxIterations.toNat 1
      { vector, used := factors.2.map fun _ => 0, iterations := 0, changed := false
        allWithin := factors.2.isEmpty }
    return {
      weights := weights.update fun code _ => projected.vector code
      audits := (zipWith (enforcedAudit symbols vector baseline projected.vector) factors.2
        projected.used ++ factors.1).insertionSort fun audit other => audit.factor ≤ other.factor
      iterations := projected.iterations
      converged := projected.allWithin
      changed := projected.changed }

end Model

section Shrinking

variable {K : Type} [Field K] [LinearOrder K] [IsStrictOrderedRing K] {symbols : List String}
  {vector baseline : String → K} {tolerance : K}

theorem scaleForLimit_unit (symbols : List String) (vector baseline factor : String → K)
    (limit tolerance : K) : 0 ≤ (scaleForLimit symbols vector baseline factor limit tolerance).scale ∧
      (scaleForLimit symbols vector baseline factor limit tolerance).scale ≤ 1 := by
  unfold scaleForLimit
  by_cases within : |activeExposure symbols vector baseline factor| ≤ limit + tolerance
  · rw [if_pos within]
    exact ⟨zero_le_one, le_refl 1⟩
  · rw [if_neg within]
    generalize (if 0 < activeExposure symbols vector baseline factor then (1 : K) else -1) = direction
    dsimp only
    split_ifs
    · exact ⟨zero_le_one, le_refl 1⟩
    · exact ⟨le_min zero_le_one (le_max_left _ _), min_le_left _ _⟩

theorem factorTurn_shrunk (factor : EnforcedFactor K) (vector : String → K) (symbol : String) :
    Shrunk (vector symbol) ((factorTurn symbols baseline tolerance factor vector).vector symbol) := by
  obtain ⟨nonneg, le_one⟩ := scaleForLimit_unit symbols vector baseline factor.observed factor.limit
    tolerance
  unfold factorTurn
  dsimp only
  split_ifs
  · exact Shrunk.refl _
  · dsimp only
    split_ifs
    · exact Shrunk.scaled nonneg le_one _
    · exact Shrunk.refl _

theorem factorRound_shrunk (factors : List (EnforcedFactor K)) (vector : String → K) (symbol : String) :
    Shrunk (vector symbol) ((factorRound symbols baseline tolerance factors vector).vector symbol) := by
  induction factors generalizing vector with
  | nil => exact Shrunk.refl _
  | cons factor rest ih => exact (factorTurn_shrunk factor vector symbol).trans (ih _)

theorem factorRounds_shrunk (factors : List (EnforcedFactor K)) (remaining iteration : ℕ)
    (before : Projection K) (symbol : String) : Shrunk (before.vector symbol)
      ((factorRounds symbols baseline tolerance factors remaining iteration before).vector symbol) := by
  induction remaining generalizing iteration before with
  | zero => exact Shrunk.refl _
  | succ remaining ih =>
    have first : Shrunk (before.vector symbol)
        ((factorRound symbols baseline tolerance factors before.vector).vector symbol) :=
      factorRound_shrunk factors before.vector symbol
    unfold factorRounds
    dsimp only
    split_ifs
    · exact first
    · exact first.trans (ih _ (before.next iteration _))

end Shrinking

section Returning

variable {K : Type} [Field K] {symbols : List String} {vector baseline : String → K}
  {factorExposures : List (String × Observations K)}

theorem factorVector_of_observed {observations : Observations K}
    (observed : ∀ symbol ∈ symbols, finiteObservation observations symbol = true) :
    factorVector symbols observations = .ok (observedValue observations) := by
  have complete : symbols.find? (fun symbol => !finiteObservation observations symbol) = none := by
    apply find?_eq_none.mpr
    intro symbol member
    simp [observed symbol member]
  rw [factorVector, complete]

theorem observed_of_factorVector {observations : Observations K} {observed : String → K}
    (returned : factorVector symbols observations = .ok observed) :
    ∀ symbol ∈ symbols, finiteObservation observations symbol = true := by
  unfold factorVector at returned
  cases found : symbols.find? (fun symbol => !finiteObservation observations symbol) with
  | some symbol =>
    simp only [found] at returned
    split_ifs at returned
  | none =>
    intro symbol member
    simpa using find?_eq_none.mp found symbol member

variable [LinearOrder K]

/-- A factor is skipped, or every symbol is observed. -/
def Measurable (symbols : List String) (vector baseline : String → K) (observations : Observations K) :
    Prop :=
  missingSymbols symbols vector baseline observations ≠ [] ∨
    ∀ symbol ∈ symbols, finiteObservation observations symbol = true

def enforcedFactors (symbols : List String) (vector baseline : String → K)
    (factorExposures : List (String × Observations K)) (limits : List (RiskFactorLimit K)) :
    List (EnforcedFactor K) :=
  limits.filterMap fun limit =>
    let observations := (find limit.factor factorExposures).getD []
    if missingSymbols symbols vector baseline observations = [] then
      some ⟨limit.factor, limit.maxActiveExposure, observedValue observations⟩
    else none

theorem prepareFactors_of_measurable {limits : List (RiskFactorLimit K)} (measurable : ∀ limit ∈ limits,
      Measurable symbols vector baseline ((find limit.factor factorExposures).getD [])) :
    ∃ skipped, prepareFactors symbols vector baseline factorExposures limits =
      .ok (skipped, enforcedFactors symbols vector baseline factorExposures limits) := by
  induction limits with
  | nil => exact ⟨[], rfl⟩
  | cons limit rest ih =>
    obtain ⟨skipped, later⟩ := ih fun other member => measurable other (mem_cons_of_mem _ member)
    have first := measurable limit mem_cons_self
    unfold prepareFactors
    dsimp only
    by_cases missing : missingSymbols symbols vector baseline
        ((find limit.factor factorExposures).getD []) = []
    · have observed := first.resolve_left fun some => some missing
      rw [if_neg (not_not.mpr missing), factorVector_of_observed observed, later]
      exact ⟨skipped, by simp [enforcedFactors, missing, bind, Except.bind, pure, Except.pure]⟩
    · rw [if_pos missing, later]
      exact ⟨_, by simp [enforcedFactors, missing, bind, Except.bind, pure, Except.pure]; rfl⟩

theorem measurable_of_prepareFactors {limits : List (RiskFactorLimit K)}
    {prepared : List (FactorNeutralizationAudit K) × List (EnforcedFactor K)}
    (returned : prepareFactors symbols vector baseline factorExposures limits = .ok prepared) :
    ∀ limit ∈ limits,
      Measurable symbols vector baseline ((find limit.factor factorExposures).getD []) := by
  induction limits generalizing prepared with
  | nil => nofun
  | cons limit rest ih =>
    intro other member
    unfold prepareFactors at returned
    dsimp only at returned
    split_ifs at returned with missing
    · obtain ⟨later, prepared', -⟩ := bind_eq_ok.mp returned
      rcases mem_cons.mp member with rfl | member
      · exact Or.inl missing
      · exact ih prepared' other member
    · obtain ⟨observed, read, returned⟩ := bind_eq_ok.mp returned
      obtain ⟨later, prepared', -⟩ := bind_eq_ok.mp returned
      rcases mem_cons.mp member with rfl | member
      · exact Or.inr (observed_of_factorVector read)
      · exact ih prepared' other member

end Returning

section Calls

variable {K : Type} [Field K] [LinearOrder K]

def orderedLimits (limits : List (RiskFactorLimit K)) : List (RiskFactorLimit K) :=
  limits.insertionSort fun limit other => limit.factor ≤ other.factor

variable (weights baseline : Weights K) (limits : List (RiskFactorLimit K))
  (factorExposures : List (String × Observations K)) (maxIterations : ℤ) (tolerance : K)

/-- The factors of a call whose limits are enforced; without weights there are none. -/
def callFactors : List (EnforcedFactor K) :=
  if weights.entries = [] then []
  else enforcedFactors (neutralizedSymbols weights baseline) weights.get baseline.get factorExposures
    (orderedLimits limits)

/-- What the rounds of a call come to. -/
def projected : Projection K :=
  factorRounds (neutralizedSymbols weights baseline) baseline.get tolerance
    (callFactors weights baseline limits factorExposures) maxIterations.toNat 1
    { vector := weights.get
      used := (callFactors weights baseline limits factorExposures).map fun _ => 0
      iterations := 0
      changed := false
      allWithin := (callFactors weights baseline limits factorExposures).isEmpty }

/-- A call that raises nothing. -/
def Accepted : Prop :=
  0 < maxIterations ∧ 0 < tolerance ∧ (limits = [] ∨ weights.entries = [] ∨
    ∀ limit ∈ limits, Measurable (neutralizedSymbols weights baseline) weights.get baseline.get
      ((find limit.factor factorExposures).getD []))

variable {weights baseline limits factorExposures maxIterations tolerance}

theorem get_projected {f : String → K} (shrunk : ∀ code, Shrunk (weights.get code) (f code))
    (code : String) : (weights.update fun code _ => f code).get code = f code := by
  by_cases listed : code ∈ weights.entries.map Prod.fst
  · obtain ⟨entry, member, rfl⟩ := mem_map.mp listed
    have updated : (entry.1, f entry.1) ∈ (weights.update fun code _ => f code).entries :=
      mem_map.mpr ⟨entry, member, rfl⟩
    exact Weights.get_of_mem updated
  · have unlisted : code ∉ (weights.update fun code _ => f code).entries.map Prod.fst := by
      simpa [Weights.update, Function.comp_def] using listed
    have nothing := shrunk code
    rw [Weights.get_of_not_mem listed] at nothing
    rw [Weights.get_of_not_mem unlisted, nothing.of_zero]

/-- Without factors the first round is accepted. -/
theorem projected_of_no_factors (tolerance : K) (iterate : 0 < maxIterations)
    (none : callFactors weights baseline limits factorExposures = []) :
    (projected weights baseline limits factorExposures maxIterations tolerance).vector = weights.get ∧
      (projected weights baseline limits factorExposures maxIterations tolerance).allWithin = true := by
  obtain ⟨remaining, some⟩ : ∃ remaining, maxIterations.toNat = remaining + 1 :=
    ⟨maxIterations.toNat - 1, by omega⟩
  simp [projected, none, some, factorRounds, factorRound, Projection.next]

theorem projectRiskFactorNeutralization_of_accepted
    (accepted : Accepted weights baseline limits factorExposures maxIterations tolerance) :
    ∃ result, projectRiskFactorNeutralization weights limits factorExposures baseline maxIterations
        tolerance = .ok result ∧ result.weights = weights.update (fun code _ =>
        (projected weights baseline limits factorExposures maxIterations tolerance).vector code) ∧
      result.converged =
        (projected weights baseline limits factorExposures maxIterations tolerance).allWithin := by
  obtain ⟨iterate, positive, measurable⟩ := accepted
  unfold projectRiskFactorNeutralization
  rw [if_neg (not_le.mpr iterate), if_neg (not_le.mpr positive)]
  by_cases nothing : limits = [] ∨ weights.entries = []
  · have none : callFactors weights baseline limits factorExposures = [] := by
      rcases nothing with rfl | empty
      · simp [callFactors, orderedLimits, enforcedFactors]
      · simp [callFactors, empty]
    obtain ⟨kept, converged⟩ := projected_of_no_factors tolerance iterate none
    rw [if_pos nothing, kept, converged]
    have same : weights.update (fun code _ => weights.get code) = weights :=
      Weights.update_self fun entry member => Weights.get_of_mem member
    exact ⟨_, rfl, same.symm, rfl⟩
  · obtain ⟨some, held⟩ := not_or.mp nothing
    have observed := (measurable.resolve_left some).resolve_left held
    have sorted : ∀ limit ∈ orderedLimits limits, Measurable (neutralizedSymbols weights baseline)
        weights.get baseline.get ((find limit.factor factorExposures).getD []) :=
      fun limit member => observed limit ((mem_insertionSort _).mp member)
    obtain ⟨skipped, prepared⟩ := prepareFactors_of_measurable sorted
    have factors : callFactors weights baseline limits factorExposures =
        enforcedFactors (neutralizedSymbols weights baseline) weights.get baseline.get factorExposures
          (orderedLimits limits) := if_neg held
    rw [if_neg nothing]
    unfold orderedLimits at prepared
    simp only [prepared, bind, Except.bind, pure, Except.pure, projected, factors]
    exact ⟨_, rfl, rfl, rfl⟩

theorem accepted_of_project {result : FactorNeutralizationResult K}
    (returned : projectRiskFactorNeutralization weights limits factorExposures baseline maxIterations
      tolerance = .ok result) :
    Accepted weights baseline limits factorExposures maxIterations tolerance := by
  unfold projectRiskFactorNeutralization at returned
  split_ifs at returned with iterations precision nothing
  · exact ⟨not_le.mp iterations, not_le.mp precision, or_assoc.mp (Or.inl nothing)⟩
  · obtain ⟨prepared, called, -⟩ := bind_eq_ok.mp returned
    have measurable := measurable_of_prepareFactors called
    exact ⟨not_le.mp iterations, not_le.mp precision, Or.inr (Or.inr fun limit member =>
      measurable limit ((mem_insertionSort _).mpr member))⟩

/-- The projection returns, with the same symbols and no weight moved but towards zero, exactly if every
factor is skipped or observed for all symbols, those without a position included. -/
theorem neutralization_shrinks_iff [IsStrictOrderedRing K] (weights baseline : Weights K)
    (limits : List (RiskFactorLimit K)) (factorExposures : List (String × Observations K))
    (maxIterations : ℤ) (tolerance : K) :
    (∃ result, projectRiskFactorNeutralization weights limits factorExposures baseline maxIterations
        tolerance = .ok result ∧ result.weights.entries.map Prod.fst = weights.entries.map Prod.fst ∧
      ∀ code, Shrunk (weights.get code) (result.weights.get code)) ↔
    Accepted weights baseline limits factorExposures maxIterations tolerance := by
  constructor
  · rintro ⟨result, returned, -⟩
    exact accepted_of_project returned
  · intro accepted
    obtain ⟨result, returned, weighed, -⟩ := projectRiskFactorNeutralization_of_accepted accepted
    have shrunk : ∀ code, Shrunk (weights.get code)
        ((projected weights baseline limits factorExposures maxIterations tolerance).vector code) :=
      fun code => factorRounds_shrunk _ _ _ _ code
    refine ⟨result, returned, ?_, ?_⟩
    · simp [weighed, Weights.update, Function.comp_def]
    · intro code
      rw [weighed, get_projected shrunk]
      exact shrunk code

def cashBaseline : Weights ℚ where
  entries := []
  nodup := by decide

def sizeLimit : RiskFactorLimit ℚ where
  factor := "size_exposure"
  maxActiveExposure := 1 / 10
  factor_given := by decide
  maxActiveExposure_pos := by norm_num

instance (symbols : List String) (vector baseline : String → ℚ) (observations : Observations ℚ) :
    Decidable (Measurable symbols vector baseline observations) :=
  inferInstanceAs (Decidable (_ ∨ ∀ symbol ∈ symbols, _))

/-- A position whose size is within the limit once a third of it is sold. -/
def sizedWeights : Weights ℚ where
  entries := [("600000", 3 / 20)]
  nodup := by decide

theorem accepted_sizedWeights : Accepted sizedWeights cashBaseline [sizeLimit]
    [("size_exposure", [("600000", some 1)])] 100 (1 / 10 ^ 9) := by
  refine ⟨by decide, by norm_num, Or.inr (Or.inr ?_)⟩
  intro limit member
  obtain rfl := mem_singleton.mp member
  decide +kernel

theorem neutralization_shrinks_iff_size :
    Accepted sizedWeights cashBaseline [sizeLimit] [("size_exposure", [("600000", some 1)])] 100
        (1 / 10 ^ 9) ∧
      ((∃ result, projectRiskFactorNeutralization sizedWeights [sizeLimit]
          [("size_exposure", [("600000", some 1)])] cashBaseline 100 (1 / 10 ^ 9) = .ok result ∧
        result.weights.entries.map Prod.fst = sizedWeights.entries.map Prod.fst ∧
        ∀ code, Shrunk (sizedWeights.get code) (result.weights.get code)) ↔
      Accepted sizedWeights cashBaseline [sizeLimit] [("size_exposure", [("600000", some 1)])] 100
        (1 / 10 ^ 9)) :=
  ⟨accepted_sizedWeights, neutralization_shrinks_iff sizedWeights cashBaseline [sizeLimit]
    [("size_exposure", [("600000", some 1)])] 100 (1 / 10 ^ 9)⟩

/-- A symbol without a position and without an observation. -/
theorem neutralization_raises : ¬ ∀ (weights baseline : Weights ℚ) (limits : List (RiskFactorLimit ℚ))
    (factorExposures : List (String × Observations ℚ)), ∃ result,
    projectRiskFactorNeutralization weights limits factorExposures baseline 100 (1 / 10 ^ 9) =
      .ok result ∧ result.weights.entries.map Prod.fst = weights.entries.map Prod.fst ∧
    ∀ code, Shrunk (weights.get code) (result.weights.get code) := by
  intro returns
  obtain ⟨result, returned, -⟩ := returns ⟨[("600000", 1 / 2), ("600001", 0)], by decide⟩ cashBaseline
    [sizeLimit] [("size_exposure", [("600000", some 1)])]
  have measurable := (accepted_of_project returned).2.2
  revert measurable
  decide +kernel

end Calls

section Disturbance

variable {K : Type} [Field K]

/-- Scaling some weights moves every exposure by their share of it. -/
theorem activeExposure_scaled (scale : K) (scaled : String → Bool) (vector observed : String → K)
    (baseline : String → K) (symbols : List String) :
    activeExposure symbols (fun symbol => if scaled symbol then vector symbol * scale else vector symbol)
        baseline observed = activeExposure symbols vector baseline observed +
        (scale - 1) * total (fun symbol => vector symbol * observed symbol) (symbols.filter scaled) := by
  unfold activeExposure
  induction symbols with
  | nil => simp
  | cons symbol rest ih =>
    rw [total_cons, total_cons, ih]
    by_cases counted : scaled symbol = true
    · rw [filter_cons_of_pos counted, total_cons]
      simp only [counted, if_true]
      ring
    · rw [filter_cons_of_neg counted]
      simp only [counted, if_false, Bool.false_eq_true]
      ring

variable [LinearOrder K] (symbols : List String) (baseline : String → K) (tolerance : K)

/-- By how much the turn of a factor moves the exposure to another one. -/
def turnShift (factor other : EnforcedFactor K) (vector : String → K) : K :=
  let found := scaleForLimit symbols vector baseline factor.observed factor.limit tolerance
  if found.progressed = true ∧ found.scale < 1 - tolerance then
    (found.scale - 1) * total (fun symbol => vector symbol * other.observed symbol)
      (symbols.filter found.actionable)
  else 0

/-- By how much the turns of a round move the exposure to a factor. -/
def laterShift (other : EnforcedFactor K) : List (EnforcedFactor K) → (String → K) → K
  | [], _ => 0
  | factor :: rest, vector =>
      turnShift symbols baseline tolerance factor other vector +
        laterShift other rest (factorTurn symbols baseline tolerance factor vector).vector

/-- In a round from these weights no factor is moved out of its limit after its turn. -/
def Undisturbed : List (EnforcedFactor K) → (String → K) → Prop
  | [], _ => True
  | factor :: rest, vector =>
      let next := (factorTurn symbols baseline tolerance factor vector).vector
      |activeExposure symbols next baseline factor.observed +
          laterShift symbols baseline tolerance factor rest next| ≤ factor.limit + tolerance ∧
        Undisturbed rest next

instance decidableUndisturbed : ∀ (factors : List (EnforcedFactor K)) (vector : String → K),
    Decidable (Undisturbed symbols baseline tolerance factors vector)
  | [], _ => inferInstanceAs (Decidable True)
  | _ :: rest, _ =>
      have := decidableUndisturbed rest
      inferInstanceAs (Decidable (_ ∧ Undisturbed _ _ _ rest _))

def lastRoundStart (factors : List (EnforcedFactor K)) : ℕ → (String → K) → String → K
  | 0, vector => vector
  | remaining + 1, vector =>
      let result := factorRound symbols baseline tolerance factors vector
      if result.within || !result.progress then vector
      else lastRoundStart factors remaining result.vector

variable {symbols baseline tolerance}

theorem activeExposure_factorTurn (factor other : EnforcedFactor K) (vector : String → K) :
    activeExposure symbols (factorTurn symbols baseline tolerance factor vector).vector baseline
        other.observed = activeExposure symbols vector baseline other.observed +
        turnShift symbols baseline tolerance factor other vector := by
  unfold factorTurn turnShift
  dsimp only
  by_cases stuck : (scaleForLimit symbols vector baseline factor.observed factor.limit
      tolerance).progressed = false
  · simp [stuck]
  · have progressed := Bool.eq_true_of_not_eq_false stuck
    by_cases scaled : (scaleForLimit symbols vector baseline factor.observed factor.limit
        tolerance).scale < 1 - tolerance
    · simp only [progressed, scaled, decide_true, Bool.true_and, and_self, if_true]
      exact activeExposure_scaled _ _ _ _ _ _
    · simp [stuck, scaled]

theorem activeExposure_factorRound (other : EnforcedFactor K) (factors : List (EnforcedFactor K))
    (vector : String → K) :
    activeExposure symbols (factorRound symbols baseline tolerance factors vector).vector baseline
        other.observed = activeExposure symbols vector baseline other.observed +
        laterShift symbols baseline tolerance other factors vector := by
  induction factors generalizing vector with
  | nil => exact (add_zero _).symm
  | cons factor rest ih =>
    have later := ih (factorTurn symbols baseline tolerance factor vector).vector
    rw [activeExposure_factorTurn] at later
    calc
      _ = _ := later
      _ = _ := by rw [laterShift, add_assoc]

/-- The factors are within their limits after a round from which none is disturbed, and only then. -/
theorem undisturbed_iff (factors : List (EnforcedFactor K)) (vector : String → K) :
    Undisturbed symbols baseline tolerance factors vector ↔ ∀ factor ∈ factors,
      |activeExposure symbols (factorRound symbols baseline tolerance factors vector).vector baseline
        factor.observed| ≤ factor.limit + tolerance := by
  induction factors generalizing vector with
  | nil => simp [Undisturbed]
  | cons factor rest ih =>
    have first : activeExposure symbols (factorRound symbols baseline tolerance rest
        (factorTurn symbols baseline tolerance factor vector).vector).vector baseline factor.observed =
          _ := activeExposure_factorRound factor rest _
    rw [Undisturbed, ih, ← first, forall_mem_cons]
    rfl

theorem factorRounds_converged {factors : List (EnforcedFactor K)} {remaining iteration : ℕ}
    {before : Projection K}
    (converged : (factorRounds symbols baseline tolerance factors (remaining + 1) iteration
      before).allWithin = true) :
    (factorRounds symbols baseline tolerance factors (remaining + 1) iteration before).vector =
      (factorRound symbols baseline tolerance factors
        (lastRoundStart symbols baseline tolerance factors (remaining + 1) before.vector)).vector := by
  induction remaining generalizing iteration before with
  | zero =>
    unfold factorRounds lastRoundStart at *
    dsimp only at *
    split_ifs at converged ⊢ with last
    · rfl
    · rw [Bool.or_eq_true, not_or] at last
      exact absurd converged last.1
  | succ remaining ih =>
    rw [factorRounds, lastRoundStart] at *
    split_ifs at converged ⊢ with last
    · rfl
    · exact ih converged

end Disturbance

section Converged

variable {K : Type} [Field K] [LinearOrder K] {weights baseline : Weights K}
  {limits : List (RiskFactorLimit K)} {factorExposures : List (String × Observations K)}
  {maxIterations : ℤ} {tolerance : K} {result : FactorNeutralizationResult K}

/-- A call with weights enforces a limit if it has all the observations it looks for. -/
def Enforced (weights baseline : Weights K) (factorExposures : List (String × Observations K))
    (limit : RiskFactorLimit K) : Prop :=
  weights.entries ≠ [] ∧ missingSymbols (neutralizedSymbols weights baseline) weights.get baseline.get
    ((find limit.factor factorExposures).getD []) = []

instance (limit : RiskFactorLimit K) : Decidable (Enforced weights baseline factorExposures limit) :=
  inferInstanceAs (Decidable (_ ∧ _))

def observedExposure (weights baseline : Weights K) (factorExposures : List (String × Observations K))
    (factor : String) (active : String → K) : K :=
  activeExposure (neutralizedSymbols weights baseline) active baseline.get
    (observedValue ((find factor factorExposures).getD []))

theorem forall_callFactors {within : EnforcedFactor K → Prop} :
    (∀ factor ∈ callFactors weights baseline limits factorExposures, within factor) ↔
      ∀ limit ∈ limits, Enforced weights baseline factorExposures limit →
        within ⟨limit.factor, limit.maxActiveExposure,
          observedValue ((find limit.factor factorExposures).getD [])⟩ := by
  by_cases empty : weights.entries = []
  · simp [callFactors, Enforced, empty]
  · simp only [callFactors, Enforced, empty, enforcedFactors, orderedLimits, if_false,
      mem_filterMap, mem_insertionSort, ne_eq, not_false_eq_true, true_and, forall_exists_index,
      and_imp, Option.ite_none_right_eq_some, Option.some.injEq]
    constructor
    · intro all limit member complete
      exact all _ limit member complete rfl
    · rintro all factor limit member complete rfl
      exact all limit member complete

end Converged

section Samples

/-- Half of the capital in each of two stocks. -/
def halves : Weights ℚ where
  entries := [("600000", 1 / 2), ("600001", 1 / 2)]
  nodup := by decide

def marketLimit : RiskFactorLimit ℚ where
  factor := "market_beta"
  maxActiveExposure := 1 / 10
  factor_given := by decide
  maxActiveExposure_pos := by norm_num

/-- Both stocks have the same beta, and one is large. -/
def alikeExposures : List (String × Observations ℚ) :=
  [("market_beta", [("600000", some 1), ("600001", some 1)]),
    ("size_exposure", [("600000", some 0), ("600001", some 1)])]

/-- The stocks hedge each other, and one is large. -/
def hedgedExposures : List (String × Observations ℚ) :=
  [("market_beta", [("600000", some 1), ("600001", some (-1))]),
    ("size_exposure", [("600000", some 0), ("600001", some 1)])]

end Samples

end FinDashboard.Portfolio
