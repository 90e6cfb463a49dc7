import FinDashboard.Decimal.Quantize
import FinDashboard.Ledger.Dictionary
import FinDashboard.Text.Numbers
import Mathlib.Data.List.Sort
import Mathlib.Data.Nat.Log
import Mathlib.Data.String.Basic

/-!
# Promotion evidence

A screen or a validation arrives as a dictionary of any shape. The gate reads numbers and texts out
of it; what is not a finite number or a text is missing.
-/

namespace FinDashboard.ResearchCode

open Decimal

/-- A key is a text, or another object known by its `str`. -/
inductive Key
  | text (name : String)
  | other (shown : String)
deriving DecidableEq

def Key.str : Key → String
  | .text name => name
  | .other shown => shown

/-- A finite float is its exact value; `member` is an enumeration member with its value. -/
inductive Evidence
  | absent
  | bool (value : Bool)
  | int (value : ℤ)
  | float (value : ℚ)
  | nonFinite (shown : String)
  | text (value : String)
  | sequence (items : List Evidence)
  | mapping (entries : List (Key × Evidence))
  | member (value : Evidence)
  | object (shown : String)

abbrev Dict := List (Key × Evidence)

def Evidence.asMapping : Evidence → Option Dict
  | .mapping entries => some entries
  | _ => none

namespace Dict

/-- `entries.get(name, default)` -/
def getOr (entries : Dict) (name : String) (default : Evidence) : Evidence :=
  (Ledger.find (Key.text name) entries).getD default

/-- `entries.get(name)` -/
def get (entries : Dict) (name : String) : Evidence := entries.getOr name .absent

def has (entries : Dict) (name : String) : Bool := (Ledger.find (Key.text name) entries).isSome

end Dict

/-- `float(n)`: the nearest number with 53 binary digits, and an error beyond the largest one. -/
def floatOfInt (n : ℤ) : Except String ℚ :=
  let shift := Nat.log 2 n.natAbs - 52
  let nearest : ℚ := roundHalfEven (n / 2 ^ shift) * 2 ^ shift
  if |nearest| < 2 ^ 1024 then .ok nearest
  else .error "int too large to convert to float"

theorem floatOfInt_of_small {n : ℤ} (small : n.natAbs < 2 ^ 53) : floatOfInt n = .ok n := by
  have unshifted : Nat.log 2 n.natAbs - 52 = 0 := by
    have bits := Nat.log_lt_of_lt_pow' (b := 2) (by decide) small
    omega
  have within : |(n : ℚ)| < 2 ^ 1024 := by
    have bound : (n.natAbs : ℚ) < 2 ^ 53 := by exact_mod_cast small
    rw [Nat.cast_natAbs, Int.cast_abs] at bound
    exact bound.trans (pow_lt_pow_right₀ one_lt_two (by decide))
  simp only [floatOfInt, unshifted, pow_zero, div_one, mul_one, roundHalfEven_intCast, if_pos within]

def finiteNumber : Evidence → Except String (Option ℚ)
  | .int n => (floatOfInt n).map some
  | .float value => .ok (some value)
  | _ => .ok none

section

variable (shown : Evidence → String)

/-- `str(value)`, where `shown` is the text of a value that is not a text itself. -/
def str : Evidence → String
  | .text value => value
  | value => shown value

def enumValue : Evidence → Option String
  | .absent => none
  | .member value => some (str shown value)
  | value => some (str shown value)

end

def firstText (entries : Dict) : List String → Option String
  | [] => none
  | key :: keys =>
    match entries.get key with
    | .text value => if value = "" then firstText entries keys else some value
    | _ => firstText entries keys

/-- The exponent of the first digit of a positive number. -/
def decimalExponent (x : ℚ) : ℤ :=
  if 1 ≤ x then Nat.log 10 ⌊x⌋₊ else -(Nat.clog 10 ⌈x⁻¹⌉₊ : ℤ)

def stripZeros (text : List Char) : List Char := (text.reverse.dropWhile (· = '0')).reverse

/-- Six significant digits and the exponent of the first of them. -/
def sixDigits (x : ℚ) : List Char × ℤ :=
  let exponent := decimalExponent x
  let scaled := (roundHalfEven (x * (10 : ℚ) ^ (5 - exponent))).toNat
  if scaled = 10 ^ 6 then (Text.padded 6 (10 ^ 5), exponent + 1)
  else (Text.padded 6 scaled, exponent)

def generalText (x : ℚ) : List Char :=
  if x = 0 then ['0']
  else
    let (digits, exponent) := sixDigits |x|
    let unsigned :=
      if exponent < -4 ∨ 6 ≤ exponent then
        digits.take 1 ++ Text.fractionText (stripZeros (digits.drop 1)) ++
          'e' :: Text.exponentText 2 exponent
      else if exponent < 0 then
        '0' :: Text.fractionText
          (stripZeros (List.replicate (-exponent - 1).toNat '0' ++ digits))
      else
        digits.take (exponent + 1).toNat ++
          Text.fractionText (stripZeros (digits.drop (exponent + 1).toNat))
    if x < 0 then '-' :: unsigned else unsigned

/-- The format `x:g`. -/
def formatG (x : ℚ) : String := String.ofList (generalText x)

example : formatG (3 / 100) = "0.03" := by decide +kernel

/-!
## Promotion gate

A research artifact is promoted when its screen meets the thresholds and its validation experiment
is validated out of sample, unsealed and stamped with the artifact. Every missing entry is a named
failure, and the gate passes when there is no failure.
-/

structure PromotionScreenThresholds where
  minAbsRankIc : ℚ := 2 / 100
  maxAverageTurnover : ℚ := 80 / 100
  maxAbsCorrelation : ℚ := 80 / 100
  minPeriods : ℤ := 2
  minAbsRankIc_nonneg : 0 ≤ minAbsRankIc := by decide +kernel
  maxAverageTurnover_fraction : 0 ≤ maxAverageTurnover ∧ maxAverageTurnover ≤ 1 := by
    decide +kernel
  maxAbsCorrelation_fraction : 0 ≤ maxAbsCorrelation ∧ maxAbsCorrelation ≤ 1 := by decide +kernel
  minPeriods_pos : 1 ≤ minPeriods := by decide

inductive CheckStatus
  | pass
  | fail
  | notEvaluated
deriving DecidableEq

def firstMapping (factors : Dict) (keys : List String) : Option Dict :=
  keys.findSome? fun key => (factors.get key).asMapping

/-- The names under which a screen of factors may list the artifact. -/
def candidates (artifactName : Option String) : List String :=
  match artifactName with
  | none => [""]
  | some name => if name = "" then [""] else [name, "u_" ++ name]

def soleFactor : Dict → Option Dict
  | [(_, .mapping metrics)] => some metrics
  | _ => none

def metricKeys : List String := ["rank_ic", "ic", "average_turnover", "turnover"]

def selectScreenMetrics (root : Dict) (artifactName : Option String) : Option Dict :=
  match (root.get "factors").asMapping with
  | some factors => (firstMapping factors (candidates artifactName)).or (soleFactor factors)
  | none =>
    match (root.get "strategy").asMapping with
    | some strategy => some strategy
    | none => if metricKeys.any root.has then some root else none

/-- Only an explicit empty list says that there was nothing to compare with. -/
def declaresEmptyBaselines (root : Dict) : Bool :=
  match root.get "correlation_baselines" with
  | .sequence [] => true
  | _ => false

section

variable (thresholds : PromotionScreenThresholds) (root metrics : Dict)

def periodsJudged : Evidence := metrics.getOr "n_periods" (root.get "n_periods")

def rankIcJudged : Evidence := metrics.getOr "rank_ic" (metrics.get "ic")

def turnoverJudged : Evidence := metrics.getOr "average_turnover" (metrics.get "turnover")

def correlationsJudged : Evidence := metrics.getOr "correlation" (metrics.get "correlations")

def periodsFailure : Option ℚ → Option String
  | none => some "screen.n_periods_missing"
  | some periods =>
    if periods < thresholds.minPeriods then
      some s!"screen.n_periods_below_minimum({formatG periods}<{thresholds.minPeriods})"
    else none

def rankIcFailure : Option ℚ → Option String
  | none => some "screen.rank_ic_missing"
  | some rankIc =>
    if |rankIc| < thresholds.minAbsRankIc then
      some s!"screen.rank_ic_below_minimum(abs={formatG |rankIc|}<{formatG thresholds.minAbsRankIc})"
    else none

def turnoverFailure : Option ℚ → Option String
  | none => some "screen.average_turnover_missing"
  | some turnover =>
    if turnover < 0 ∨ thresholds.maxAverageTurnover < turnover then
      some s!"screen.turnover_above_maximum({formatG turnover}>{formatG thresholds.maxAverageTurnover})"
    else none

def correlationFailure (baseline : Key) : Option ℚ → Option String
  | none => some s!"screen.correlation_invalid({baseline.str})"
  | some value =>
    if thresholds.maxAbsCorrelation < |value| then
      some s!"screen.correlation_above_maximum({baseline.str}:abs={formatG |value|}>{formatG thresholds.maxAbsCorrelation})"
    else none

def correlationFailures : Dict → Except String (List String)
  | [] => .ok []
  | (baseline, value) :: rest => do
    let number ← finiteNumber value
    let later ← correlationFailures rest
    .ok ((correlationFailure thresholds baseline number).toList ++ later)

def sortedByName (correlations : Dict) : Dict :=
  correlations.insertionSort fun first second => first.1.str ≤ second.1.str

def correlationNotEvaluatedFix : String :=
  "修复:screen run 横截面需含至少一个非用户因子特征(builtin 因子或价格特征)作为相关性 baseline,重跑 screen 后再晋级"

def correlationCheck : Except String (List String × CheckStatus) :=
  match (correlationsJudged metrics).asMapping.getD [] with
  | first :: rest => do
    let failures ← correlationFailures thresholds (sortedByName (first :: rest))
    .ok (failures, if failures = [] then .pass else .fail)
  | [] =>
    if declaresEmptyBaselines root then
      .ok ([s!"screen.correlation_not_evaluated({correlationNotEvaluatedFix})"], .notEvaluated)
    else .ok (["screen.correlation_missing"], .fail)

def checkStatus (failure : Option String) : CheckStatus :=
  if failure = none then .pass else .fail

/-- The failures of the four checks in order, and the status of each check. -/
def screenChecks : Except String (List String × List (String × CheckStatus)) := do
  let periods ← finiteNumber (periodsJudged root metrics)
  let rankIc ← finiteNumber (rankIcJudged metrics)
  let turnover ← finiteNumber (turnoverJudged metrics)
  let (correlation, status) ← correlationCheck thresholds root metrics
  let failed := [periodsFailure thresholds periods, rankIcFailure thresholds rankIc,
    turnoverFailure thresholds turnover]
  .ok (failed.flatMap Option.toList ++ correlation,
    ["n_periods", "rank_ic", "average_turnover"].zip (failed.map checkStatus) ++
      [("correlation", status)])

end

structure ScreenOutcome where
  metrics : Option Dict
  failures : List String
  checks : List (String × CheckStatus)

def screenMetricsAndFailures (screen : Option Dict) (thresholds : PromotionScreenThresholds)
    (artifactName : Option String) : Except String ScreenOutcome :=
  match screen with
  | none => .ok { metrics := none, failures := ["screen_missing"], checks := [] }
  | some root =>
    match selectScreenMetrics root artifactName with
    | none => .ok { metrics := none, failures := ["screen_metrics_missing"], checks := [] }
    | some metrics => do
      let (failures, checks) ← screenChecks thresholds root metrics
      .ok { metrics := some metrics, failures, checks }

def stampOf (validation : Dict) : Dict := (validation.get "version_stamp").asMapping.getD []

def unsealed (validation : Dict) : Bool :=
  match validation.get "final_test_unsealed" with
  | .bool true => true
  | _ => false

def boundId (stamp : Dict) : Option String := firstText stamp ["code_artifact_id", "artifact_id"]

def boundCommit (stamp : Dict) : Option String := firstText stamp ["code_commit", "commit"]

def stampKind (stamp : Dict) : Option String := firstText stamp ["code_kind", "strategy_kind"]

def boundName (stamp : Dict) : Option String :=
  firstText stamp ["code_artifact_name", "artifact_name"]

def expectedKind (artifactKind : Option String) : String :=
  if artifactKind = some "factor" then "factor" else "user_code"

/-- A value that is absent and an empty text are both falsy. -/
def given (text : Option String) : Bool := text.getD "" ≠ ""

section

variable (stamp : Dict) (artifactId artifactKind artifactName artifactCommit : Option String)

def idFailure : Option String :=
  if !given artifactId then some "validation.artifact_id_context_missing"
  else if boundId stamp ≠ artifactId then
    let actual := (boundId stamp).getD "missing"
    let wanted := artifactId.getD ""
    some s!"validation.artifact_id_mismatch({actual}!={wanted})"
  else none

def commitFailure : Option String :=
  if !given artifactCommit then some "validation.code_commit_context_missing"
  else if boundCommit stamp ≠ artifactCommit then
    let actual := (boundCommit stamp).getD "missing"
    let expected := (artifactCommit.getD "").take 12
    some s!"validation.code_commit_mismatch({actual}!={expected})"
  else none

def kindFailure : Option String :=
  if stampKind stamp ∉ [some (expectedKind artifactKind), artifactKind] then
    let actual := (stampKind stamp).getD "missing"
    let expected := expectedKind artifactKind
    some s!"validation.code_kind_mismatch({actual}!={expected})"
  else none

def nameFailure : Option String :=
  if !given artifactName then none
  else
    match boundName stamp with
    | none => some "validation.code_artifact_name_missing"
    | some bound =>
      if some bound ≠ artifactName then
        let wanted := artifactName.getD ""
        some s!"validation.code_artifact_name_mismatch({bound}!={wanted})"
      else none

/-- What the stamp lacks to be the artifact's. -/
def bindingFailures : List String :=
  [idFailure stamp artifactId, commitFailure stamp artifactCommit, kindFailure stamp artifactKind,
    nameFailure stamp artifactName].flatMap Option.toList

end

section

variable (shown : Evidence → String) (validation : Dict)

def statusFailure (status : Option String) : Option String :=
  if status ≠ some "validated_oos" then
    -- an empty text is falsy
    let name := if given status then status.getD "" else "missing"
    some s!"validation.status_not_validated_oos({name})"
  else none

def unsealedFailure (unsealed : Bool) : Option String :=
  if unsealed then none else some "validation.final_test_not_unsealed"

def stampSummary (stamp : Dict) : Dict :=
  ["code_artifact_id", "code_artifact_name", "code_kind", "code_commit"].filterMap fun key =>
    (Ledger.find (Key.text key) stamp).map (Key.text key, ·)

def ofText (text : Option String) : Evidence := text.elim .absent .text

def validationSummary : Dict :=
  [(Key.text "experiment_id", validation.get "experiment_id"),
    (Key.text "status", ofText (enumValue shown (validation.get "status"))),
    (Key.text "final_test_unsealed", .bool (unsealed validation)),
    (Key.text "oos_outcome", ofText (enumValue shown (validation.get "oos_outcome"))),
    (Key.text "finalized_at", validation.get "finalized_at"),
    (Key.text "version_checksum", validation.get "version_checksum")] ++
  if stampOf validation = [] then []
  else [(Key.text "version_stamp", .mapping (stampSummary (stampOf validation)))]

def validationSummaryAndFailures (validation : Option Dict)
    (artifactId artifactKind artifactName artifactCommit : Option String)
    (requireArtifactBinding : Bool) : Dict × List String :=
  match validation with
  | none =>
    ([(Key.text "status", .absent), (Key.text "final_test_unsealed", .bool false)],
      ["validation_missing"])
  | some validation =>
    (validationSummary shown validation,
      (statusFailure (enumValue shown (validation.get "status"))).toList ++
        (unsealedFailure (unsealed validation)).toList ++
        if requireArtifactBinding then
          bindingFailures (stampOf validation) artifactId artifactKind artifactName artifactCommit
        else [])

end

/-- A validation is a mapping, or an object whose `as_dict` may give one. -/
inductive ValidationSource
  | missing
  | mapping (entries : Dict)
  | object (asDict : Option Evidence)

def objectAsMapping : ValidationSource → Option Dict
  | .missing => none
  | .mapping entries => some entries
  | .object asDict => asDict.bind Evidence.asMapping

structure PromotionGateResult where
  screenPassed : Bool
  validationPassed : Bool
  failures : List String
  screenMetrics : Option Dict
  validationSummary : Dict
  thresholds : PromotionScreenThresholds
  screenChecks : List (String × CheckStatus)

def PromotionGateResult.passed (result : PromotionGateResult) : Bool :=
  result.screenPassed && result.validationPassed && result.failures.isEmpty

def evaluatePromotionGates (shown : Evidence → String) (screen : Option Dict)
    (validation : ValidationSource) (thresholds : PromotionScreenThresholds := {})
    (artifactId artifactKind artifactName artifactCommit : Option String := none)
    (requireArtifactBinding : Bool := false) : Except String PromotionGateResult := do
  let judged ← screenMetricsAndFailures screen thresholds artifactName
  let (summary, failures) := validationSummaryAndFailures shown (objectAsMapping validation)
    artifactId artifactKind artifactName artifactCommit requireArtifactBinding
  .ok {
    screenPassed := judged.failures.isEmpty
    validationPassed := failures.isEmpty
    failures := (judged.failures ++ failures).eraseDups
    screenMetrics := judged.metrics
    validationSummary := summary
    thresholds
    screenChecks := judged.checks }

end FinDashboard.ResearchCode
