import FinDashboard.ResearchCode.Promotion
import FinDashboard.Runs.Fallible

/-!
# What a passed gate is bound to

A gate that passes has judged metrics within the thresholds and a validation stamped with the
artifact. The metrics are the artifact's own unless the screen lists one factor only, which is
judged whatever its name.
-/

namespace FinDashboard.ResearchCode

open List

theorem eraseDups_eq_nil {α : Type} [DecidableEq α] {items : List α} :
    items.eraseDups = [] ↔ items = [] := by
  cases items with
  | nil => simp
  | cons item rest => simp [eraseDups_cons]

section

variable {thresholds : PromotionScreenThresholds} {root metrics : Dict}

theorem periodsFailure_eq_none {periods : Option ℚ} : periodsFailure thresholds periods = none ↔
      ∃ value, periods = some value ∧ (thresholds.minPeriods : ℚ) ≤ value := by
  cases periods with
  | none => simp [periodsFailure]
  | some value => simp [periodsFailure]

theorem rankIcFailure_eq_none {rankIc : Option ℚ} : rankIcFailure thresholds rankIc = none ↔
      ∃ value, rankIc = some value ∧ thresholds.minAbsRankIc ≤ |value| := by
  cases rankIc with
  | none => simp [rankIcFailure]
  | some value => simp [rankIcFailure]

theorem turnoverFailure_eq_none {turnover : Option ℚ} : turnoverFailure thresholds turnover = none ↔
      ∃ value, turnover = some value ∧ 0 ≤ value ∧ value ≤ thresholds.maxAverageTurnover := by
  cases turnover with
  | none => simp [turnoverFailure]
  | some value => simp [turnoverFailure]

theorem correlationFailure_eq_none {baseline : Key} {value : Option ℚ} :
    correlationFailure thresholds baseline value = none ↔
      ∃ number, value = some number ∧ |number| ≤ thresholds.maxAbsCorrelation := by
  cases value with
  | none => simp [correlationFailure]
  | some number => simp [correlationFailure]

/-- A finite correlation within the limit. -/
def Tolerable (thresholds : PromotionScreenThresholds) (value : Evidence) : Prop :=
  ∃ number, finiteNumber value = .ok (some number) ∧ |number| ≤ thresholds.maxAbsCorrelation

/-- What the metrics of a screen have to show. -/
structure SufficientScreen (thresholds : PromotionScreenThresholds) (root metrics : Dict) : Prop
    where
  periods : ∃ value, finiteNumber (periodsJudged root metrics) = .ok (some value) ∧
    (thresholds.minPeriods : ℚ) ≤ value
  rankIc : ∃ value, finiteNumber (rankIcJudged metrics) = .ok (some value) ∧
    thresholds.minAbsRankIc ≤ |value|
  turnover : ∃ value, finiteNumber (turnoverJudged metrics) = .ok (some value) ∧
    0 ≤ value ∧ value ≤ thresholds.maxAverageTurnover
  correlations : ∃ entries, (correlationsJudged metrics).asMapping = some entries ∧ entries ≠ [] ∧
    ∀ entry ∈ entries, Tolerable thresholds entry.2

theorem correlationFailures_eq_nil {entries : Dict} : correlationFailures thresholds entries = .ok [] ↔
      ∀ entry ∈ entries, Tolerable thresholds entry.2 := by
  induction entries with
  | nil => simp [correlationFailures]
  | cons entry rest ih =>
    obtain ⟨baseline, value⟩ := entry
    rw [forall_mem_cons, ← ih]
    constructor
    · intro judged
      obtain ⟨number, read, judged⟩ := bind_eq_ok.mp judged
      obtain ⟨later, remaining, judged⟩ := bind_eq_ok.mp judged
      have clean := append_eq_nil_iff.mp (Except.ok.inj judged)
      have tolerated : correlationFailure thresholds baseline number = none := by
        simpa using clean.1
      obtain ⟨x, rfl, within⟩ := correlationFailure_eq_none.mp tolerated
      rw [clean.2] at remaining
      exact ⟨⟨x, read, within⟩, remaining⟩
    · rintro ⟨⟨x, read, within⟩, remaining⟩
      have tolerated : correlationFailure thresholds baseline (some x) = none :=
        correlationFailure_eq_none.mpr ⟨x, rfl, within⟩
      refine bind_eq_ok.mpr ⟨some x, read, bind_eq_ok.mpr ⟨[], remaining, ?_⟩⟩
      rw [tolerated]
      rfl

theorem correlationCheck_clean {status : CheckStatus} :
    correlationCheck thresholds root metrics = .ok ([], status) ↔ status = .pass ∧
      ∃ entries, (correlationsJudged metrics).asMapping = some entries ∧ entries ≠ [] ∧
        ∀ entry ∈ entries, Tolerable thresholds entry.2 := by
  cases judged : (correlationsJudged metrics).asMapping with
  | none =>
    have missing : ∀ status, correlationCheck thresholds root metrics ≠ .ok ([], status) := by
      intro status
      simp only [correlationCheck, judged, Option.getD_none]
      split <;> simp
    simp [missing]
  | some entries =>
    cases entries with
    | nil =>
      have missing : ∀ status, correlationCheck thresholds root metrics ≠ .ok ([], status) := by
        intro status
        simp only [correlationCheck, judged, Option.getD_some]
        split <;> simp
      simp [missing]
    | cons first rest =>
      have sorted : (∀ entry ∈ sortedByName (first :: rest), Tolerable thresholds entry.2) ↔
          ∀ entry ∈ first :: rest, Tolerable thresholds entry.2 := by
        simp only [sortedByName, mem_insertionSort]
      have inner : correlationCheck thresholds root metrics = .ok ([], status) ↔
          correlationFailures thresholds (sortedByName (first :: rest)) = .ok [] ∧
            status = .pass := by
        simp only [correlationCheck, judged, Option.getD_some]
        constructor
        · intro checked
          obtain ⟨failures, found, checked⟩ := bind_eq_ok.mp checked
          obtain ⟨rfl, rfl⟩ := Prod.mk.inj (Except.ok.inj checked)
          exact ⟨found, rfl⟩
        · rintro ⟨found, rfl⟩
          exact bind_eq_ok.mpr ⟨[], found, rfl⟩
      rw [inner, correlationFailures_eq_nil, sorted]
      constructor
      · rintro ⟨tolerable, passed⟩
        exact ⟨passed, first :: rest, rfl, cons_ne_nil first rest, tolerable⟩
      · rintro ⟨passed, entries, same, -, tolerable⟩
        cases same
        exact ⟨tolerable, passed⟩

theorem screenChecks_clean : (∃ checks, screenChecks thresholds root metrics = .ok ([], checks)) ↔
      SufficientScreen thresholds root metrics := by
  constructor
  · rintro ⟨checks, checked⟩
    obtain ⟨periods, readPeriods, checked⟩ := bind_eq_ok.mp checked
    obtain ⟨rankIc, readRankIc, checked⟩ := bind_eq_ok.mp checked
    obtain ⟨turnover, readTurnover, checked⟩ := bind_eq_ok.mp checked
    obtain ⟨⟨correlation, status⟩, readCorrelation, checked⟩ := bind_eq_ok.mp checked
    obtain ⟨failures, -⟩ := Prod.mk.inj (Except.ok.inj checked)
    have clean := append_eq_nil_iff.mp failures
    simp only [flatMap_cons, flatMap_nil, append_eq_nil_iff, Option.toList_eq_nil_iff, and_true] at clean
    obtain ⟨⟨noPeriods, noRankIc, noTurnover⟩, noCorrelation⟩ := clean
    obtain ⟨n, rfl, enough⟩ := periodsFailure_eq_none.mp noPeriods
    obtain ⟨ic, rfl, strong⟩ := rankIcFailure_eq_none.mp noRankIc
    obtain ⟨share, rfl, bounds⟩ := turnoverFailure_eq_none.mp noTurnover
    have readClean := noCorrelation ▸ readCorrelation
    exact {
      periods := ⟨n, readPeriods, enough⟩
      rankIc := ⟨ic, readRankIc, strong⟩
      turnover := ⟨share, readTurnover, bounds⟩
      correlations := (correlationCheck_clean.mp readClean).2 }
  · intro sufficient
    obtain ⟨n, readPeriods, enough⟩ := sufficient.periods
    obtain ⟨ic, readRankIc, strong⟩ := sufficient.rankIc
    obtain ⟨share, readTurnover, bounds⟩ := sufficient.turnover
    have readCorrelation : correlationCheck thresholds root metrics = .ok ([], .pass) :=
      correlationCheck_clean.mpr ⟨rfl, sufficient.correlations⟩
    have noPeriods := periodsFailure_eq_none.mpr ⟨n, rfl, enough⟩
    have noRankIc := rankIcFailure_eq_none.mpr ⟨ic, rfl, strong⟩
    have noTurnover := turnoverFailure_eq_none.mpr ⟨share, rfl, bounds⟩
    have checked : screenChecks thresholds root metrics = .ok ([], [("n_periods", .pass),
        ("rank_ic", .pass), ("average_turnover", .pass), ("correlation", .pass)]) := by
      simp only [screenChecks, readPeriods, readRankIc, readTurnover, readCorrelation, bind,
        Except.bind, noPeriods, noRankIc, noTurnover]
      rfl
    exact ⟨_, checked⟩

end

/-- An artifact of the register. -/
structure Artifact where
  id : String
  kind : Option String
  name : String
  commit : String
  id_given : id ≠ ""
  name_given : name ≠ ""
  commit_given : commit ≠ ""

section

variable {root metrics : Dict} {name : String}

/-- The metrics a screen records for an artifact: its entry among the factors, the strategy's
entry, or the screen itself where it is the metrics of one artifact. -/
inductive RecordedFor (root : Dict) (name : String) : Dict → Prop
  | factor {factors metrics : Dict} (listed : (root.get "factors").asMapping = some factors)
      (entry : (factors.get name).asMapping = some metrics) : RecordedFor root name metrics
  | userFactor {factors metrics : Dict} (listed : (root.get "factors").asMapping = some factors)
      (unnamed : (factors.get name).asMapping = none)
      (entry : (factors.get ("u_" ++ name)).asMapping = some metrics) :
      RecordedFor root name metrics
  | strategy {metrics : Dict} (unlisted : (root.get "factors").asMapping = none)
      (entry : (root.get "strategy").asMapping = some metrics) : RecordedFor root name metrics
  | bare (unlisted : (root.get "factors").asMapping = none)
      (single : (root.get "strategy").asMapping = none)
      (judged : metricKeys.any root.has = true) : RecordedFor root name root

/-- The metrics of another factor, the only one the screen lists. -/
inductive BorrowedFor (root : Dict) (name : String) : Dict → Prop
  | sole {factors metrics : Dict} (listed : (root.get "factors").asMapping = some factors)
      (unnamed : (factors.get name).asMapping = none)
      (unprefixed : (factors.get ("u_" ++ name)).asMapping = none)
      (alone : soleFactor factors = some metrics) : BorrowedFor root name metrics

theorem not_recordedFor_of_borrowedFor (borrowed : BorrowedFor root name metrics)
    (other : Dict) : ¬ RecordedFor root name other := by
  obtain ⟨listed, unnamed, unprefixed, -⟩ := borrowed
  intro recorded
  cases recorded with
  | factor relisted entry =>
    cases listed.symm.trans relisted
    cases unnamed.symm.trans entry
  | userFactor relisted _ entry =>
    cases listed.symm.trans relisted
    cases unprefixed.symm.trans entry
  | strategy unlisted _ => cases listed.symm.trans unlisted
  | bare unlisted _ _ => cases listed.symm.trans unlisted

theorem selectScreenMetrics_iff (given : name ≠ "") :
    selectScreenMetrics root (some name) = some metrics ↔
      RecordedFor root name metrics ∨ BorrowedFor root name metrics := by
  have names : candidates (some name) = [name, "u_" ++ name] := if_neg given
  constructor
  · intro selected
    unfold selectScreenMetrics at selected
    cases listed : (root.get "factors").asMapping with
    | some factors =>
      simp only [listed, names, firstMapping, findSome?_cons] at selected
      cases named : (factors.get name).asMapping with
      | some entry =>
        simp only [named, Option.some_or] at selected
        cases selected
        exact Or.inl (.factor listed named)
      | none =>
        cases prefixed : (factors.get ("u_" ++ name)).asMapping with
        | some entry =>
          simp only [named, prefixed, Option.some_or] at selected
          cases selected
          exact Or.inl (.userFactor listed named prefixed)
        | none =>
          simp only [named, prefixed, findSome?_nil, Option.none_or] at selected
          exact Or.inr (.sole listed named prefixed selected)
    | none =>
      simp only [listed] at selected
      cases single : (root.get "strategy").asMapping with
      | some strategy =>
        simp only [single] at selected
        cases selected
        exact Or.inl (.strategy listed single)
      | none =>
        simp only [single, Option.ite_none_right_eq_some, Option.some.injEq] at selected
        obtain ⟨judged, rfl⟩ := selected
        exact Or.inl (.bare listed single judged)
  · rintro (recorded | borrowed)
    · cases recorded with
      | factor listed entry =>
        simp [selectScreenMetrics, listed, names, firstMapping, entry]
      | userFactor listed unnamed entry =>
        simp [selectScreenMetrics, listed, names, firstMapping, unnamed, entry]
      | strategy unlisted entry => simp [selectScreenMetrics, unlisted, entry]
      | bare unlisted single judged => simp [selectScreenMetrics, unlisted, single, judged]
    · obtain ⟨listed, unnamed, unprefixed, alone⟩ := borrowed
      simp [selectScreenMetrics, listed, names, firstMapping, unnamed, unprefixed, alone]

end

section

variable {stamp : Dict} {artifact : Artifact}

/-- The artifact's own kind, or `user_code` where the artifact is not a factor. -/
def KindStamped (artifactKind : Option String) (stamp : Dict) : Prop :=
  ∃ kind, stampKind stamp = some kind ∧
    (artifactKind = some kind ∨ artifactKind ≠ some "factor" ∧ kind = "user_code")

/-- No kind is asked for and none is stamped. -/
def KindMissing (artifactKind : Option String) (stamp : Dict) : Prop :=
  artifactKind = none ∧ stampKind stamp = none

theorem not_kindStamped_of_kindMissing {artifactKind : Option String}
    (missing : KindMissing artifactKind stamp) : ¬ KindStamped artifactKind stamp := by
  rintro ⟨kind, stamped, -⟩
  cases missing.2.symm.trans stamped

/-- The stamp names the artifact, its commit and its id. -/
structure Named (artifact : Artifact) (stamp : Dict) : Prop where
  id : boundId stamp = some artifact.id
  commit : boundCommit stamp = some artifact.commit
  name : boundName stamp = some artifact.name

structure Stamped (artifact : Artifact) (stamp : Dict) : Prop extends Named artifact stamp where
  kind : KindStamped artifact.kind stamp

structure Validated (shown : Evidence → String) (validation : Dict) : Prop where
  status : enumValue shown (validation.get "status") = some "validated_oos"
  final : unsealed validation = true

theorem kindFailure_eq_none {artifactKind : Option String} : kindFailure stamp artifactKind = none ↔
      KindStamped artifactKind stamp ∨ KindMissing artifactKind stamp := by
  have passes : kindFailure stamp artifactKind = none ↔
      stampKind stamp = some (expectedKind artifactKind) ∨ stampKind stamp = artifactKind := by
    simp [kindFailure, or_iff_not_imp_left]
  rw [passes]
  constructor
  · rintro (expected | same)
    · refine Or.inl ⟨_, expected, ?_⟩
      by_cases factor : artifactKind = some "factor"
      · simp [factor, expectedKind]
      · exact Or.inr ⟨factor, if_neg factor⟩
    · cases stamped : stampKind stamp with
      | none => exact Or.inr ⟨same.symm.trans stamped, stamped⟩
      | some kind => exact Or.inl ⟨kind, stamped, Or.inl (same.symm.trans stamped)⟩
  · rintro (⟨kind, stamped, same | ⟨other, rfl⟩⟩ | ⟨unasked, unstamped⟩)
    · exact Or.inr (stamped.trans same.symm)
    · exact Or.inl (by rw [stamped, expectedKind, if_neg other])
    · exact Or.inr (unstamped.trans unasked.symm)

theorem given_of_ne {text : String} (nonempty : text ≠ "") : given (some text) = true := by
  simp [given, nonempty]

theorem bindingFailures_eq_nil :
    bindingFailures stamp (some artifact.id) artifact.kind (some artifact.name)
        (some artifact.commit) = [] ↔ Named artifact stamp ∧
        (KindStamped artifact.kind stamp ∨ KindMissing artifact.kind stamp) := by
  have idClean : idFailure stamp (some artifact.id) = none ↔
      boundId stamp = some artifact.id := by
    simp [idFailure, given_of_ne artifact.id_given]
  have commitClean : commitFailure stamp (some artifact.commit) = none ↔
      boundCommit stamp = some artifact.commit := by
    simp [commitFailure, given_of_ne artifact.commit_given]
  have nameClean : nameFailure stamp (some artifact.name) = none ↔
      boundName stamp = some artifact.name := by
    cases bound : boundName stamp with
    | none => simp [nameFailure, given_of_ne artifact.name_given, bound]
    | some other => simp [nameFailure, given_of_ne artifact.name_given, bound]
  have parts : bindingFailures stamp (some artifact.id) artifact.kind (some artifact.name)
      (some artifact.commit) = [] ↔ idFailure stamp (some artifact.id) = none ∧
        commitFailure stamp (some artifact.commit) = none ∧
        kindFailure stamp artifact.kind = none ∧
        nameFailure stamp (some artifact.name) = none := by
    simp [bindingFailures]
  rw [parts, idClean, commitClean, kindFailure_eq_none, nameClean]
  constructor
  · rintro ⟨id, commit, kind, name⟩
    exact ⟨⟨id, commit, name⟩, kind⟩
  · rintro ⟨⟨id, commit, name⟩, kind⟩
    exact ⟨id, commit, kind, name⟩

theorem validationFailures_eq_nil {shown : Evidence → String} {validation : Option Dict} :
    (validationSummaryAndFailures shown validation (some artifact.id) artifact.kind
        (some artifact.name) (some artifact.commit) true).2 = [] ↔
      ∃ data, validation = some data ∧ Validated shown data ∧ Named artifact (stampOf data) ∧
        (KindStamped artifact.kind (stampOf data) ∨ KindMissing artifact.kind (stampOf data)) := by
  cases validation with
  | none => simp [validationSummaryAndFailures]
  | some data =>
    have statusClean : statusFailure (enumValue shown (data.get "status")) = none ↔
        enumValue shown (data.get "status") = some "validated_oos" := by
      simp [statusFailure]
    have sealClean : unsealedFailure (unsealed data) = none ↔ unsealed data = true := by
      simp [unsealedFailure]
    simp only [validationSummaryAndFailures, append_eq_nil_iff, Option.toList_eq_nil_iff,
      statusClean, sealClean, if_pos, bindingFailures_eq_nil]
    constructor
    · rintro ⟨⟨status, final⟩, named, kind⟩
      exact ⟨data, rfl, ⟨status, final⟩, named, kind⟩
    · rintro ⟨_, same, valid, named, kind⟩
      cases same
      exact ⟨⟨valid.status, valid.final⟩, named, kind⟩

end

section

variable {shown : Evidence → String} {artifact : Artifact}
  {thresholds : PromotionScreenThresholds} {screen : Option Dict} {validation : ValidationSource}

/-- The evidence that passes: sufficient metrics, the artifact's own or borrowed, and a stamped
validation whose kind may be missing where none is asked for. -/
structure Evidenced (shown : Evidence → String) (artifact : Artifact)
    (thresholds : PromotionScreenThresholds) (screen : Option Dict) (validation : ValidationSource)
    (root metrics data : Dict) : Prop where
  listed : screen = some root
  judged : RecordedFor root artifact.name metrics ∨ BorrowedFor root artifact.name metrics
  sufficient : SufficientScreen thresholds root metrics
  mapped : objectAsMapping validation = some data
  validated : Validated shown data
  named : Named artifact (stampOf data)
  kind : KindStamped artifact.kind (stampOf data) ∨ KindMissing artifact.kind (stampOf data)

/-- The evidence of the artifact itself, with its kind. -/
structure Bound (shown : Evidence → String) (artifact : Artifact)
    (thresholds : PromotionScreenThresholds) (screen : Option Dict) (validation : ValidationSource)
    (metrics : Dict) : Prop where
  screen : ∃ root, screen = some root ∧ RecordedFor root artifact.name metrics ∧
    SufficientScreen thresholds root metrics
  validation : ∃ data, objectAsMapping validation = some data ∧ Validated shown data ∧
    Stamped artifact (stampOf data)

theorem screenFailures_clean {outcome : ScreenOutcome} {name : String} (given : name ≠ "")
    (judged : screenMetricsAndFailures screen thresholds (some name) = .ok outcome)
    (clean : outcome.failures = []) :
    ∃ root metrics, screen = some root ∧ outcome.metrics = some metrics ∧
      (RecordedFor root name metrics ∨ BorrowedFor root name metrics) ∧
      SufficientScreen thresholds root metrics := by
  unfold screenMetricsAndFailures at judged
  cases screen with
  | none =>
    cases judged
    cases clean
  | some root =>
    cases selected : selectScreenMetrics root (some name) with
    | none =>
      simp only [selected] at judged
      cases judged
      cases clean
    | some metrics =>
      simp only [selected] at judged
      obtain ⟨⟨failures, checks⟩, checked, judged⟩ := bind_eq_ok.mp judged
      cases judged
      obtain rfl : failures = [] := clean
      exact ⟨root, metrics, rfl, rfl, (selectScreenMetrics_iff given).mp selected,
        screenChecks_clean.mp ⟨checks, checked⟩⟩

theorem screenFailures_of_sufficient {root metrics : Dict} {name : String} (given : name ≠ "")
    (judged : RecordedFor root name metrics ∨ BorrowedFor root name metrics)
    (sufficient : SufficientScreen thresholds root metrics) :
    ∃ checks, screenMetricsAndFailures (some root) thresholds (some name) =
      .ok { metrics := some metrics, failures := [], checks } := by
  have selected := (selectScreenMetrics_iff given).mpr judged
  obtain ⟨checks, checked⟩ := screenChecks_clean.mpr sufficient
  refine ⟨checks, ?_⟩
  simp only [screenMetricsAndFailures, selected, checked]
  rfl

variable (shown artifact thresholds screen validation) in
def promotionGate : Except String PromotionGateResult :=
  evaluatePromotionGates shown screen validation thresholds (some artifact.id) artifact.kind
    (some artifact.name) (some artifact.commit) true

theorem evidenced_of_passed {result : PromotionGateResult}
    (judged : promotionGate shown artifact thresholds screen validation = .ok result)
    (passed : result.passed = true) : ∃ root metrics data, result.screenMetrics = some metrics ∧
      Evidenced shown artifact thresholds screen validation root metrics data := by
  obtain ⟨outcome, screened, judged⟩ := bind_eq_ok.mp judged
  cases judged
  simp only [PromotionGateResult.passed, Bool.and_eq_true, List.isEmpty_iff] at passed
  obtain ⟨⟨screenClean, validationClean⟩, -⟩ := passed
  obtain ⟨root, metrics, listed, kept, own, sufficient⟩ :=
    screenFailures_clean artifact.name_given screened screenClean
  obtain ⟨data, mapped, validated, named, kind⟩ := validationFailures_eq_nil.mp validationClean
  exact ⟨root, metrics, data, kept, listed, own, sufficient, mapped, validated, named, kind⟩

theorem passed_of_evidenced {root metrics data : Dict}
    (evidence : Evidenced shown artifact thresholds screen validation root metrics data) :
    ∃ result, promotionGate shown artifact thresholds screen validation = .ok result ∧
      result.passed = true ∧ result.screenMetrics = some metrics := by
  obtain ⟨checks, screened⟩ :=
    screenFailures_of_sufficient artifact.name_given evidence.judged evidence.sufficient
  have clean := validationFailures_eq_nil.mpr
    ⟨data, evidence.mapped, evidence.validated, evidence.named, evidence.kind⟩
  rw [← evidence.listed] at screened
  refine ⟨_, bind_eq_ok.mpr ⟨_, screened, rfl⟩, ?_, rfl⟩
  simp only [PromotionGateResult.passed, Bool.and_eq_true, List.isEmpty_iff, eraseDups_eq_nil,
    List.nil_append, true_and]
  exact ⟨clean, clean⟩

/-- A passed gate is bound to its artifact, for every evidence, exactly where no evidence that
passes is borrowed from another factor or lacks the kind. -/
theorem promotionGate_bound_iff (shown : Evidence → String) (artifact : Artifact)
    (thresholds : PromotionScreenThresholds) (screen : Option Dict) (validation : ValidationSource) :
    (∀ result, promotionGate shown artifact thresholds screen validation = .ok result →
      result.passed = true → ∃ metrics, result.screenMetrics = some metrics ∧
        Bound shown artifact thresholds screen validation metrics) ↔
    ∀ root metrics data, Evidenced shown artifact thresholds screen validation root metrics data →
      ¬ BorrowedFor root artifact.name metrics ∧ ¬ KindMissing artifact.kind (stampOf data) := by
  constructor
  · intro bound root metrics data evidence
    obtain ⟨result, judged, passed, kept⟩ := passed_of_evidenced evidence
    obtain ⟨own, same, own_bound⟩ := bound result judged passed
    cases kept.symm.trans same
    obtain ⟨other, listed, recorded, -⟩ := own_bound.screen
    cases evidence.listed.symm.trans listed
    obtain ⟨found, mapped, -, stamped⟩ := own_bound.validation
    cases evidence.mapped.symm.trans mapped
    exact ⟨fun borrowed => not_recordedFor_of_borrowedFor borrowed metrics recorded,
      fun missing => not_kindStamped_of_kindMissing missing stamped.kind⟩
  · intro unborrowed result judged passed
    obtain ⟨root, metrics, data, kept, evidence⟩ := evidenced_of_passed judged passed
    obtain ⟨own, kinded⟩ := unborrowed root metrics data evidence
    refine ⟨metrics, kept, ⟨root, evidence.listed, evidence.judged.resolve_right own,
      evidence.sufficient⟩, data, evidence.mapped, evidence.validated, evidence.named,
      evidence.kind.resolve_right kinded⟩

/-- A factor with good metrics. -/
def betaMetrics : Dict :=
  [(.text "n_periods", .int 3), (.text "rank_ic", .float (5 / 100)),
    (.text "average_turnover", .float (25 / 100)),
    (.text "correlation", .mapping [(.text "momentum", .float (35 / 100))])]

/-- A screen that lists this factor only. -/
def betaScreen : Dict :=
  [(.text "factors", .mapping [(.text "u_beta", .mapping betaMetrics)])]

def alpha : Artifact where
  id := "RC-alpha"
  kind := some "factor"
  name := "alpha"
  commit := "aaaaaaaaaaaa"
  id_given := by decide
  name_given := by decide
  commit_given := by decide

def alphaValidation : Dict :=
  [(.text "status", .text "validated_oos"), (.text "final_test_unsealed", .bool true),
    (.text "version_stamp", .mapping [(.text "code_artifact_id", .text "RC-alpha"),
      (.text "code_artifact_name", .text "alpha"), (.text "code_kind", .text "factor"),
      (.text "code_commit", .text "aaaaaaaaaaaa")])]

theorem standardRankIc_nonneg : (0 : ℚ) ≤ 2 / 100 := by decide +kernel

theorem standardLimit_fraction : (0 : ℚ) ≤ 80 / 100 ∧ (80 : ℚ) / 100 ≤ 1 := by decide +kernel

theorem standardPeriods_pos : (1 : ℤ) ≤ 2 := by decide

def standardThresholds : PromotionScreenThresholds where
  minAbsRankIc_nonneg := standardRankIc_nonneg
  maxAverageTurnover_fraction := standardLimit_fraction
  maxAbsCorrelation_fraction := standardLimit_fraction
  minPeriods_pos := standardPeriods_pos

theorem borrowedFor_alpha : BorrowedFor betaScreen "alpha" betaMetrics :=
  .sole rfl rfl rfl rfl

theorem sufficientScreen_beta : SufficientScreen standardThresholds betaScreen betaMetrics where
  periods := ⟨3, by rw [show finiteNumber (periodsJudged betaScreen betaMetrics) =
    (floatOfInt 3).map some from rfl, floatOfInt_of_small (by decide)]; rfl, by decide +kernel⟩
  rankIc := ⟨5 / 100, rfl, by decide +kernel⟩
  turnover := ⟨25 / 100, rfl, by decide +kernel, by decide +kernel⟩
  correlations := by
    refine ⟨[(.text "momentum", .float (35 / 100))], rfl, cons_ne_nil _ _, ?_⟩
    intro entry member
    obtain rfl := mem_singleton.mp member
    exact ⟨35 / 100, rfl, by decide +kernel⟩

/-- Another factor's screen lets the artifact pass. -/
theorem promotionGate_borrows : ¬ ∀ result,
    promotionGate (fun _ => "") alpha standardThresholds (some betaScreen) (.mapping alphaValidation) =
      .ok result → result.passed = true → ∃ metrics, result.screenMetrics = some metrics ∧
        Bound (fun _ => "") alpha standardThresholds (some betaScreen) (.mapping alphaValidation) metrics := by
  intro bound
  have evidence : Evidenced (fun _ => "") alpha standardThresholds (some betaScreen) (.mapping alphaValidation)
      betaScreen betaMetrics alphaValidation := {
    listed := rfl
    judged := Or.inr borrowedFor_alpha
    sufficient := sufficientScreen_beta
    mapped := rfl
    validated := ⟨rfl, rfl⟩
    named := ⟨rfl, rfl, rfl⟩
    kind := Or.inl ⟨"factor", rfl, Or.inl rfl⟩ }
  obtain ⟨result, judged, passed, kept⟩ := passed_of_evidenced evidence
  obtain ⟨metrics, same, own⟩ := bound result judged passed
  cases kept.symm.trans same
  obtain ⟨root, listed, recorded, -⟩ := own.screen
  cases listed
  exact not_recordedFor_of_borrowedFor borrowedFor_alpha _ recorded

end

end FinDashboard.ResearchCode
