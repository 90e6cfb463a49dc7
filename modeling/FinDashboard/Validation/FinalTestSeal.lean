import FinDashboard.Validation.Runner

/-!
# The seal of the final test set

Before the final test is unsealed, the trial runner is called for the training range, for the test
ranges of the windows, and for the stress phases. A plan keeps its test set sealed when all of these
end before it.
-/

namespace FinDashboard.Validation

open List RunnerState

open FinDashboard.Runs (run run_append run_invariant run_nil)
open RunnerState (Event)

/-- No call made before the unsealing covers a date of the test set. -/
def TestSealed (st : RunnerState) : Prop :=
  ∀ execution ∈ st.executions, execution.unsealed = false →
    ∀ date, execution.start ≤ date → date ≤ execution.last → date < st.experiment.plan.testStart

/-- Every turn that adds a window ends it before the test set; where there is such a turn, the market
phases from the validation start to the end of the test set end before it as well. -/
def SealedPlan (plan : ValidationPlan) : Prop :=
  plan.trainEnd < plan.testStart ∧
    (plan.trainStart < plan.validationEnd → plan.validationStart < plan.testStart →
      ∀ turn, plan.splitArguments.Adds turn →
        plan.splitArguments.testLastAt turn < plan.testStart ∧
          ∀ phase ∈ defaultStressPhases, phase.start ≤ plan.testEnd →
            plan.validationStart ≤ phase.last → phase.last < plan.testStart)

/-- The training range, the windows and, where there are windows, the stress phases of the plan end
before its test set. -/
def SealedRanges (plan : ValidationPlan) : Prop :=
  plan.trainEnd < plan.testStart ∧ ∀ windows, plan.windows = .ok windows →
    (∀ window ∈ windows, window.test.last < plan.testStart) ∧
      (windows ≠ [] → ∀ phase ∈ plan.stressPhases, phase.last < plan.testStart)

/-- What a waiting call may still execute ends before the test set. -/
def RunnerTask.Sealed (plan : ValidationPlan) : RunnerTask → Prop
  | .window _ windows _ =>
    (∀ window ∈ windows, window.test.last < plan.testStart) ∧
      ∀ phase ∈ plan.stressPhases, phase.last < plan.testStart
  | .phase _ phases _ => ∀ phase ∈ phases, phase.last < plan.testStart
  | _ => True

/-- The test set of the plan is sealed, and the waiting calls leave it so. -/
structure Sealed (plan : ValidationPlan) (st : RunnerState) : Prop where
  plan_eq : st.experiment.plan = plan
  sealed : ∀ execution ∈ st.executions, execution.unsealed = false →
    execution.last < plan.testStart
  tasks : ∀ task ∈ st.tasks, task.Sealed plan

/-- A call of the runner, or its continuation, keeps the seal. -/
structure KeepsSeal (plan : ValidationPlan) (moved : RunnerState × RunnerTask) : Prop where
  state : Sealed plan moved.1
  task : moved.2.Sealed plan

section Ranges

variable {plan : ValidationPlan} {windows : List WalkForwardWindow}

theorem range_of_windows (generated : plan.windows = .ok windows) :
    plan.trainStart < plan.validationEnd ∧ plan.validationStart < plan.testStart := by
  unfold ValidationPlan.windows generateWalkForwardWindows at generated
  repeat' split at generated
  all_goals cases generated
  rename_i trainOrder testOrder _ _
  exact ⟨not_le.mp trainOrder, not_le.mp testOrder⟩

theorem windows_of_range (trainOrder : plan.trainStart < plan.validationEnd)
    (testOrder : plan.validationStart < plan.testStart) : ∃ windows, plan.windows = .ok windows := by
  have before := plan.trainOrder
  have after := plan.validationAfterTrain
  have train := plan.trainWindowPositive
  have test := plan.testWindowPositive
  have step := plan.stepPositive
  unfold ValidationPlan.windows generateWalkForwardWindows ValidationPlan.splitArguments
  simp only
  rw [if_neg (by omega), if_neg (by omega), if_neg (by omega), if_neg (by omega)]
  exact ⟨_, rfl⟩

theorem stressPhases_sealed_iff : (∀ phase ∈ plan.stressPhases, phase.last < plan.testStart) ↔
      ∀ phase ∈ defaultStressPhases, phase.start ≤ plan.testEnd →
        plan.validationStart ≤ phase.last → phase.last < plan.testStart := by
  have testOrder := plan.testOrder
  simp only [ValidationPlan.stressPhases, stressPhasesForRange, forall_mem_map,
    forall_mem_filter, decide_eq_true_eq, and_imp, min_lt_iff, not_lt.mpr testOrder.le,
    or_false]

theorem windows_sealed_iff (generated : plan.windows = .ok windows) :
    (∀ window ∈ windows, window.test.last < plan.testStart) ↔ ∀ turn, plan.splitArguments.Adds turn →
        plan.splitArguments.testLastAt turn < plan.testStart := by
  constructor
  · intro sealed' turn adds
    obtain ⟨window, member, -, last⟩ :=
      (exists_mem_generateWalkForwardWindows_iff generated).mpr ⟨turn, adds, rfl, rfl⟩
    rw [← last]
    exact sealed' window member
  · intro sealed' window member
    obtain ⟨turn, adds, -, last⟩ :=
      (exists_mem_generateWalkForwardWindows_iff generated).mp ⟨window, member, rfl, rfl⟩
    rw [← last]
    exact sealed' turn adds

theorem windows_ne_nil_iff (generated : plan.windows = .ok windows) :
    windows ≠ [] ↔ ∃ turn, plan.splitArguments.Adds turn := by
  constructor
  · intro some_window
    obtain ⟨window, member⟩ := exists_mem_of_ne_nil windows some_window
    obtain ⟨turn, adds, -⟩ :=
      (exists_mem_generateWalkForwardWindows_iff generated).mp ⟨window, member, rfl, rfl⟩
    exact ⟨turn, adds⟩
  · rintro ⟨turn, adds⟩
    obtain ⟨window, member, -⟩ :=
      (exists_mem_generateWalkForwardWindows_iff generated).mpr ⟨turn, adds, rfl, rfl⟩
    exact ne_nil_of_mem member

theorem sealedRanges_iff : SealedRanges plan ↔ SealedPlan plan := by
  constructor
  · rintro ⟨train, ranges⟩
    refine ⟨train, ?_⟩
    intro trainOrder testOrder turn adds
    obtain ⟨windows, generated⟩ := windows_of_range trainOrder testOrder
    obtain ⟨ends, phases⟩ := ranges windows generated
    have some_window := (windows_ne_nil_iff generated).mpr ⟨turn, adds⟩
    exact ⟨(windows_sealed_iff generated).mp ends turn adds,
      stressPhases_sealed_iff.mp (phases some_window)⟩
  · rintro ⟨train, turns⟩
    refine ⟨train, ?_⟩
    intro windows generated
    obtain ⟨trainOrder, testOrder⟩ := range_of_windows generated
    have added := turns trainOrder testOrder
    constructor
    · exact (windows_sealed_iff generated).mpr fun turn adds => (added turn adds).1
    · intro some_window
      obtain ⟨turn, adds⟩ := (windows_ne_nil_iff generated).mp some_window
      exact stressPhases_sealed_iff.mpr (added turn adds).2

end Ranges

section Experiment

variable {experiment after : Experiment}

theorem plan_transitionStatus {next : ExperimentStatus}
    (moved : experiment.transitionStatus next = .ok after) : after.plan = experiment.plan := by
  unfold Experiment.transitionStatus at moved
  repeat' split at moved
  all_goals cases moved
  all_goals rfl

theorem plan_incrementTrialsUsed (counted : experiment.incrementTrialsUsed = .ok after) :
    after.plan = experiment.plan := by
  unfold Experiment.incrementTrialsUsed at counted
  split at counted
  · cases counted
  · cases counted
    rfl

theorem markFinalTestUnsealed_ok (marked : experiment.markFinalTestUnsealed = .ok after) :
    experiment.finalTestUnsealed = false ∧ after.finalTestUnsealed = true ∧
      after.plan = experiment.plan ∧ after.trialsUsed = experiment.trialsUsed := by
  unfold Experiment.markFinalTestUnsealed at marked
  split at marked
  · cases marked
  · rename_i unmarked
    split at marked
    · cases marked
      exact ⟨by simpa using unmarked, rfl, rfl, rfl⟩
    · cases marked

end Experiment

variable {results : List WindowMetrics} {best : TrialRecord}

section Steps

variable {plan : ValidationPlan} {gates : Gates} {st : RunnerState}

namespace Sealed

theorem of_same (sealed' : Sealed plan st) {st' : RunnerState}
    (plan_eq : st'.experiment.plan = st.experiment.plan)
    (executions : st'.executions = st.executions) (tasks : st'.tasks = st.tasks) : Sealed plan st' where
  plan_eq := plan_eq.trans sealed'.plan_eq
  sealed := by
    rw [executions]
    exact sealed'.sealed
  tasks := by
    rw [tasks]
    exact sealed'.tasks

/-- A call of the trial runner that ends before the test set, or after the unsealing. -/
theorem execute (sealed' : Sealed plan st) {purpose : Purpose} {start last : ℤ}
    (allowed : st.experiment.finalTestUnsealed = false → last < plan.testStart) :
    Sealed plan (st.execute purpose start last) where
  plan_eq := sealed'.plan_eq
  sealed := by
    intro execution member flag
    rcases mem_append.mp member with earlier | now
    · exact sealed'.sealed execution earlier flag
    · rw [mem_singleton.mp now] at flag ⊢
      exact allowed flag
  tasks := sealed'.tasks

theorem selectBest (sealed' : Sealed plan st) : Sealed plan st.selectBest := by
  unfold RunnerState.selectBest
  simp only
  split
  · exact sealed'.of_same rfl rfl rfl
  · exact sealed'

theorem updateBest (sealed' : Sealed plan st) (best : TrialRecord) (results : List WindowMetrics) :
    Sealed plan (st.updateBest gates best results) := by
  unfold RunnerState.updateBest
  simp only
  split
  · exact sealed'.of_same rfl rfl rfl
  · exact sealed'

theorem nextTrial (sealed' : Sealed plan st) (before : plan.trainEnd < plan.testStart)
    (candidates : List Params) : KeepsSeal plan (st.nextTrial candidates) := by
  unfold RunnerState.nextTrial
  split
  · exact ⟨sealed'.selectBest, trivial⟩
  · split
    · refine ⟨sealed'.execute fun _ => ?_, trivial⟩
      rw [sealed'.plan_eq]
      exact before
    · exact ⟨sealed'.selectBest, trivial⟩

theorem runInSample (sealed' : Sealed plan st) (before : plan.trainEnd < plan.testStart)
    (candidates : List Params) : KeepsSeal plan (st.runInSample candidates) := by
  unfold RunnerState.runInSample
  split
  · split
    · rename_i experiment moved
      have entered : Sealed plan { st with experiment := experiment } :=
        sealed'.of_same (plan_transitionStatus moved) rfl rfl
      exact entered.nextTrial before candidates
    · exact ⟨sealed', trivial⟩
  · exact sealed'.nextTrial before candidates

theorem afterTrial (sealed' : Sealed plan st) (before : plan.trainEnd < plan.testStart)
    (trialId : TrialId) (parameters : Params) (candidates : List Params)
    (reply : Except String WindowMetrics) :
    KeepsSeal plan (st.afterTrial gates trialId parameters candidates reply) := by
  unfold RunnerState.afterTrial
  simp only
  split
  · rename_i experiment counted
    have recorded : Sealed plan { st with
        experiment := experiment
        trials := st.trials ++ [recordOf gates trialId parameters reply] } :=
      sealed'.of_same (plan_incrementTrialsUsed counted) rfl rfl
    exact recorded.nextTrial before candidates
  · exact ⟨sealed'.of_same rfl rfl rfl, trivial⟩

theorem nextWindow (sealed' : Sealed plan st) {window : WalkForwardWindow}
    {windows : List WalkForwardWindow} (ends : ∀ w ∈ window :: windows, w.test.last < plan.testStart)
    (phases : ∀ phase ∈ plan.stressPhases, phase.last < plan.testStart) :
    KeepsSeal plan (st.nextWindow best window windows results) where
  state := sealed'.execute fun _ => ends window mem_cons_self
  task := ⟨fun w member => ends w (mem_cons_of_mem _ member), phases⟩

theorem runWalkForward (sealed' : Sealed plan st) (sealedRanges : SealedRanges plan) :
    KeepsSeal plan st.runWalkForward := by
  unfold RunnerState.runWalkForward
  rw [sealed'.plan_eq]
  split
  · exact ⟨sealed', trivial⟩
  · split
    · exact ⟨sealed', trivial⟩
    · split
      · exact ⟨sealed', trivial⟩
      · exact ⟨sealed', trivial⟩
      · rename_i generated
        obtain ⟨ends, phases⟩ := sealedRanges.2 _ generated
        exact sealed'.nextWindow ends (phases (cons_ne_nil _ _))

theorem nextPhase (sealed' : Sealed plan st)
    {phases : List MarketPhase} (ends : ∀ phase ∈ phases, phase.last < plan.testStart) :
    KeepsSeal plan (st.nextPhase gates best results phases) := by
  cases phases with
  | nil => exact ⟨sealed'.updateBest best results, trivial⟩
  | cons phase phases =>
    refine ⟨sealed'.execute fun _ => ends phase mem_cons_self, ?_⟩
    exact fun p member => ends p (mem_cons_of_mem _ member)

theorem afterWindow (sealed' : Sealed plan st) {windows : List WalkForwardWindow}
    (waiting : RunnerTask.Sealed plan (.window best windows results))
    (reply : Except String WindowMetrics) :
    KeepsSeal plan (st.afterWindow gates best windows results reply) := by
  unfold RunnerState.afterWindow
  simp only
  cases windows with
  | cons window windows => exact sealed'.nextWindow waiting.1 waiting.2
  | nil =>
    simp only
    split
    · split
      · exact ⟨sealed', trivial⟩
      · rw [sealed'.plan_eq]
        exact sealed'.nextPhase waiting.2
    · split
      · exact ⟨sealed', trivial⟩
      · rw [sealed'.plan_eq]
        exact sealed'.nextPhase waiting.2

theorem unsealFinalTest (sealed' : Sealed plan st) : KeepsSeal plan st.unsealFinalTest := by
  unfold RunnerState.unsealFinalTest
  split
  · exact ⟨sealed', trivial⟩
  · split
    · exact ⟨sealed', trivial⟩
    · split
      · exact ⟨sealed', trivial⟩
      · rename_i experiment marked
        obtain ⟨-, unsealed, same, -⟩ := markFinalTestUnsealed_ok marked
        have opened : Sealed plan { st with experiment := experiment } :=
          sealed'.of_same same rfl rfl
        refine ⟨opened.execute ?_, trivial⟩
        intro flag
        change experiment.finalTestUnsealed = false at flag
        rw [unsealed] at flag
        cases flag

theorem settle (sealed' : Sealed plan st) (next : ExperimentStatus) :
    KeepsSeal plan (st.settle next) := by
  unfold RunnerState.settle
  split
  · rename_i moved
    exact ⟨sealed'.of_same (plan_transitionStatus moved) rfl rfl, trivial⟩
  · exact ⟨sealed', trivial⟩

end Sealed

theorem KeepsSeal.launch {begun : RunnerState × RunnerTask} (kept : KeepsSeal plan begun) :
    Sealed plan (launch begun) where
  plan_eq := kept.state.plan_eq
  sealed := kept.state.sealed
  tasks := by
    intro task member
    rcases mem_append.mp member with earlier | now
    · exact kept.state.tasks task earlier
    · rw [mem_singleton.mp now]
      exact kept.task

theorem KeepsSeal.resume {moved : RunnerState × RunnerTask} (kept : KeepsSeal plan moved)
    (place : ℕ) : Sealed plan (resume place moved) where
  plan_eq := kept.state.plan_eq
  sealed := kept.state.sealed
  tasks := by
    intro task member
    rcases mem_or_eq_of_mem_set member with earlier | rfl
    · exact kept.state.tasks task earlier
    · exact kept.task

theorem Sealed.step (sealed' : Sealed plan st) (sealedRanges : SealedRanges plan) (event : Event) :
    Sealed plan (st.step gates event) := by
  cases event with
  | runInSample candidates => exact (sealed'.runInSample sealedRanges.1 candidates).launch
  | runWalkForward => exact (sealed'.runWalkForward sealedRanges).launch
  | unsealFinalTest => exact sealed'.unsealFinalTest.launch
  | reject => exact (sealed'.settle .rejected).launch
  | reply place result =>
    unfold RunnerState.step
    simp only
    split
    · exact (sealed'.afterTrial sealedRanges.1 _ _ _ result).resume place
    · rename_i waiting
      exact (sealed'.afterWindow (sealed'.tasks _ (mem_of_getElem? waiting)) result).resume place
    · rename_i waiting
      exact (sealed'.nextPhase (sealed'.tasks _ (mem_of_getElem? waiting))).resume place
    · unfold afterFinalTest
      split
      · exact (sealed'.settle _).resume place
      · exact (sealed'.settle _).resume place
    · exact sealed'

end Steps

section Calls

variable {gates : Gates} {st : RunnerState} {place : ℕ}

/-- The test set stays sealed from this state on. -/
def AlwaysSealed (gates : Gates) (st : RunnerState) : Prop :=
  ∀ events, TestSealed (run (RunnerState.step gates) st events)

theorem AlwaysSealed.step (always : AlwaysSealed gates st) (event : Event) :
    AlwaysSealed gates (st.step gates event) := fun events => always (event :: events)

theorem AlwaysSealed.execute (always : AlwaysSealed gates st) (executed : RunnerState) {purpose : Purpose}
    {start last : ℤ} (executions : st.executions = (executed.execute purpose start last).executions)
    (unsealed : executed.experiment.finalTestUnsealed = false) (ordered : start ≤ last) :
    last < st.experiment.plan.testStart := by
  have now : TestSealed st := always []
  have member : { purpose := purpose, start := start, last := last, unsealed := false } ∈
      st.executions := by
    rw [executions, ← unsealed]
    exact mem_append_right _ mem_cons_self
  exact now _ member rfl last ordered le_rfl

theorem tasks_resume {moved : RunnerState × RunnerTask} (present : place < moved.1.tasks.length) :
    (resume place moved).tasks[place]? = some moved.2 := by
  simp [resume, present]

theorem phases_sealed (always : AlwaysSealed gates st) {phases : List MarketPhase}
    (waiting : st.tasks[place]? = some (.phase best phases results))
    (unsealed : st.experiment.finalTestUnsealed = false)
    (ordered : ∀ phase ∈ phases, phase.start ≤ phase.last) :
    ∀ phase ∈ phases, phase.last < st.experiment.plan.testStart := by
  induction phases generalizing st with
  | nil => nofun
  | cons phase phases ih =>
    have moved : st.step gates (.reply place (.error "")) =
        resume place (st.execute (.phase phase.label) phase.start phase.last,
          .phase best phases results) := by
      simp only [RunnerState.step, waiting, nextPhase]
    have next := always.step (.reply place (.error ""))
    rw [moved] at next
    have present := (List.getElem?_eq_some_iff.mp waiting).1
    have later := ih next (tasks_resume present) unsealed fun p member =>
      ordered p (mem_cons_of_mem _ member)
    have now := next.execute st rfl unsealed (ordered phase mem_cons_self)
    intro p member
    rcases mem_cons.mp member with rfl | rest
    · exact now
    · exact later p rest

theorem windows_sealed (always : AlwaysSealed gates st) {windows : List WalkForwardWindow}
    (waiting : st.tasks[place]? = some (.window best windows results))
    (unsealed : st.experiment.finalTestUnsealed = false)
    (ordered : ∀ window ∈ windows, window.test.start ≤ window.test.last)
    (orderedPhases : ∀ phase ∈ st.experiment.plan.stressPhases, phase.start ≤ phase.last) :
    (∀ window ∈ windows, window.test.last < st.experiment.plan.testStart) ∧
      ∀ phase ∈ st.experiment.plan.stressPhases, phase.last < st.experiment.plan.testStart := by
  -- Every window answers with some metrics, so that the stress phases follow the last one.
  let metrics : WindowMetrics := { sharpeRatio := 0, maxDrawdown := 0 }
  have present := (List.getElem?_eq_some_iff.mp waiting).1
  have next := always.step (.reply place (.ok metrics))
  induction windows generalizing st results with
  | nil =>
    refine ⟨forall_mem_nil _, ?_⟩
    cases phases : st.experiment.plan.stressPhases with
    | nil => exact forall_mem_nil _
    | cons phase rest =>
      rw [phases] at orderedPhases
      have moved : st.step gates (.reply place (.ok metrics)) =
          resume place (st.execute (.phase phase.label) phase.start phase.last,
            .phase best rest (results ++ [metrics])) := by
        simp [RunnerState.step, waiting, RunnerState.afterWindow, nextPhase, phases]
      rw [moved] at next
      have later := phases_sealed next (tasks_resume present) unsealed fun p member =>
        orderedPhases p (mem_cons_of_mem _ member)
      have now := next.execute st rfl unsealed
        (orderedPhases phase mem_cons_self)
      intro p member
      rcases mem_cons.mp member with rfl | rest
      · exact now
      · exact later p rest
  | cons window windows ih =>
    have moved : st.step gates (.reply place (.ok metrics)) =
        resume place (st.execute (.window window.windowIndex) window.test.start
          window.test.last, .window best windows (results ++ [metrics])) := by
      simp only [RunnerState.step, waiting, RunnerState.afterWindow, nextWindow]
    rw [moved] at next
    have present' : place < (resume place (st.execute (.window window.windowIndex)
        window.test.start window.test.last, RunnerTask.window best windows
          (results ++ [metrics]))).tasks.length := by
      simpa [resume, execute] using present
    have later := ih next (tasks_resume present) unsealed
      (fun w member => ordered w (mem_cons_of_mem _ member)) orderedPhases present'
      (next.step _)
    have now := next.execute st rfl unsealed (ordered window mem_cons_self)
    refine ⟨?_, later.2⟩
    intro w member
    rcases mem_cons.mp member with rfl | rest
    · exact now
    · exact later.1 w rest

end Calls

/-- The record of a first candidate that passes the in-sample gate. -/
def firstTrial (gates : Gates) (experimentId : String) : TrialRecord where
  trialId := { experimentId := experimentId, trialIndex := 0 }
  parameters := []
  status := .selected
  inSampleMetrics := some { sharpeRatio := gates.minInSampleSharpe, maxDrawdown := 0 }

/-- An in-sample run of one candidate that passes. -/
def firstTrialEvents (gates : Gates) : List Event :=
  [.runInSample [[]], .reply 0 (.ok { sharpeRatio := gates.minInSampleSharpe, maxDrawdown := 0 })]

/-- What a new runner holds after its first candidate has passed. -/
structure FirstTrialPassed (gates : Gates) (experimentId : String) (plan : ValidationPlan)
    (st : RunnerState) : Prop where
  plan_eq : st.experiment.plan = plan
  unsealed : st.experiment.finalTestUnsealed = false
  trials : st.trials = [firstTrial gates experimentId]
  best : st.bestTrialId = some (firstTrial gates experimentId).trialId
  executed :
    { purpose := .trial (firstTrial gates experimentId).trialId, start := plan.trainStart
      last := plan.trainEnd, unsealed := false } ∈ st.executions

theorem firstTrialPassed (gates : Gates) (experimentId : String) (plan : ValidationPlan) :
    FirstTrialPassed gates experimentId plan (run (RunnerState.step gates)
      (start experimentId plan) (firstTrialEvents gates)) := by
  have positive := plan.budgetPositive
  have budget : ¬ plan.trialBudget < 1 := by omega
  constructor <;>
    simp [firstTrialEvents, RunnerState.step, start, RunnerState.runInSample,
      Experiment.transitionStatus, Experiment.allowed, RunnerState.nextTrial,
      Experiment.canRunTrial, launch, execute, resume,
      RunnerState.afterTrial, Experiment.incrementTrialsUsed, recordOf,
      RunnerState.selectBest, firstTrial, positive, budget]

theorem stressPhases_ordered {plan : ValidationPlan} {windows : List WalkForwardWindow}
    (generated : plan.windows = .ok windows) : ∀ phase ∈ plan.stressPhases, phase.start ≤ phase.last := by
  have before := (range_of_windows generated).2
  have after := plan.testOrder
  have listed : ∀ phase ∈ defaultStressPhases, phase.start ≤ phase.last := by decide
  have range : plan.validationStart ≤ plan.testEnd := by omega
  exact fun phase member => (mem_stressPhasesForRange listed range member).1

theorem FirstTrialPassed.step {gates : Gates} {experimentId : String} {plan : ValidationPlan}
    {st : RunnerState} (passed : FirstTrialPassed gates experimentId plan st)
    {window : WalkForwardWindow} {windows : List WalkForwardWindow}
    (generated : plan.windows = .ok (window :: windows)) : st.step gates .runWalkForward =
      launch (st.nextWindow (firstTrial gates experimentId) window windows []) := by
  simp [RunnerState.step, RunnerState.runWalkForward, RunnerState.findTrial, passed.best,
    passed.trials, passed.plan_eq, generated]

theorem sealedRanges_of_alwaysSealed {gates : Gates} {experimentId : String} {plan : ValidationPlan}
    (always : AlwaysSealed gates (start experimentId plan)) : SealedRanges plan := by
  have passed := firstTrialPassed gates experimentId plan
  have tried : AlwaysSealed gates (run (RunnerState.step gates)
      (start experimentId plan) (firstTrialEvents gates)) := by
    intro events
    rw [← run_append]
    exact always (firstTrialEvents gates ++ events)
  generalize run (RunnerState.step gates) (start experimentId plan)
    (firstTrialEvents gates) = st at passed tried
  constructor
  · have ordered := plan.trainOrder.le
    have sealed' := tried [] _ passed.executed rfl plan.trainEnd ordered le_rfl
    rw [run_nil, passed.plan_eq] at sealed'
    exact sealed'
  · intro windows generated
    cases windows with
    | nil => exact ⟨forall_mem_nil _, fun absent => absurd rfl absent⟩
    | cons window windows =>
      have ordered : ∀ w ∈ window :: windows, w.test.start ≤ w.test.last := fun w member =>
        (mem_generateWalkForwardWindows generated member).2.2.1
      have orderedPhases := stressPhases_ordered generated
      have begun := tried.step .runWalkForward
      rw [passed.step generated] at begun
      have now := begun.execute st rfl passed.unsealed (ordered window mem_cons_self)
      have waiting : (launch (st.nextWindow (firstTrial gates experimentId) window
          windows [])).tasks[st.tasks.length]? =
            some (.window (firstTrial gates experimentId) windows []) := by
        simp [launch, nextWindow, execute]
      have plan_eq : (launch (st.nextWindow (firstTrial gates experimentId) window
          windows [])).experiment.plan = plan := passed.plan_eq
      have later := windows_sealed begun waiting passed.unsealed
        (fun w member => ordered w (mem_cons_of_mem _ member))
      rw [plan_eq] at now later
      obtain ⟨ends, phases⟩ := later orderedPhases
      refine ⟨?_, fun _ => phases⟩
      intro w member
      rcases mem_cons.mp member with rfl | rest
      · exact now
      · exact ends w rest

theorem Sealed.testSealed {plan : ValidationPlan} {st : RunnerState} (sealed' : Sealed plan st) :
    TestSealed st := by
  intro execution member unsealed date _ before
  have ends := sealed'.sealed execution member unsealed
  rw [sealed'.plan_eq]
  omega

theorem sealed_start (experimentId : String) (plan : ValidationPlan) :
    Sealed plan (start experimentId plan) where
  plan_eq := rfl
  sealed := forall_mem_nil _
  tasks := forall_mem_nil _

/-- The final test stays sealed in every run exactly when the plan is sealed. -/
theorem final_test_sealed_iff (gates : Gates) (experimentId : String) (plan : ValidationPlan) :
    (∀ events, TestSealed (run (RunnerState.step gates) (start experimentId plan)
      events)) ↔ SealedPlan plan := by
  rw [← sealedRanges_iff]
  constructor
  · exact sealedRanges_of_alwaysSealed
  · intro sealedRanges events
    have kept : Sealed plan (run (RunnerState.step gates) (start experimentId plan) events) :=
      run_invariant (sealed_start experimentId plan)
        (fun _ event sealed' => sealed'.step sealedRanges event) events
    exact kept.testSealed

theorem oneTrial_pos : 0 < 1 := by decide

/-- Trains in October and November 2019 and validates in December; the test set is the first half
of 2020. -/
def planWithPhaseInTest : ValidationPlan where
  mode := .rolling
  trainStart := 737333
  trainEnd := 737392
  validationStart := 737395
  validationEnd := 737424
  testStart := 737425
  testEnd := 737606
  trainWindowDays := 40
  testWindowDays := 10
  stepDays := 10
  trialBudget := 1
  trainOrder := by decide
  validationAfterTrain := by decide
  validationBeforeTest := by decide
  testOrder := by decide
  trainWindowPositive := by decide
  testWindowPositive := by decide
  stepPositive := by decide
  budgetPositive := oneTrial_pos

/-- One candidate and one window, each with an answer. -/
def phaseInTestEvents : List Event :=
  [ .runInSample [[]], .reply 0 (.ok { sharpeRatio := 1, maxDrawdown := 0 }), .runWalkForward,
    .reply 1 (.ok { sharpeRatio := 1, maxDrawdown := 0 }) ]

/-- The stress phase 2020-Q1 is executed on the test set, which is not unsealed. -/
theorem stress_phase_reads_test_set :
    ¬ ∀ (gates : Gates) (experimentId : String) (plan : ValidationPlan) (events : List Event),
      TestSealed (run (RunnerState.step gates) (start experimentId plan) events) := by
  intro sealed'
  let gates : Gates :=
    { minInSampleSharpe := 0, evaluateOosGate := fun _ => true, passesFinalTest := fun _ _ => true }
  have executed : { purpose := .phase "2020-Q1", start := 737425, last := 737515
                    unsealed := false } ∈
      (run (RunnerState.step gates) (start "experiment" planWithPhaseInTest)
        phaseInTestEvents).executions := by
    decide +kernel
  have past := sealed' gates "experiment" planWithPhaseInTest phaseInTestEvents _ executed rfl
    737425 (by decide) (by decide)
  have kept : (run (RunnerState.step gates) (start "experiment" planWithPhaseInTest)
      phaseInTestEvents).experiment.plan.testStart = 737425 := by
    decide +kernel
  omega

end FinDashboard.Validation
