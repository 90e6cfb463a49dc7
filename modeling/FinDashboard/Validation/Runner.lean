import FinDashboard.Runs.Guarded
import FinDashboard.Validation.Windows
import Mathlib.Algebra.Order.Ring.Rat
import Mathlib.Data.List.MinMax

/-!
# The validation runner

An experiment tries candidate parameters in sample, slides the best of them over walk-forward
windows and stress phases, and unseals the final test set once. Each call of the trial runner is
awaited, so that several calls of the runner may be under way together; between two awaits a call
runs without interruption.
-/

namespace FinDashboard.Validation

inductive ExperimentStatus
  | hypothesis
  | inSample
  | validatedOos
  | rejected
  | superseded
deriving DecidableEq, Repr

inductive TrialStatus
  | candidate
  | running
  | selected
  | rejected
  | failed
  | skipped
deriving DecidableEq, Repr

/-- A plan as `__post_init__` accepts it. -/
structure ValidationPlan where
  mode : ValidationMode
  trainStart : ℤ
  trainEnd : ℤ
  validationStart : ℤ
  validationEnd : ℤ
  testStart : ℤ
  testEnd : ℤ
  trainWindowDays : ℤ
  testWindowDays : ℤ
  stepDays : ℤ
  trialBudget : ℕ
  trainOrder : trainStart < trainEnd
  validationAfterTrain : trainEnd ≤ validationStart
  validationBeforeTest : validationEnd ≤ testStart
  testOrder : testStart < testEnd
  trainWindowPositive : 0 < trainWindowDays
  testWindowPositive : 0 < testWindowDays
  stepPositive : 0 < stepDays
  budgetPositive : 0 < trialBudget

/-- An experiment is only validated after its final test set was unsealed. -/
structure Experiment where
  experimentId : String
  plan : ValidationPlan
  status : ExperimentStatus
  trialsUsed : ℕ
  finalTestUnsealed : Bool
  validated : status = .validatedOos → finalTestUnsealed = true

inductive ValidationError
  | illegalTransition (current next : ExperimentStatus)
  | notUnsealed
  | alreadyUnsealed
  | cannotUnseal (status : ExperimentStatus)
  | trialBudgetExhausted (count budget : ℕ)
  | split (error : SplitError)
  | noSuchTrial
deriving DecidableEq, Repr

namespace Experiment

variable (experiment : Experiment)

def canRunTrial : Bool :=
  match experiment.status with
  | .validatedOos | .rejected | .superseded => false
  | .hypothesis | .inSample => experiment.trialsUsed < experiment.plan.trialBudget

def canUnsealFinal : Bool :=
  experiment.status = .inSample && !experiment.finalTestUnsealed

/-- The table of `transition_status`. -/
def allowed : ExperimentStatus → ExperimentStatus → Bool
  | .hypothesis, .inSample | .inSample, .validatedOos | .inSample, .rejected
  | .hypothesis, .rejected | .hypothesis, .superseded | .inSample, .superseded
  | .validatedOos, .superseded | .rejected, .superseded => true
  | _, _ => false

def transitionStatus (next : ExperimentStatus) : Except ValidationError Experiment :=
  if experiment.status = next then .ok experiment
  else if allowed experiment.status next then
    if unsealed : next = .validatedOos → experiment.finalTestUnsealed = true then
      .ok { experiment with status := next, validated := unsealed }
    else .error .notUnsealed
  else .error (.illegalTransition experiment.status next)

def markFinalTestUnsealed : Except ValidationError Experiment :=
  if experiment.finalTestUnsealed then .error .alreadyUnsealed
  else if experiment.canUnsealFinal then
    .ok { experiment with finalTestUnsealed := true, validated := fun _ => rfl }
  else .error (.cannotUnseal experiment.status)

def incrementTrialsUsed : Except ValidationError Experiment :=
  if experiment.plan.trialBudget < experiment.trialsUsed + 1 then
    .error (.trialBudgetExhausted (experiment.trialsUsed + 1) experiment.plan.trialBudget)
  else .ok { experiment with trialsUsed := experiment.trialsUsed + 1 }

end Experiment

/-- Printed as the experiment's id, `-t` and the index. -/
structure TrialId where
  experimentId : String
  trialIndex : ℕ
deriving DecidableEq, Repr

abbrev Params := List (String × ℚ)

/-- What the gates read of a result of the trial runner. -/
structure WindowMetrics where
  sharpeRatio : ℚ
  maxDrawdown : ℚ
deriving DecidableEq, Repr

structure TrialRecord where
  trialId : TrialId
  parameters : Params
  status : TrialStatus
  inSampleMetrics : Option WindowMetrics
deriving DecidableEq, Repr

/-- The gates: the in-sample threshold, and the verdicts on the windows and on the final test. -/
structure Gates where
  minInSampleSharpe : ℚ
  evaluateOosGate : List WindowMetrics → Bool
  passesFinalTest : TrialRecord → WindowMetrics → Bool

inductive Purpose
  | trial (trialId : TrialId)
  | window (windowIndex : ℕ)
  | phase (label : String)
  | finalTest
deriving DecidableEq, Repr

/-- A call of the trial runner, and whether the final test was unsealed when it was made. -/
structure Execution where
  purpose : Purpose
  start : ℤ
  last : ℤ
  unsealed : Bool
deriving DecidableEq, Repr

/-- A call of the runner, at the call of the trial runner it waits for. -/
inductive RunnerTask
  | trial (trialId : TrialId) (parameters : Params) (candidates : List Params)
  | window (best : TrialRecord) (windows : List WalkForwardWindow) (results : List WindowMetrics)
  | phase (best : TrialRecord) (phases : List MarketPhase) (results : List WindowMetrics)
  | finalTest (best : TrialRecord)
  | returned
  | raised (error : ValidationError)

structure RunnerState where
  experiment : Experiment
  trials : List TrialRecord
  bestTrialId : Option TrialId
  tasks : List RunnerTask
  executions : List Execution

def RunnerState.start (experimentId : String) (plan : ValidationPlan) : RunnerState where
  experiment :=
    { experimentId := experimentId, plan := plan, status := .hypothesis, trialsUsed := 0
      finalTestUnsealed := false, validated := nofun }
  trials := []
  bestTrialId := none
  tasks := []
  executions := []

/-- The arguments `run_walk_forward` gives to the splitter. -/
def ValidationPlan.splitArguments (plan : ValidationPlan) : SplitArguments where
  mode := plan.mode
  trainStart := plan.trainStart
  trainEnd := plan.validationEnd
  testStart := plan.validationStart
  testEnd := plan.testStart
  trainWindowDays := plan.trainWindowDays
  testWindowDays := plan.testWindowDays
  stepDays := plan.stepDays

def ValidationPlan.windows (plan : ValidationPlan) : Except SplitError (List WalkForwardWindow) :=
  generateWalkForwardWindows plan.splitArguments

/-- The phases of `_run_robustness_probes`. -/
def ValidationPlan.stressPhases (plan : ValidationPlan) : List MarketPhase :=
  stressPhasesForRange plan.validationStart plan.testEnd defaultStressPhases

namespace RunnerState

variable (gates : Gates) (st : RunnerState)

/-- Call the trial runner. -/
def execute (purpose : Purpose) (start last : ℤ) : RunnerState :=
  { st with executions := st.executions ++
      [{ purpose := purpose, start := start, last := last
         unsealed := st.experiment.finalTestUnsealed }] }

/-- The best trial by in-sample Sharpe ratio, if one passed the gate. -/
def selectBest : RunnerState :=
  let successful := st.trials.filter fun trial =>
    trial.status = .selected && trial.inSampleMetrics.isSome
  match successful.argmax fun trial => (trial.inSampleMetrics.map (·.sharpeRatio)).getD 0 with
  | some best => { st with bestTrialId := some best.trialId }
  | none => st

/-- The head of the loop of `run_in_sample`. -/
def nextTrial : List Params → RunnerState × RunnerTask
  | [] => (st.selectBest, .returned)
  | parameters :: candidates =>
    if st.experiment.canRunTrial then
      let trialId := { experimentId := st.experiment.experimentId, trialIndex := st.trials.length }
      (st.execute (.trial trialId) st.experiment.plan.trainStart st.experiment.plan.trainEnd,
        .trial trialId parameters candidates)
    else (st.selectBest, .returned)

def runInSample (candidates : List Params) : RunnerState × RunnerTask :=
  if st.experiment.status = .hypothesis then
    match st.experiment.transitionStatus .inSample with
    | .ok experiment => nextTrial { st with experiment := experiment } candidates
    | .error error => (st, .raised error)
  else st.nextTrial candidates

def recordOf (trialId : TrialId) (parameters : Params) (reply : Except String WindowMetrics) :
    TrialRecord :=
  match reply with
  | .error _ =>
    { trialId := trialId, parameters := parameters, status := .failed, inSampleMetrics := none }
  | .ok metrics =>
    { trialId := trialId
      parameters := parameters
      status := if gates.minInSampleSharpe ≤ metrics.sharpeRatio then .selected else .rejected
      inSampleMetrics := some metrics }

/-- The loop of `run_in_sample` after a trial. -/
def afterTrial (trialId : TrialId) (parameters : Params) (candidates : List Params)
    (reply : Except String WindowMetrics) : RunnerState × RunnerTask :=
  let recorded := { st with trials := st.trials ++ [recordOf gates trialId parameters reply] }
  match st.experiment.incrementTrialsUsed with
  | .ok experiment => nextTrial { recorded with experiment := experiment } candidates
  | .error error => (recorded, .raised error)

def findTrial (trialId : TrialId) : Option TrialRecord :=
  st.trials.find? fun trial => trial.trialId = trialId

def nextWindow (best : TrialRecord) (window : WalkForwardWindow) (windows : List WalkForwardWindow)
    (results : List WindowMetrics) : RunnerState × RunnerTask :=
  (st.execute (.window window.windowIndex) window.test.start window.test.last,
    .window best windows results)

def runWalkForward : RunnerState × RunnerTask :=
  match st.bestTrialId with
  | none => (st, .returned)
  | some bestTrialId =>
    match st.findTrial bestTrialId with
    | none => (st, .raised .noSuchTrial)
    | some best =>
      match st.experiment.plan.windows with
      | .error error => (st, .raised (.split error))
      | .ok [] => (st, .returned)
      | .ok (window :: windows) => st.nextWindow best window windows []

def updateBest (best : TrialRecord) (results : List WindowMetrics) : RunnerState :=
  let updated :=
    { best with status := if gates.evaluateOosGate results then .selected else .rejected }
  match st.trials.findIdx? fun trial => trial.trialId = best.trialId with
  | some place => { st with trials := st.trials.set place updated }
  | none => st

def nextPhase (best : TrialRecord) (results : List WindowMetrics) :
    List MarketPhase → RunnerState × RunnerTask
  | [] => (st.updateBest gates best results, .returned)
  | phase :: phases =>
    (st.execute (.phase phase.label) phase.start phase.last, .phase best phases results)

/-- The windows without the failed ones; the stress phases follow if any is left. -/
def afterWindow (best : TrialRecord) (windows : List WalkForwardWindow) (results : List WindowMetrics)
    (reply : Except String WindowMetrics) : RunnerState × RunnerTask :=
  let collected := match reply with
    | .ok metrics => results ++ [metrics]
    | .error _ => results
  match windows with
  | window :: windows => st.nextWindow best window windows collected
  | [] =>
    if collected = [] then (st, .returned)
    else st.nextPhase gates best collected st.experiment.plan.stressPhases

def unsealFinalTest : RunnerState × RunnerTask :=
  match st.bestTrialId with
  | none => (st, .returned)
  | some bestTrialId =>
    match st.findTrial bestTrialId with
    | none => (st, .raised .noSuchTrial)
    | some best =>
      match st.experiment.markFinalTestUnsealed with
      | .error error => (st, .raised error)
      | .ok experiment =>
        (execute { st with experiment := experiment } .finalTest st.experiment.plan.testStart
          st.experiment.plan.testEnd, .finalTest best)

def settle (next : ExperimentStatus) : RunnerState × RunnerTask :=
  match st.experiment.transitionStatus next with
  | .ok experiment => ({ st with experiment := experiment }, .returned)
  | .error error => (st, .raised error)

def afterFinalTest (best : TrialRecord) (reply : Except String WindowMetrics) :
    RunnerState × RunnerTask :=
  match reply with
  | .error _ => st.settle .rejected
  | .ok metrics =>
    st.settle (if gates.passesFinalTest best metrics then .validatedOos else .rejected)

/-- A call of the runner, up to its first await, or the reply a call waits for. -/
inductive Event
  | runInSample (candidates : List Params)
  | runWalkForward
  | unsealFinalTest
  | reject
  | reply (task : ℕ) (result : Except String WindowMetrics)

/-- A call of the runner begins. -/
def launch (begun : RunnerState × RunnerTask) : RunnerState :=
  { begun.1 with tasks := begun.1.tasks ++ [begun.2] }

/-- A call goes on after the reply it waited for. -/
def resume (task : ℕ) (moved : RunnerState × RunnerTask) : RunnerState :=
  { moved.1 with tasks := moved.1.tasks.set task moved.2 }

def step : Event → RunnerState
  | .runInSample candidates => launch (st.runInSample candidates)
  | .runWalkForward => launch st.runWalkForward
  | .unsealFinalTest => launch st.unsealFinalTest
  | .reject => launch (st.settle .rejected)
  | .reply task result =>
    match st.tasks[task]? with
    | some (.trial trialId parameters candidates) =>
      resume task (st.afterTrial gates trialId parameters candidates result)
    | some (.window best windows results) =>
      resume task (st.afterWindow gates best windows results result)
    | some (.phase best phases results) => resume task (st.nextPhase gates best results phases)
    | some (.finalTest best) => resume task (st.afterFinalTest gates best result)
    | _ => st

end RunnerState

end FinDashboard.Validation
