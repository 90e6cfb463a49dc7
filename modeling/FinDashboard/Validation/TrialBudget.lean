import FinDashboard.Validation.FinalTestSeal
import Mathlib.Data.List.Nodup

/-!
# The trial budget

What the runner has spent of its budget: the trials it has called the trial runner for, those it has
recorded, and the final test. A trial is numbered when it is called and counted when it returns.
-/

namespace FinDashboard.Validation

open List RunnerState

open FinDashboard.Runs (Guarded run)
open RunnerState (Event)

structure TrialAccount where
  experimentId : String
  budget : ℕ
  used : ℕ
  executed : List TrialId
  recorded : List TrialId
  finalTests : ℕ
  unsealed : Bool

namespace TrialAccount

variable (account : TrialAccount)

def trialAt (trialIndex : ℕ) : TrialId :=
  { experimentId := account.experimentId, trialIndex := trialIndex }

def nextId : TrialId := account.trialAt account.recorded.length

def begin : TrialAccount := { account with executed := account.executed ++ [account.nextId] }

def finish (trialId : TrialId) : TrialAccount :=
  { account with used := account.used + 1, recorded := account.recorded ++ [trialId] }

def unsealFinal : TrialAccount :=
  { account with finalTests := account.finalTests + 1, unsealed := true }

/-- The trials are numbered in the order of their calls, and at most one of them is running. -/
structure Balanced (running : List TrialId) : Prop where
  executed : account.executed =
    (range (account.recorded.length + running.length)).map account.trialAt
  recorded : account.recorded = (range account.recorded.length).map account.trialAt
  atMostOne : running = [] ∨ running = [account.nextId]
  used : account.used = account.recorded.length
  within : account.recorded.length + running.length ≤ account.budget
  final : account.finalTests ≤ account.unsealed.toNat

theorem trialAt_injective : Function.Injective account.trialAt := by
  intro i j same
  exact (TrialId.mk.inj same).2

namespace Balanced

variable {account} {running : List TrialId}

theorem begin (balanced : account.Balanced []) (room : account.used < account.budget) :
    account.begin.Balanced [account.nextId] where
  executed := by
    have before := balanced.executed
    have numbered : account.begin.trialAt = account.trialAt := rfl
    simp only [TrialAccount.begin, length_singleton, length_nil] at before ⊢
    rw [before, range_succ, map_append]
    rfl
  recorded := balanced.recorded
  atMostOne := .inr rfl
  used := balanced.used
  within := by
    have used := balanced.used
    simp only [TrialAccount.begin, length_singleton]
    omega
  final := balanced.final

theorem finish (balanced : account.Balanced [account.nextId]) :
    (account.finish account.nextId).Balanced [] where
  executed := by
    have before := balanced.executed
    simp only [length_singleton] at before
    simp only [TrialAccount.finish, length_append, length_singleton, length_nil]
    exact before
  recorded := by
    have before := balanced.recorded
    simp only [TrialAccount.finish, length_append, length_singleton]
    rw [range_succ, map_append]
    exact congrArg (· ++ [account.nextId]) before
  atMostOne := .inl rfl
  used := by
    have used := balanced.used
    simp only [TrialAccount.finish, length_append, length_singleton]
    omega
  within := by
    have within := balanced.within
    simp only [TrialAccount.finish, length_append, length_singleton, length_nil]
      at within ⊢
    omega
  final := balanced.final

theorem unsealFinal (balanced : account.Balanced running) (closed : account.unsealed = false) :
    account.unsealFinal.Balanced running where
  executed := balanced.executed
  recorded := balanced.recorded
  atMostOne := balanced.atMostOne
  used := balanced.used
  within := balanced.within
  final := by
    have final := balanced.final
    rw [closed] at final
    simp only [TrialAccount.unsealFinal, Bool.toNat_true, Bool.toNat_false] at final ⊢
    omega

end Balanced

end TrialAccount

def Execution.trialId? (execution : Execution) : Option TrialId :=
  match execution.purpose with
  | .trial trialId => some trialId
  | _ => none

def RunnerTask.trialId? : RunnerTask → Option TrialId
  | .trial trialId _ _ => some trialId
  | _ => none

namespace RunnerState

variable (st : RunnerState)

def running : List TrialId := st.tasks.filterMap RunnerTask.trialId?

def account : TrialAccount where
  experimentId := st.experiment.experimentId
  budget := st.experiment.plan.trialBudget
  used := st.experiment.trialsUsed
  executed := st.executions.filterMap Execution.trialId?
  recorded := st.trials.map TrialRecord.trialId
  finalTests := st.executions.countP fun execution => execution.purpose = .finalTest
  unsealed := st.experiment.finalTestUnsealed

end RunnerState

/-- Each call for a trial is counted or still running; there are at most as many as the budget
allows, each has its own id, and the final test is executed at most once. -/
structure BudgetKept (st : RunnerState) : Prop where
  counted : st.account.executed.length = st.experiment.trialsUsed + st.running.length
  within : st.account.executed.length ≤ st.experiment.plan.trialBudget
  unique : st.account.executed.Nodup
  uniqueRecords : st.account.recorded.Nodup
  once : st.account.finalTests ≤ 1

/-- A call of `run_in_sample` that begins a trial finds none running. -/
def Alone (st : RunnerState) (event : Event) : Prop :=
  ∀ parameters candidates, event = .runInSample (parameters :: candidates) →
    st.experiment.canRunTrial = true → st.running = []

section Steps

variable {st : RunnerState} {gates : Gates} {experiment : Experiment}

theorem account_transitionStatus {next : ExperimentStatus}
    (moved : st.experiment.transitionStatus next = .ok experiment) :
    RunnerState.account { st with experiment := experiment } = st.account := by
  unfold Experiment.transitionStatus at moved
  repeat' split at moved
  all_goals cases moved
  all_goals rfl

theorem account_incrementTrialsUsed (trial : TrialRecord)
    (counted : st.experiment.incrementTrialsUsed = .ok experiment) :
    RunnerState.account { st with experiment := experiment, trials := st.trials ++ [trial] } =
      st.account.finish trial.trialId := by
  unfold Experiment.incrementTrialsUsed at counted
  split at counted
  · cases counted
  · cases counted
    simp only [RunnerState.account, TrialAccount.finish, map_append, map_cons, map_nil]

theorem incrementTrialsUsed_of_room (room : st.experiment.trialsUsed <
    st.experiment.plan.trialBudget) : ∃ experiment,
      st.experiment.incrementTrialsUsed = .ok experiment := by
  unfold Experiment.incrementTrialsUsed
  rw [if_neg (by omega)]
  exact ⟨_, rfl⟩

@[simp] theorem account_execute_window (index : ℕ) (start last : ℤ) :
    (st.execute (.window index) start last).account = st.account := by
  simp [RunnerState.account, execute, Execution.trialId?]

@[simp] theorem account_execute_phase (label : String) (start last : ℤ) :
    (st.execute (.phase label) start last).account = st.account := by
  simp [RunnerState.account, execute, Execution.trialId?]

theorem account_execute_trial (start last : ℤ) :
    (st.execute (.trial st.account.nextId) start last).account = st.account.begin := by
  simp [RunnerState.account, execute, Execution.trialId?, TrialAccount.begin]

theorem nextId_account : st.account.nextId =
    { experimentId := st.experiment.experimentId, trialIndex := st.trials.length } := by
  simp [TrialAccount.nextId, TrialAccount.trialAt, RunnerState.account]

theorem account_markFinalTestUnsealed
    (marked : st.experiment.markFinalTestUnsealed = .ok experiment) :
    st.account.unsealed = false ∧ ∀ start last,
      (execute { st with experiment := experiment } .finalTest start last).account =
        st.account.unsealFinal := by
  unfold Experiment.markFinalTestUnsealed at marked
  split at marked
  · cases marked
  · rename_i closed
    split at marked
    · cases marked
      refine ⟨by simpa [RunnerState.account] using closed, ?_⟩
      intro start last
      simp [RunnerState.account, execute, Execution.trialId?, TrialAccount.unsealFinal]
    · cases marked

theorem account_selectBest : st.selectBest.account = st.account := by
  unfold selectBest
  simp only
  split <;> rfl

variable (best : TrialRecord)

/-- The verdict on the windows leaves the ids of the trials as they are. -/
theorem account_updateBest (results : List WindowMetrics) :
    (st.updateBest gates best results).account = st.account := by
  unfold updateBest
  simp only
  split
  · rename_i place found
    obtain ⟨present, same, -⟩ := findIdx?_eq_some_iff_getElem.mp found
    have id_eq : (st.trials[place]).trialId = best.trialId := by simpa using same
    have kept : (st.trials.map TrialRecord.trialId).set place best.trialId =
        st.trials.map TrialRecord.trialId := by
      rw [← id_eq, ← map_set, set_getElem_self]
    simp only [RunnerState.account, map_set, kept]
  · rfl

/-- The runner moves without a trial. -/
structure Quiet (st : RunnerState) (moved : RunnerState × RunnerTask) : Prop where
  account : moved.1.account = st.account
  tasks : moved.1.tasks = st.tasks
  task : moved.2.trialId? = none

variable {task : RunnerTask}

theorem Quiet.here (none_waits : task.trialId? = none) :
    Quiet st (st, task) := ⟨rfl, rfl, none_waits⟩

theorem quiet_nextWindow (window : WalkForwardWindow) (windows : List WalkForwardWindow)
    (results : List WindowMetrics) : Quiet st (st.nextWindow best window windows results) :=
  ⟨account_execute_window _ _ _, rfl, rfl⟩

theorem quiet_runWalkForward : Quiet st st.runWalkForward := by
  unfold runWalkForward
  split
  · exact .here rfl
  · split
    · exact .here rfl
    · split
      · exact .here rfl
      · exact .here rfl
      · exact quiet_nextWindow _ _ _ _

theorem tasks_updateBest (results : List WindowMetrics) :
    (st.updateBest gates best results).tasks = st.tasks := by
  unfold updateBest
  simp only
  split <;> rfl

theorem quiet_nextPhase (results : List WindowMetrics)
    (phases : List MarketPhase) : Quiet st (st.nextPhase gates best results phases) := by
  cases phases with
  | nil => exact ⟨account_updateBest best results, tasks_updateBest best results, rfl⟩
  | cons phase phases => exact ⟨account_execute_phase _ _ _, rfl, rfl⟩

theorem quiet_afterWindow (windows : List WalkForwardWindow)
    (results : List WindowMetrics) (reply : Except String WindowMetrics) :
    Quiet st (st.afterWindow gates best windows results reply) := by
  unfold afterWindow
  cases windows with
  | cons window windows => exact quiet_nextWindow _ _ _ _
  | nil =>
    cases reply with
    | ok metrics =>
      simp only
      split
      · exact .here rfl
      · exact quiet_nextPhase _ _ _
    | error message =>
      simp only
      split
      · exact .here rfl
      · exact quiet_nextPhase _ _ _

theorem quiet_settle (next : ExperimentStatus) : Quiet st (st.settle next) := by
  unfold settle
  split
  · rename_i moved
    exact ⟨account_transitionStatus moved, rfl, rfl⟩
  · exact .here rfl

theorem quiet_afterFinalTest (reply : Except String WindowMetrics) :
    Quiet st (st.afterFinalTest gates best reply) := by
  unfold afterFinalTest
  split
  · exact quiet_settle _
  · exact quiet_settle _

/-- The runner moves, and its account balances with the trials that run and the one it begins. -/
structure Balances (running : List TrialId) (st : RunnerState) (moved : RunnerState × RunnerTask) :
    Prop where
  account : moved.1.account.Balanced (running ++ moved.2.trialId?.toList)
  tasks : moved.1.tasks = st.tasks

variable {running : List TrialId} {moved : RunnerState × RunnerTask}

theorem Quiet.balances (quiet : Quiet st moved)
    (balanced : st.account.Balanced running) : Balances running st moved where
  account := by
    rw [quiet.account, quiet.task]
    simpa using balanced
  tasks := quiet.tasks

theorem balances_unsealFinalTest (balanced : st.account.Balanced running) :
    Balances running st st.unsealFinalTest := by
  unfold unsealFinalTest
  split
  · exact (Quiet.here rfl).balances balanced
  · split
    · exact (Quiet.here rfl).balances balanced
    · split
      · exact (Quiet.here rfl).balances balanced
      · rename_i experiment marked
        obtain ⟨closed, account⟩ := account_markFinalTestUnsealed marked
        refine ⟨?_, rfl⟩
        rw [account st.experiment.plan.testStart st.experiment.plan.testEnd]
        simpa [RunnerTask.trialId?] using balanced.unsealFinal closed

theorem room_of_canRunTrial (allowed : st.experiment.canRunTrial = true) :
    st.experiment.trialsUsed < st.experiment.plan.trialBudget := by
  unfold Experiment.canRunTrial at allowed
  split at allowed
  · cases allowed
  · cases allowed
  · cases allowed
  · simpa using allowed
  · simpa using allowed

theorem tasks_selectBest : st.selectBest.tasks = st.tasks := by
  unfold selectBest
  simp only
  split <;> rfl

theorem quiet_selectBest : Quiet st (st.selectBest, .returned) :=
  ⟨account_selectBest, tasks_selectBest, rfl⟩

/-- The head of the loop begins the next trial only where there is room for it. -/
theorem balances_nextTrial (balanced : st.account.Balanced running) (candidates : List Params)
    (alone : candidates ≠ [] → st.experiment.canRunTrial = true → running = []) :
    Balances running st (st.nextTrial candidates) := by
  unfold nextTrial
  split
  · exact quiet_selectBest.balances balanced
  · split
    · rename_i parameters candidates allowed
      obtain rfl := alone (cons_ne_nil _ _) allowed
      refine ⟨?_, rfl⟩
      have begun := balanced.begin (room_of_canRunTrial allowed)
      rw [← account_execute_trial st.experiment.plan.trainStart st.experiment.plan.trainEnd,
        nextId_account] at begun
      exact begun
    · exact quiet_selectBest.balances balanced

theorem balances_runInSample (balanced : st.account.Balanced running) (candidates : List Params)
    (alone : candidates ≠ [] → st.experiment.canRunTrial = true → running = []) :
    Balances running st (st.runInSample candidates) := by
  unfold runInSample
  split
  · rename_i hypothesis
    split
    · rename_i experiment moved
      have account := account_transitionStatus moved
      rw [← account] at balanced
      have entered : experiment.canRunTrial = true → st.experiment.canRunTrial = true := by
        intro allowed
        have room := @room_of_canRunTrial { st with experiment := experiment } allowed
        have used : experiment.trialsUsed = st.experiment.trialsUsed :=
          congrArg TrialAccount.used account
        have budget : experiment.plan.trialBudget = st.experiment.plan.trialBudget :=
          congrArg TrialAccount.budget account
        simp only [used, budget] at room
        simp only [Experiment.canRunTrial, hypothesis, room, decide_true]
      have begun := balances_nextTrial balanced candidates fun some_candidate allowed =>
        alone some_candidate (entered allowed)
      exact ⟨begun.account, begun.tasks⟩
    · exact (Quiet.here rfl).balances balanced
  · exact balances_nextTrial balanced candidates alone

variable {trialId : TrialId}

/-- After a trial the account balances again, and the loop goes on alone. -/
theorem balances_afterTrial (balanced : st.account.Balanced [trialId])
    (parameters : Params) (candidates : List Params) (reply : Except String WindowMetrics) :
    Balances [] st (st.afterTrial gates trialId parameters candidates reply) := by
  have next : trialId = st.account.nextId := by
    rcases balanced.atMostOne with absurd | same
    · cases absurd
    · exact singleton_inj.mp same
  have room : st.experiment.trialsUsed < st.experiment.plan.trialBudget := by
    have used : st.experiment.trialsUsed = st.account.recorded.length := balanced.used
    have within : st.account.recorded.length + 1 ≤ st.experiment.plan.trialBudget :=
      balanced.within
    omega
  obtain ⟨experiment, counted⟩ := incrementTrialsUsed_of_room room
  have account := account_incrementTrialsUsed
    (recordOf gates trialId parameters reply) counted
  have record_id : (recordOf gates trialId parameters reply).trialId = trialId := by
    cases reply <;> rfl
  rw [record_id] at account
  subst next
  have recorded := balanced.finish
  rw [← account] at recorded
  have moved := balances_nextTrial recorded candidates fun _ _ => rfl
  simp only [afterTrial, counted]
  exact ⟨moved.account, moved.tasks⟩

variable {place : ℕ}

theorem exists_around {tasks : List RunnerTask}
    (waiting : tasks[place]? = some task) : ∃ front back, tasks = front ++ task :: back ∧
      ∀ other, tasks.set place other = front ++ other :: back := by
  induction tasks generalizing place with
  | nil => cases waiting
  | cons head rest ih =>
    cases place with
    | zero =>
      obtain rfl : head = task := by simpa using waiting
      exact ⟨[], rest, rfl, fun _ => rfl⟩
    | succ place =>
      obtain ⟨front, back, split, set⟩ := ih (by simpa using waiting)
      refine ⟨head :: front, back, by rw [split, cons_append], ?_⟩
      intro other
      rw [set_cons_succ, set, cons_append]

/-- The account of the runner balances with the trials its calls wait for. -/
def InBalance (st : RunnerState) : Prop := st.account.Balanced st.running

theorem Balances.launch {begun : RunnerState × RunnerTask} (balances : Balances st.running st begun) :
    InBalance (RunnerState.launch begun) := by
  have running : (RunnerState.launch begun).running = st.running ++ begun.2.trialId?.toList := by
    simp only [RunnerState.running, RunnerState.launch, balances.tasks, filterMap_append]
    cases waits : begun.2.trialId? <;> simp [waits]
  unfold InBalance
  rw [running]
  exact balances.account

/-- A call that did not wait for a trial goes on without one. -/
theorem Quiet.resume (quiet : Quiet st moved) (balanced : InBalance st)
    (waiting : st.tasks[place]? = some task) (none_waits : task.trialId? = none) :
    InBalance (RunnerState.resume place moved) := by
  obtain ⟨front, back, split, set⟩ := exists_around waiting
  have running : (RunnerState.resume place moved).running = st.running := by
    simp only [RunnerState.running, RunnerState.resume, quiet.tasks, set]
    simp [split, quiet.task, none_waits]
  have account : (RunnerState.resume place moved).account = st.account := quiet.account
  unfold InBalance
  rw [running, account]
  exact balanced

/-- The call that waited for the running trial goes on, perhaps with the next one. -/
theorem Balances.resume (balances : Balances [] st moved) (waiting : st.tasks[place]? = some task)
    (waits : task.trialId? = some trialId) (alone : st.running = [trialId]) :
    InBalance (RunnerState.resume place moved) := by
  obtain ⟨front, back, split, set⟩ := exists_around waiting
  have others : front.filterMap RunnerTask.trialId? = [] ∧
      back.filterMap RunnerTask.trialId? = [] := by
    have counted := congrArg length alone
    simp only [RunnerState.running, split, filterMap_append, filterMap_cons, waits,
      length_append, length_cons, length_nil] at counted
    exact ⟨length_eq_zero_iff.mp (by omega), length_eq_zero_iff.mp (by omega)⟩
  have running : (RunnerState.resume place moved).running = moved.2.trialId?.toList := by
    simp only [RunnerState.running, RunnerState.resume, balances.tasks, set]
    cases next : moved.2.trialId? <;> simp [others.1, others.2, next]
  unfold InBalance
  rw [running]
  exact balances.account

theorem running_of_waiting (balanced : InBalance st) (waiting : st.tasks[place]? = some task)
    (waits : task.trialId? = some trialId) : st.running = [trialId] := by
  have member : trialId ∈ st.running :=
    mem_filterMap.mpr ⟨task, mem_of_getElem? waiting, waits⟩
  rcases balanced.atMostOne with empty | one
  · rw [empty] at member
    cases member
  · rw [one] at member ⊢
    rw [mem_singleton.mp member]

theorem inBalance_step (balanced : InBalance st) (event : Event) (alone : Alone st event) :
    InBalance (st.step gates event) := by
  cases event with
  | runInSample candidates =>
    refine (balances_runInSample balanced candidates ?_).launch
    intro some_candidate
    obtain ⟨parameters, rest, rfl⟩ := exists_cons_of_ne_nil some_candidate
    exact alone parameters rest rfl
  | runWalkForward => exact (quiet_runWalkForward.balances balanced).launch
  | unsealFinalTest => exact (balances_unsealFinalTest balanced).launch
  | reject => exact ((quiet_settle .rejected).balances balanced).launch
  | reply place result =>
    unfold step
    simp only
    split
    · rename_i trialId parameters candidates waiting
      have running := running_of_waiting balanced waiting rfl
      have before : st.account.Balanced [trialId] := by
        rw [← running]
        exact balanced
      exact (balances_afterTrial before parameters candidates result).resume waiting rfl running
    · rename_i waiting
      exact (quiet_afterWindow _ _ _ _).resume balanced waiting rfl
    · rename_i waiting
      exact (quiet_nextPhase _ _ _).resume balanced waiting rfl
    · rename_i waiting
      exact (quiet_afterFinalTest _ _).resume balanced waiting rfl
    · exact balanced

theorem budgetKept_of_inBalance (balanced : InBalance st) : BudgetKept st := by
  have executed := balanced.executed
  have length : st.account.executed.length =
      st.account.recorded.length + st.running.length := by
    rw [executed, length_map, length_range]
  have used : st.experiment.trialsUsed = st.account.recorded.length := balanced.used
  have within : st.account.recorded.length + st.running.length ≤
      st.experiment.plan.trialBudget := balanced.within
  have final := balanced.final
  have flag := Bool.toNat_le st.account.unsealed
  constructor
  · omega
  · omega
  · rw [executed]
    exact List.Nodup.map st.account.trialAt_injective nodup_range
  · rw [balanced.recorded]
    exact List.Nodup.map st.account.trialAt_injective nodup_range
  · omega

theorem account_nextTrial (allowed : st.experiment.canRunTrial = true) (parameters : Params)
    (candidates : List Params) :
    (st.nextTrial (parameters :: candidates)).1.account = st.account.begin := by
  have executed := @account_execute_trial st st.experiment.plan.trainStart
    st.experiment.plan.trainEnd
  rw [nextId_account] at executed
  simp only [nextTrial, allowed, if_true]
  exact executed

theorem account_runInSample (allowed : st.experiment.canRunTrial = true) (parameters : Params)
    (candidates : List Params) :
    (st.runInSample (parameters :: candidates)).1.account = st.account.begin := by
  unfold runInSample
  split
  · rename_i hypothesis
    have room := room_of_canRunTrial allowed
    simp only [Experiment.transitionStatus, hypothesis, reduceCtorEq, ↓reduceIte,
      Experiment.allowed, IsEmpty.forall_iff, ↓reduceDIte]
    rw [account_nextTrial]
    · rfl
    · simp [Experiment.canRunTrial, room]
  · exact account_nextTrial allowed parameters candidates

/-- A trial begun beside a running one takes its id. -/
theorem not_budgetKept_of_overlap (balanced : InBalance st) {parameters : Params}
    {candidates : List Params} (allowed : st.experiment.canRunTrial = true) (busy : st.running ≠ []) :
    ¬ BudgetKept (st.step gates (.runInSample (parameters :: candidates))) := by
  intro kept
  have running := balanced.atMostOne.resolve_left busy
  have executed := balanced.executed
  have account : (st.step gates (.runInSample (parameters :: candidates))).account =
      st.account.begin := account_runInSample allowed parameters candidates
  have unique := kept.unique
  rw [account] at unique
  have fresh := (nodup_append.mp unique).2.2
  have taken : st.account.nextId ∈ st.account.executed := by
    rw [executed, running, length_singleton, range_succ, map_append]
    exact mem_append_right _ mem_cons_self
  exact fresh _ taken _ mem_cons_self rfl

end Steps

theorem inBalance_start (experimentId : String) (plan : ValidationPlan) :
    InBalance (start experimentId plan) := by
  constructor
  · rfl
  · rfl
  · exact .inl rfl
  · rfl
  · exact Nat.zero_le _
  · exact Nat.zero_le _

/-- The budget is kept all along a run exactly when each in-sample run begins its trials alone. -/
theorem trial_budget_kept_iff (gates : Gates) (experimentId : String) (plan : ValidationPlan)
    (events : List Event) :
    Guarded (step gates) (fun st event => BudgetKept (st.step gates event))
        (start experimentId plan) events ↔
      Guarded (step gates) Alone (start experimentId plan) events := by
  apply Guarded.iff_of_guarded_invariant (inBalance_start experimentId plan)
  · intro st event balanced
    constructor
    · intro kept parameters candidates begins allowed
      by_contra busy
      subst begins
      exact not_budgetKept_of_overlap balanced allowed busy kept
    · intro alone
      exact budgetKept_of_inBalance (inBalance_step balanced event alone)
  · intro st event balanced alone
    exact inBalance_step balanced event alone

def overlappingTrials : List Event := [.runInSample [[]], .runInSample [[]]]

def planWithOneTrial : ValidationPlan := planWithPhaseInTest

/-- Both runs call the trial runner, under one id. -/
theorem overlapping_runs_exceed_budget :
    ¬ ∀ (gates : Gates) (experimentId : String) (plan : ValidationPlan) (events : List Event),
      BudgetKept (run (step gates) (start experimentId plan) events) := by
  intro kept
  let gates : Gates :=
    { minInSampleSharpe := 0, evaluateOosGate := fun _ => true, passesFinalTest := fun _ _ => true }
  have unique := (kept gates "experiment" planWithOneTrial overlappingTrials).unique
  have executed : (run (step gates) (start "experiment" planWithOneTrial)
      overlappingTrials).account.executed =
        [{ experimentId := "experiment", trialIndex := 0 },
          { experimentId := "experiment", trialIndex := 0 }] := by
    decide +kernel
  rw [executed] at unique
  exact absurd unique (by decide)

end FinDashboard.Validation
