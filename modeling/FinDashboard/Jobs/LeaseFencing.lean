import FinDashboard.Jobs.RowChanges

/-!
# Late writes of a worker that lost its claim

The heartbeat asks for the worker of the row before it writes; the finish and the progress report
ask for the status only. A task whose job was reclaimed, queued and claimed again therefore still
writes the row while the new claim is running.
-/

namespace FinDashboard.Jobs

/-- Whether a row has been claimed again since the claim of a task. -/
def Task.superseded (task : Task) (row : Job) : Bool :=
  row.workerId ≠ some task.workerId || row.attempt ≠ task.attempt

/-- The status, the result and the progress of a row. -/
def Job.work (row : Job) :
    JobStatus × (Option String × Option String × Option String) × ℤ × ℤ × Option String :=
  (row.status, (row.resultRef, row.errorCode, row.errorSummary), row.progressTotal,
    row.progressDone, row.phase)

def State.actor (st : State) (s : Step) : Option Task :=
  match s with
  | .start number | .progress number .. | .beat number .. | .complete number _
  | .finalize number _ => st.tasks[number]?
  | _ => none

/-- The steps that issue `finish` or `update_progress`. -/
def Step.isWrite (s : Step) : Bool :=
  match s with
  | .progress .. | .finalize .. => true
  | _ => false

/-- A task that lost its claim does not change the work of the row, and its writes leave the row
as it is. -/
def Fenced (config : QueueConfig) (st : State) (s : Step) : Prop :=
  ∀ task row, st.actor s = some task → st.jobs.get task.jobId = some row →
    task.superseded row = true →
      ∃ row', (step config st s).jobs.get task.jobId = some row' ∧ row'.work = row.work ∧
        (s.isWrite = true → row' = row)

/-- A progress report that the row already holds, to the microsecond. -/
structure Job.Holds (row : Job) (done : ℤ) (total : Option ℤ) (phase : Option String) (now : Time) :
    Prop where
  total : ∀ t ∈ total, 0 ≤ t → t ≤ row.progressTotal
  done : if row.progressTotal = 0 then done = row.progressDone ∨ done = 0 ∧ 0 ≤ row.progressDone
    else row.progressDone ≤ row.progressTotal ∧
      (done ≤ row.progressDone ∨ row.progressTotal ≤ row.progressDone)
  phase : ∀ p ∈ phase, row.phase = some (String.ofList (p.toList.take phaseMaxLength))
  heartbeatAt : row.heartbeatAt = some now
  updatedAt : row.updatedAt = now

theorem progressTotal_eq_iff (recorded : ℤ) (total : Option ℤ) :
    (match total with
      | some t => if 0 ≤ t then max recorded t else recorded
      | none => recorded) = recorded ↔ ∀ t ∈ total, 0 ≤ t → t ≤ recorded := by
  cases total with
  | none => simp
  | some t =>
    by_cases positive : 0 ≤ t
    · simp [positive]
    · simp [positive]

theorem progressDone_eq_iff (recorded total done : ℤ) : (if (if total ≠ 0 then total else done) ≠ 0 then
        min (max recorded done) (if total ≠ 0 then total else done) else max recorded done) = recorded ↔
      if total = 0 then done = recorded ∨ done = 0 ∧ 0 ≤ recorded
      else recorded ≤ total ∧ (done ≤ recorded ∨ total ≤ recorded) := by
  by_cases none : total = 0
  · by_cases zero : done = 0
    · simp only [none, zero, ne_eq, not_true_eq_false, if_false, if_true, true_and]
      omega
    · simp only [none, zero, ne_eq, not_true_eq_false, not_false_eq_true, if_false, if_true,
        false_and, or_false]
      omega
  · simp only [none, ne_eq, not_false_eq_true, if_true, if_false]
    omega

theorem Job.progressed_eq_iff (row : Job) (done : ℤ) (total : Option ℤ) (phase : Option String)
    (now : Time) : row.progressed done total phase now = row ↔ row.Holds done total phase now := by
  constructor
  · intro same
    have totals := congrArg Job.progressTotal same
    have dones := congrArg Job.progressDone same
    have phases := congrArg Job.phase same
    simp only [Job.progressed] at totals dones phases
    rw [totals] at dones
    constructor
    · exact (progressTotal_eq_iff _ _).mp totals
    · exact (progressDone_eq_iff _ _ _).mp dones
    · intro p given
      rw [Option.mem_def.mp given] at phases
      exact phases.symm
    · exact (congrArg Job.heartbeatAt same).symm
    · exact (congrArg Job.updatedAt same).symm
  · intro holds
    let after := row.progressed done total phase now
    have totals : after.progressTotal = row.progressTotal :=
      (progressTotal_eq_iff _ _).mpr holds.total
    have dones : after.progressDone = row.progressDone := by
      have kept := (progressDone_eq_iff row.progressDone row.progressTotal done).mpr holds.done
      rw [← totals] at kept
      exact kept
    have phases : after.phase = row.phase := by
      cases phase with
      | none => rfl
      | some p => exact (holds.phase p rfl).symm
    calc after = { row with
            progressTotal := after.progressTotal, progressDone := after.progressDone
            phase := after.phase, heartbeatAt := some now, updatedAt := now } := rfl
      _ = row := by rw [totals, dones, phases, ← holds.heartbeatAt, ← holds.updatedAt]

theorem Job.finished_ne {row : Job}
    (unfinished : row.status = .running ∨ row.status = .cancelRequested) (result : JobResult) (now : Time) : row.finished result now ≠ row := by
  intro same
  have status : result.status.status = row.status := congrArg Job.status same
  cases target : result.status <;> simp [target, ResultStatus.status, ← status] at unfinished

/-- The writes of tasks that lost their claim meet rows they cannot change: a progress report
meets a row that is asked to stop, or that holds all it reports; a finish meets a row that is
neither running nor asked to stop. -/
def HarmlessWrite (st : State) (s : Step) : Prop :=
  ∀ task row, st.actor s = some task → st.jobs.get task.jobId = some row →
    task.superseded row = true →
      match s with
      | .progress _ done total phase now =>
          task.phase = .executing → row.status = .cancelRequested ∨ row.Holds done total phase now
      | .finalize _ _ =>
          (∃ result, task.phase = .finishing result) →
            row.status ≠ .running ∧ row.status ≠ .cancelRequested
      | _ => True

section Step

variable {config : QueueConfig} {st : State} {number : ℕ} {task : Task} {row : Job}

theorem get_progress (issuer : st.tasks[number]? = some task)
    (got : st.jobs.get task.jobId = some row) (done : ℤ) (total : Option ℤ) (phase : Option String)
    (now : Time) : (step config st (.progress number done total phase now)).jobs.get task.jobId =
      if task.phase = .executing ∧ row.status ≠ .cancelRequested then
        some (row.progressed done total phase now) else some row := by
  obtain ⟨place, found, entry⟩ := Table.place_of_get got
  simp only [step, issuer]
  by_cases executing : task.phase = .executing
  · by_cases asked : row.status = .cancelRequested
    · simp [executing, reportProgress, got, asked]
    · have id := Table.jobId_of_get got
      have same : (row.progressed done total phase now).jobId = task.jobId := id
      simp [executing, reportProgress, Table.updateProgress, got, asked, Table.get_put found same]
  · simp [executing, got]

theorem get_finalize (issuer : st.tasks[number]? = some task) (got : st.jobs.get task.jobId = some row)
    {result : JobResult} (finishing : task.phase = .finishing result) (now : Time) :
    (step config st (.finalize number now)).jobs.get task.jobId =
      if row.status = .running ∨ row.status = .cancelRequested then some (row.finished result now)
      else some row := by
  obtain ⟨place, found, entry⟩ := Table.place_of_get got
  simp only [step, issuer, finishing, finalize, Table.finish_of_get got]
  by_cases unfinished : row.status = .running ∨ row.status = .cancelRequested
  · have id := Table.jobId_of_get got
    have same : (row.finished result now).jobId = task.jobId := id
    simp only [if_pos unfinished, Table.get_put found same]
  · simp only [if_neg unfinished, got]

theorem RowChange.work {s : Step} {place : ℕ} {row' : Job} (change : RowChange config st place row s row')
    (actor : st.actor s = some task) (unwritten : s.isWrite = false) : row'.work = row.work := by
  cases change with
  | kept => rfl
  | beaten => rfl
  | progressed | finished => cases unwritten
  | _ => cases actor

theorem write_unchanged {after : Option Job} :
    (∃ row', after = some row' ∧ row'.work = row.work ∧ (true = true → row' = row)) ↔
      after = some row := by
  constructor
  · rintro ⟨row', rfl, -, same⟩
    rw [same rfl]
  · rintro rfl
    exact ⟨row, rfl, rfl, fun _ => rfl⟩

end Step

theorem fenced_iff (config : QueueConfig) (st : State) (s : Step) :
    Fenced config st s ↔ HarmlessWrite st s := by
  unfold Fenced HarmlessWrite
  apply forall_congr'
  intro task
  apply forall_congr'
  intro row
  apply imp_congr_right
  intro issuer
  apply imp_congr_right
  intro got
  apply imp_congr_right
  intro _
  cases s with
  | progress number done total phase now =>
    rw [get_progress issuer got]
    refine write_unchanged.trans ?_
    by_cases executing : task.phase = .executing
    · by_cases asked : row.status = .cancelRequested
      · simp [executing, asked]
      · simp [executing, asked, Job.progressed_eq_iff]
    · simp [executing]
  | finalize number now =>
    cases phase : task.phase with
    | finishing result =>
      rw [get_finalize issuer got phase]
      refine write_unchanged.trans ?_
      by_cases unfinished : row.status = .running ∨ row.status = .cancelRequested
      · simp only [if_pos unfinished, Option.some.injEq, Job.finished_ne unfinished, false_iff]
        intro finished
        have closed := finished ⟨result, rfl⟩
        exact unfinished.elim closed.1 closed.2
      · simp only [if_neg unfinished, true_iff]
        exact fun _ => not_or.mp unfinished
    | _ =>
      have issuer : st.tasks[number]? = some task := issuer
      simp [step, issuer, phase, got]
  | start | beat | complete =>
    obtain ⟨place, row', -, got', change⟩ := (step_changes config st _).get got
    exact iff_of_true ⟨row', got', change.work issuer rfl, fun impossible => by cases impossible⟩ trivial
  | _ => cases issuer

/-- In a run every task that lost its claim is fenced exactly when all its writes are harmless. -/
theorem run_fenced_iff (config : QueueConfig) (steps : List Step) :
    (∀ before s after, steps = before ++ s :: after → Fenced config (run config before) s) ↔
      ∀ before s after, steps = before ++ s :: after → HarmlessWrite (run config before) s := by
  constructor
  · intro fenced before s after split
    exact (fenced_iff config _ s).mp (fenced before s after split)
  · intro harmless before s after split
    exact (fenced_iff config _ s).mpr (harmless before s after split)

theorem attempts_given : 1 ≤ 3 := by decide

/-- A worker that stalls beyond its lease while another claims the job again. -/
def claimedTwice : List Step :=
  [.create {
      jobId := "job", idempotencyKey := "key", kind := "backtest", payloadChecksum := "sum"
      requestedBy := "api", maxAttempts_pos := attempts_given } 0,
    .lockClaims "worker", .takeClaim { leaseUntil := 60, now := 0 } [], .start 0,
    .reclaimStale [] 61, .requeueDue [] 100 30 50, .lockClaims "other",
    .takeClaim { leaseUntil := 160, now := 100 } [], .start 1,
    .complete 0 (.returned { status := .succeeded, resultRef := some "stale" })]

/-- The late finish of the first worker ends the job of the second. -/
theorem stale_finish_not_fenced :
    ¬∀ (config : QueueConfig) (steps before : List Step) (s : Step) (after : List Step),
      steps = before ++ s :: after → Fenced config (run config before) s := by
  intro fenced
  have step := fenced { executors := ["backtest"] } _ claimedTwice (.finalize 0 110) [] rfl
    (((run { executors := ["backtest"] } claimedTwice).actor (.finalize 0 110)).get
      (by decide +kernel))
    (((run { executors := ["backtest"] } claimedTwice).jobs.get "job").get (by decide +kernel))
    (by decide +kernel) (by decide +kernel) (by decide +kernel)
  obtain ⟨row', got', -, same⟩ := step
  rw [same rfl] at got'
  revert got'
  decide +kernel

end FinDashboard.Jobs
