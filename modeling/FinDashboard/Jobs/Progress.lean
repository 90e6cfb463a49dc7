import FinDashboard.Jobs.RowChanges

/-!
# Progress reports and cancellation

A report is raised to the stored value and cut at the total. While no total is known the reported value
is its own ceiling, so that a late report lowers the stored one; so does a total that is learnt late.
-/

namespace FinDashboard.Jobs

section Reports

variable {jobs : Table} {jobId : String} {row : Job}

/-- The arguments of a call of `update_progress`. -/
structure ProgressReport where
  done : ℤ
  total : Option ℤ := none
  phase : Option String := none
  now : Time := 0

def Job.reported (row : Job) (report : ProgressReport) : Job :=
  row.progressed report.done report.total report.phase report.now

def Table.report (jobs : Table) (jobId : String) (report : ProgressReport) : Table :=
  match jobs.updateProgress jobId report.done report.total report.phase report.now with
  | .ok jobs => jobs
  | .error _ => jobs

def Table.reports (jobs : Table) (jobId : String) (reports : List ProgressReport) : Table :=
  reports.foldl (fun jobs report => jobs.report jobId report) jobs

/-- The stored progress did not fall and is within its total. -/
structure Advanced (row row' : Job) : Prop where
  done_le : row.progressDone ≤ row'.progressDone
  within : 0 < row'.progressTotal → row'.progressDone ≤ row'.progressTotal

def Job.totalWith (row : Job) : Option ℤ → ℤ
  | some total => if 0 ≤ total then max row.progressTotal total else row.progressTotal
  | none => row.progressTotal

/-- The total that is known with the report is not below what is stored; without one, neither is the
report, unless it reports nothing. -/
def Job.Admits (row : Job) (report : ProgressReport) : Prop :=
  if row.totalWith report.total = 0 then report.done = 0 ∨ row.progressDone ≤ report.done
  else row.progressDone ≤ row.totalWith report.total

@[simp] theorem reported_jobId (row : Job) (report : ProgressReport) :
    (row.reported report).jobId = row.jobId := rfl

theorem reported_total (row : Job) (report : ProgressReport) :
    (row.reported report).progressTotal = row.totalWith report.total := by
  cases total : report.total <;> simp [Job.reported, Job.progressed, Job.totalWith, total]

theorem reported_done_of_total {report : ProgressReport} (known : row.totalWith report.total ≠ 0) :
    (row.reported report).progressDone =
      min (max row.progressDone report.done) (row.totalWith report.total) := by
  have total := reported_total row report
  simp only [Job.reported, Job.progressed] at total ⊢
  simp only [total, known, ne_eq, not_false_eq_true, if_true]

theorem reported_done_of_unknown {report : ProgressReport} (unknown : row.totalWith report.total = 0) :
    (row.reported report).progressDone =
      if report.done = 0 then max row.progressDone 0 else report.done := by
  have total := reported_total row report
  simp only [Job.reported, Job.progressed] at total ⊢
  simp only [total, unknown, ne_eq, not_true_eq_false, if_false]
  by_cases nothing : report.done = 0
  · simp [nothing]
  · simp [nothing]

theorem reported_within (row : Job) (report : ProgressReport) : 0 < (row.reported report).progressTotal →
      (row.reported report).progressDone ≤ (row.reported report).progressTotal := by
  intro known
  rw [reported_total] at known ⊢
  rw [reported_done_of_total known.ne']
  exact min_le_right _ _

theorem advanced_reported_iff (row : Job) (report : ProgressReport) :
    Advanced row (row.reported report) ↔ row.Admits report := by
  have done : Advanced row (row.reported report) ↔
      row.progressDone ≤ (row.reported report).progressDone :=
    ⟨Advanced.done_le, fun kept => ⟨kept, reported_within row report⟩⟩
  rw [done]
  unfold Job.Admits
  by_cases unknown : row.totalWith report.total = 0
  · rw [if_pos unknown, reported_done_of_unknown unknown]
    by_cases nothing : report.done = 0 <;> simp [nothing]
  · rw [if_neg unknown, reported_done_of_total unknown]
    simp

theorem get_report (got : jobs.get jobId = some row) (report : ProgressReport) :
    (jobs.report jobId report).get jobId = some (row.reported report) := by
  obtain ⟨place, found, -⟩ := Table.place_of_get got
  have same : (row.reported report).jobId = jobId := by
    rw [reported_jobId]
    exact Table.jobId_of_get got
  simp only [Table.report, Table.updateProgress, got]
  exact Table.get_put found same

theorem reports_append_singleton (jobs : Table) (jobId : String) (reports : List ProgressReport)
    (report : ProgressReport) :
    jobs.reports jobId (reports ++ [report]) = (jobs.reports jobId reports).report jobId report := by
  simp [Table.reports]

/-- In every sequence of reports the stored progress never falls and stays within its total exactly if
every report is admitted by the row it finds. -/
theorem progress_advances_iff (jobs : Table) (jobId : String) (reports : List ProgressReport) :
    (∀ earlier report, earlier ++ [report] <+: reports → ∀ row row',
        (jobs.reports jobId earlier).get jobId = some row →
        (jobs.reports jobId (earlier ++ [report])).get jobId = some row' → Advanced row row') ↔
      ∀ earlier report, earlier ++ [report] <+: reports → ∀ row,
        (jobs.reports jobId earlier).get jobId = some row → row.Admits report := by
  have step : ∀ earlier report row, (jobs.reports jobId earlier).get jobId = some row →
      (jobs.reports jobId (earlier ++ [report])).get jobId = some (row.reported report) := by
    intro earlier report row got
    rw [reports_append_singleton]
    exact get_report got report
  constructor
  · intro advances earlier report before row got
    have advanced := advances earlier report before row _ got (step earlier report row got)
    exact (advanced_reported_iff row report).mp advanced
  · intro admits earlier report before row row' got got'
    have reported : row.reported report = row' := by
      rw [step earlier report row got] at got'
      exact Option.some.inj got'
    rw [← reported]
    exact (advanced_reported_iff row report).mpr (admits earlier report before row got)

/-- A job without a known total. -/
def reportedJob : Job where
  jobId := "J1"
  idempotencyKey := "K1"
  kind := "backtest"
  queue := "default"
  status := .running
  priority := 0
  payloadChecksum := ""
  maxAttempts := 3
  requestedBy := "user"
  createdAt := 0
  updatedAt := 0

/-- A late report of 3 after one of 5. -/
theorem progress_falls : ¬∀ (jobs : Table) (jobId : String) (reports : List ProgressReport),
    ∀ earlier report, earlier ++ [report] <+: reports → ∀ row row',
      (jobs.reports jobId earlier).get jobId = some row →
      (jobs.reports jobId (earlier ++ [report])).get jobId = some row' → Advanced row row' := by
  intro advances
  have falls := (advances [reportedJob] "J1" [{ done := 5 }, { done := 3 }] [{ done := 5 }]
    { done := 3 } (List.prefix_refl _) _ _ rfl rfl).done_le
  revert falls
  decide

end Reports

/-!
## Cancellation of a job

A request to cancel is remembered by the status of the row only. The statuses of a finished job
and `cancelled` are never left; `cancel_requested` is left by the finish of the worker and by the
lease reaper, and both can lead back to the queue.
-/

section Cancellation

/-- Whether a task is about to write `retry_waiting`. -/
def Task.retries (task : Task) : Bool :=
  match task.phase with
  | .finishing result => result.status = .retryWaiting
  | _ => false

/-- Whether a step takes the row of a job back towards the queue: with attempts left, the reaper
or a retry takes it while it is asked to stop; `requeue_interrupted` asks for no attempts. -/
def forgetsCancel (jobId : String) (st : State) (s : Step) : Bool :=
  match st.jobs.place jobId, st.jobs.get jobId with
  | some place, some row =>
      match s with
      | .reclaimStale locked now =>
          row.status = .cancelRequested && row.isStale now && place ∉ locked &&
            row.attempt < row.maxAttempts
      | .finalize number _ =>
          row.status = .cancelRequested && row.attempt < row.maxAttempts &&
            st.tasks[number]?.any fun task => task.jobId = jobId && task.retries
      | .requeueInterrupted target _ =>
          target = jobId && (row.status = .interrupted || row.status = .retryWaiting)
      | _ => false
  | _, _ => false

/-- A row that no step but those takes back to the queue. -/
def Job.Stopped (row : Job) : Prop :=
  row.status ∈ [JobStatus.cancelRequested, .cancelled, .succeeded, .failed] ∨
    row.status ∈ [JobStatus.interrupted, .retryWaiting] ∧ row.maxAttempts ≤ row.attempt

theorem Job.Stopped.not_running {row : Job} (stopped : row.Stopped) : row.status ≠ .running := by
  intro running
  simp [Job.Stopped, running] at stopped

theorem Job.Stopped.not_queued {row : Job} (stopped : row.Stopped) : row.status ≠ .queued := by
  intro queued
  simp [Job.Stopped, queued] at stopped

section Step

variable {config : QueueConfig} {st : State} {s : Step} {place : ℕ} {row row' : Job}

theorem Job.Stopped.change (stopped : row.Stopped) (found : st.jobs.place row.jobId = some place)
    (got : st.jobs.get row.jobId = some row) (remembered : forgetsCancel row.jobId st s = false)
    (change : RowChange config st place row s row') : row'.Stopped := by
  cases change with
  | kept => exact stopped
  | cancelRequested now running => exact absurd running stopped.not_running
  | cancelled now waiting => exact .inl (by simp [Job.enter])
  | requeuedByHand now waiting =>
    have refused : ¬(row.status = .interrupted ∨ row.status = .retryWaiting) := by
      simpa [forgetsCancel, found, got] using remembered
    exact absurd waiting refused
  | archived now => exact stopped
  | unarchived now => exact stopped
  | claimed transaction request locked pending admitted queued =>
    exact absurd queued stopped.not_queued
  | reclaimed locked now free stale =>
    have exhausted : row.status = .cancelRequested → row.maxAttempts ≤ row.attempt := by
      intro asked
      simpa [forgetsCancel, found, got, asked, stale, free] using remembered
    have asked : row.status = .cancelRequested := by
      simp only [Job.isStale, Bool.and_eq_true, List.mem_cons, List.not_mem_nil, or_false,
        decide_eq_true_eq] at stale
      exact stale.1.resolve_left stopped.not_running
    exact .inr ⟨by simp [Job.reclaimed], exhausted asked⟩
  | requeued locked now backoff limit due =>
    have waiting : row.status = .interrupted ∨ row.status = .retryWaiting := by
      simp only [Job.isDue, Bool.and_eq_true, List.mem_cons, List.not_mem_nil, or_false,
        decide_eq_true_eq] at due
      exact due.1.1
    have exhausted : row.maxAttempts ≤ row.attempt := by
      cases stopped with
      | inl final => rcases waiting with waiting | waiting <;> simp [waiting] at final
      | inr left => exact left.2
    exact .inl (by simp [Job.requeued, exhausted])
  | zombie errorSummary now running => exact absurd running stopped.not_running
  | progressed number task done total phase now issuer executing same wanted => exact stopped
  | beaten number task leaseUntil now issuer same running held => exact stopped
  | finished number task result now issuer finishing same unfinished =>
    have asked := unfinished.resolve_left stopped.not_running
    by_cases retry : result.status = .retryWaiting
    · have exhausted : row.maxAttempts ≤ row.attempt := by
        simpa [forgetsCancel, found, got, asked, issuer, same, Task.retries, finishing, retry]
          using remembered
      exact .inr ⟨by simp [Job.finished, Job.enter, ResultStatus.status, retry], exhausted⟩
    · apply Or.inl
      simp only [Job.finished, Job.enter]
      cases status : result.status with
      | retryWaiting => exact absurd status retry
      | _ => simp [ResultStatus.status]

end Step

/-- The row of a job is there and stopped. -/
def StoppedAt (jobId : String) (st : State) : Prop :=
  ∃ row, st.jobs.get jobId = some row ∧ row.Stopped

theorem StoppedAt.step {config : QueueConfig} {jobId : String} (st : State) (s : Step)
    (stopped : StoppedAt jobId st) (remembered : forgetsCancel jobId st s = false) :
    StoppedAt jobId (step config st s) := by
  obtain ⟨row, got, stopped⟩ := stopped
  have same := Table.jobId_of_get got
  subst same
  obtain ⟨place, row', found, got', change⟩ := (step_changes config st s).get got
  exact ⟨row', got', stopped.change found got remembered change⟩

/-- A job whose cancellation was accepted is never running again, unless a step forgets the
request. -/
theorem cancellation_final (config : QueueConfig) (before after : List Step) (jobId : String)
    (row : Job) (got : (run config before).jobs.get jobId = some row)
    (accepted : row.status = .cancelled ∨ row.status = .cancelRequested)
    (remembered : Admitted config (fun st s => !forgetsCancel jobId st s) (run config before) after) :
    ∃ row', (run config (before ++ after)).jobs.get jobId = some row' ∧ row'.status ≠ .running := by
  have initial : StoppedAt jobId (run config before) :=
    ⟨row, got, .inl (by rcases accepted with accepted | accepted <;> simp [accepted])⟩
  have preserved : ∀ st s, StoppedAt jobId st → (!forgetsCancel jobId st s) = true →
      StoppedAt jobId (step config st s) := by
    intro st s stopped admitted
    exact stopped.step st s (by simpa using admitted)
  obtain ⟨row', got', stopped⟩ := remembered.run_invariant preserved initial
  exact ⟨row', by rw [run_append, got'], stopped.not_running⟩

/-- A job claimed for a minute and asked to stop after ten seconds. -/
def cancelledWhileRunning : List Step :=
  [.create {
      jobId := "job", idempotencyKey := "key", kind := "backtest", payloadChecksum := "sum"
      requestedBy := "api" } 0,
    .lockClaims "worker", .takeClaim { leaseUntil := 60, now := 0 } [], .start 0,
    .requestCancel "job" 10]

/-- The next report aborts the execution, and the worker finishes the job as cancelled. -/
theorem cancellation_final_aborted :
    ∃ row, (run { executors := ["backtest"] } (cancelledWhileRunning ++
        [.progress 0 1 none none 20, .complete 0 .cancelled, .reclaimStale [] 30, .finalize 0 30,
          .requeueDue [] 1000 30 50])).jobs.get "job" = some row ∧ row.status ≠ .running :=
  cancellation_final { executors := ["backtest"] } cancelledWhileRunning _ "job"
    (((run { executors := ["backtest"] } cancelledWhileRunning).jobs.get "job").get
      (by decide +kernel))
    (by decide +kernel) (by decide +kernel) (by decide +kernel)

/-- The worker dies after the request: its lease runs out, the job is queued again and claimed. -/
def resumedAfterCancel : List Step :=
  [.reclaimStale [] 61, .requeueDue [] 100 30 50, .lockClaims "other",
    .takeClaim { leaseUntil := 160, now := 100 } []]

theorem cancelled_job_runs_again :
    ¬∀ (config : QueueConfig) (before after : List Step) (jobId : String) (row row' : Job),
      (run config before).jobs.get jobId = some row →
      row.status = .cancelled ∨ row.status = .cancelRequested →
      (run config (before ++ after)).jobs.get jobId = some row' → row'.status ≠ .running := by
  intro final
  apply final { executors := ["backtest"] } cancelledWhileRunning resumedAfterCancel "job"
    (((run { executors := ["backtest"] } cancelledWhileRunning).jobs.get "job").get
      (by decide +kernel))
    (((run { executors := ["backtest"] } (cancelledWhileRunning ++ resumedAfterCancel)).jobs.get
      "job").get (by decide +kernel))
  · decide +kernel
  · decide +kernel
  · decide +kernel
  · decide +kernel

end Cancellation

end FinDashboard.Jobs
