import FinDashboard.Jobs.Repository
import FinDashboard.Ledger.Dictionary

/-!
# Workers on the job table

A claim counts the running jobs of each kind under the advisory lock and takes rows in a later
statement; other transactions commit in between. Every claimed row is run by a task of its own,
whose reports, heartbeats and final write come at any later time. What an executor does is chosen
by the environment.
-/

namespace FinDashboard.Jobs

open Ledger (find)

/-- What the workers share: `kind_concurrency` and the kinds with an executor. -/
structure QueueConfig where
  kindConcurrency : List (String × ℤ) := []
  executors : List String := []

/-- The kinds with a limit: those with a positive cap. -/
def QueueConfig.capped (config : QueueConfig) : List (String × ℤ) :=
  config.kindConcurrency.filter fun entry => 0 < entry.2

inductive TaskPhase
  | claimed
  | executing
  | finishing (result : JobResult)
  | ended
  deriving DecidableEq, Repr

/-- `_run_one` for a claimed row, with what `_execute_with_heart` keeps. -/
structure Task where
  jobId : String
  workerId : String
  /-- The attempt of the claim; only statements about the task read it. -/
  attempt : ℕ
  phase : TaskPhase := .claimed
  /-- `cancel_state["cancelled"]`. -/
  cancelled : Bool := false
  /-- `cancel_state["aborted_by_progress"]`. -/
  abortedByProgress : Bool := false
  /-- Whether the heartbeat loop still runs. -/
  beating : Bool := true
  deriving DecidableEq, Repr

/-- How an execution ends. -/
inductive Outcome
  | returned (result : JobResult)
  | raised (retryable : Bool) (errorCode errorSummary : String)
  /-- `CancelledError` after the stall watchdog has fired. -/
  | stalled (errorSummary : String)
  /-- `CancelledError` otherwise. -/
  | cancelled
  deriving DecidableEq, Repr

/-- `JobResult(status=CANCELLED)`. -/
def cancelledResult : JobResult := { status := .cancelled }

/-- The end of `_execute_with_heart`, or of `_run_one` when an exception gets there. -/
def Task.complete (task : Task) (outcome : Outcome) : Task :=
  { task with
    beating := false
    phase := match outcome with
      | .returned result => .finishing (if task.cancelled then cancelledResult else result)
      | .raised retryable errorCode errorSummary =>
          .finishing {
            status := if retryable then .retryWaiting else .failed
            errorCode := some errorCode, errorSummary := some errorSummary }
      | .stalled errorSummary =>
          .finishing (if task.cancelled then cancelledResult else {
            status := .retryWaiting
            errorCode := some "stall_watchdog", errorSummary := some errorSummary })
      | .cancelled => if task.abortedByProgress then .finishing cancelledResult else .ended }

/-- A claim between its count and its commit; it holds the advisory lock. -/
structure ClaimTransaction where
  workerId : String
  /-- `running_counts`. -/
  runningCounts : List (String × ℕ)
  deriving DecidableEq, Repr

structure State where
  jobs : Table := []
  tasks : List Task := []
  claim : Option ClaimTransaction := none

def Table.running (jobs : Table) (kind : String) : ℕ :=
  jobs.countP fun row => row.status = .running ∧ row.kind = kind

def runningCountsByKind (jobs : Table) (kinds : List String) : List (String × ℕ) :=
  kinds.map fun kind => (kind, jobs.running kind)

/-- The first statements of `claim_next`: the lock and the count. -/
def lockClaims (config : QueueConfig) (st : State) (workerId : String) : State :=
  match st.claim with
  | some _ => st
  | none =>
      let runningCounts := runningCountsByKind st.jobs (config.capped.map (·.1))
      { st with claim := some { workerId, runningCounts } }

/-- `running_counts.get(kind, 0)`. -/
def ClaimTransaction.count (transaction : ClaimTransaction) (kind : String) : ℕ :=
  (find kind transaction.runningCounts).getD 0

/-- Whether a kind has reached its cap with the rows admitted so far. -/
def atLimit (config : QueueConfig) (transaction : ClaimTransaction) (admitted : List String)
    (kind : String) : Bool :=
  match find kind config.capped with
  | some cap => cap ≤ transaction.count kind + admitted.count kind
  | none => false

/-- What a claim is asked for; an empty list of queues means all. -/
structure ClaimRequest where
  queues : List String := []
  limit : ℕ := 1
  leaseUntil : Time
  now : Time

/-- The rows the claim locks, with their places: `SKIP LOCKED` passes over those of others. -/
def selectQueued (config : QueueConfig) (transaction : ClaimTransaction) (request : ClaimRequest)
    (locked : List ℕ) (jobs : Table) : List (Job × ℕ) :=
  let queued := jobs.zipIdx.filter fun entry =>
    entry.1.status = .queued ∧ (request.queues = [] ∨ entry.1.queue ∈ request.queues) ∧
      ¬atLimit config transaction [] entry.1.kind ∧ entry.2 ∉ locked
  (queued.insertionSort fun entry other =>
    other.1.priority < entry.1.priority ∨ other.1.priority = entry.1.priority ∧
      (entry.1.createdAt < other.1.createdAt ∨
        entry.1.createdAt = other.1.createdAt ∧ entry.2 ≤ other.2)).take request.limit

def admitRows (config : QueueConfig) (transaction : ClaimTransaction) :
    List (Job × ℕ) → List String → List ℕ
  | [], _ => []
  | (row, place) :: rest, admitted =>
      if atLimit config transaction admitted row.kind then admitRows config transaction rest admitted
      else place :: admitRows config transaction rest (admitted ++ [row.kind])

def Job.claimed (row : Job) (workerId : String) (request : ClaimRequest) : Job :=
  { row with
    status := .running
    workerId := some workerId
    leaseUntil := some request.leaseUntil
    heartbeatAt := some request.now
    attempt := row.attempt + 1
    updatedAt := request.now
    startedAt := row.startedAt.or (some request.now) }

def Job.task (row : Job) (workerId : String) : Task :=
  { jobId := row.jobId, workerId, attempt := row.attempt + 1 }

/-- The rest of `claim_next` and its commit; `_fill_concurrency` starts the tasks. -/
def takeClaim (config : QueueConfig) (st : State) (request : ClaimRequest) (locked : List ℕ) : State :=
  match st.claim with
  | none => st
  | some transaction =>
      let places := admitRows config transaction
        (selectQueued config transaction request locked st.jobs) []
      { jobs := st.jobs.rewrite (fun place _ => place ∈ places) fun row =>
          row.claimed transaction.workerId request
        tasks := st.tasks ++ places.filterMap fun place =>
          st.jobs[place]?.map fun row => row.task transaction.workerId
        claim := none }

/-- A table that a refused call leaves as it is. -/
def State.commit (st : State) (result : Except ConflictError Table) : State :=
  match result with
  | .ok jobs => { st with jobs }
  | .error _ => st

/-- The first block of `_run_one`. -/
def startTask (config : QueueConfig) (jobs : Table) (task : Task) : Task :=
  match jobs.get task.jobId with
  | none => { task with phase := .ended }
  | some row =>
      if row.status ≠ .running then { task with phase := .ended }
      else if row.kind ∈ config.executors then { task with phase := .executing }
      else { task with phase := .finishing {
        status := .failed
        errorCode := some "unknown_kind", errorSummary := some ("无注册执行器: " ++ row.kind) } }

/-- The callback `progress`: a cancelled job aborts the execution, any other row is written. -/
def reportProgress (jobs : Table) (task : Task) (done : ℤ) (total : Option ℤ)
    (phase : Option String) (now : Time) : Table × Task :=
  match jobs.get task.jobId with
  | none => (jobs, task)
  | some row =>
      if row.status = .cancelRequested then
        (jobs, { task with cancelled := true, abortedByProgress := true })
      else
        match jobs.updateProgress task.jobId done total phase now with
        | .ok jobs => (jobs, task)
        | .error _ => (jobs, task)

/-- One turn of the loop `heartbeat`. -/
def heartbeat (jobs : Table) (task : Task) (leaseUntil now : Time) : Table × Task :=
  match jobs.get task.jobId with
  | none => (jobs, { task with beating := false })
  | some row =>
      if row.status = .cancelRequested then
        (jobs, { task with cancelled := true, beating := false })
      else if row.status ≠ .running ∨ row.workerId ≠ some task.workerId then
        (jobs, { task with beating := false })
      else (jobs.updateHeartbeat task.jobId task.workerId leaseUntil now, task)

/-- `_finalize`; a conflict is logged and passed over. -/
def finalize (jobs : Table) (task : Task) (result : JobResult) (now : Time) : Table :=
  match jobs.finish task.jobId result now with
  | .ok jobs => jobs
  | .error _ => jobs

/-- A transaction on the table, or an event of a task, given by its place. -/
inductive Step
  | create (request : JobRequest) (now : Time)
  | requestCancel (jobId : String) (now : Time)
  | requeueInterrupted (jobId : String) (now : Time)
  | archive (jobId : String) (now : Time)
  | unarchive (jobId : String) (now : Time)
  | lockClaims (workerId : String)
  | takeClaim (request : ClaimRequest) (locked : List ℕ)
  /-- The claim is rolled back. -/
  | dropClaim
  | reclaimStale (locked : List ℕ) (now : Time)
  | requeueDue (locked : List ℕ) (now backoff : Time) (limit : ℕ)
  /-- `_detect_zombie_jobs` takes a job for a zombie. -/
  | failZombie (jobId : String) (errorSummary : String) (now : Time)
  | start (task : ℕ)
  | progress (task : ℕ) (done : ℤ) (total : Option ℤ) (phase : Option String) (now : Time)
  | beat (task : ℕ) (leaseUntil now : Time)
  | complete (task : ℕ) (outcome : Outcome)
  | finalize (task : ℕ) (now : Time)

/-- A step; a task that is not there, or not in the phase of the event, does nothing. -/
def step (config : QueueConfig) (st : State) : Step → State
  | .create request now => { st with jobs := (st.jobs.createOrGet request now).1 }
  | .requestCancel jobId now => st.commit (st.jobs.requestCancel jobId now)
  | .requeueInterrupted jobId now => st.commit (st.jobs.requeueInterrupted jobId now)
  | .archive jobId now => st.commit (st.jobs.archive jobId now)
  | .unarchive jobId now => st.commit (st.jobs.unarchive jobId now)
  | .lockClaims workerId => lockClaims config st workerId
  | .takeClaim request locked => takeClaim config st request locked
  | .dropClaim => { st with claim := none }
  | .reclaimStale locked now => { st with jobs := st.jobs.reclaimStale locked now }
  | .requeueDue locked now backoff limit =>
      { st with jobs := st.jobs.requeueDue locked now backoff limit }
  | .failZombie jobId errorSummary now =>
      st.commit (st.jobs.transition jobId [.running] .retryWaiting (some "zombie_no_progress")
        (some errorSummary) now)
  | .start place =>
      match st.tasks[place]? with
      | some task =>
          if task.phase = .claimed then
            { st with tasks := st.tasks.set place (startTask config st.jobs task) }
          else st
      | none => st
  | .progress place done total phase now =>
      match st.tasks[place]? with
      | some task =>
          if task.phase = .executing then
            let (jobs, task) := reportProgress st.jobs task done total phase now
            { st with jobs, tasks := st.tasks.set place task }
          else st
      | none => st
  | .beat place leaseUntil now =>
      match st.tasks[place]? with
      | some task =>
          if task.phase = .executing ∧ task.beating = true ∧ task.cancelled = false then
            let (jobs, task) := heartbeat st.jobs task leaseUntil now
            { st with jobs, tasks := st.tasks.set place task }
          else st
      | none => st
  | .complete place outcome =>
      match st.tasks[place]? with
      | some task =>
          if task.phase = .executing then
            { st with tasks := st.tasks.set place (task.complete outcome) }
          else st
      | none => st
  | .finalize place now =>
      match st.tasks[place]? with
      | some task =>
          match task.phase with
          | .finishing result =>
              { st with
                jobs := finalize st.jobs task result now
                tasks := st.tasks.set place { task with phase := .ended } }
          | _ => st
      | none => st

def run (config : QueueConfig) (steps : List Step) : State := steps.foldl (step config) {}

end FinDashboard.Jobs
