import Mathlib.Data.List.Sort

/-!
# The job table

`background_jobs` and the repository that writes it. A method runs in one transaction with the row
lock it takes, so each is a function from the table to the table; the time is an argument. The
claim of a worker, which needs several statements, is in the next module.
-/

namespace FinDashboard.Jobs

/-- Microseconds since the epoch. -/
abbrev Time := ℤ

/-- `BackgroundJobStatus`. -/
inductive JobStatus
  | queued | running | retryWaiting | succeeded | failed | cancelRequested | cancelled | interrupted
  deriving DecidableEq, Repr

namespace JobStatus

def value : JobStatus → String
  | queued => "queued"
  | running => "running"
  | retryWaiting => "retry_waiting"
  | succeeded => "succeeded"
  | failed => "failed"
  | cancelRequested => "cancel_requested"
  | cancelled => "cancelled"
  | interrupted => "interrupted"

/-- `TERMINAL_STATUSES`. -/
def isTerminal (status : JobStatus) : Bool :=
  status ∈ [succeeded, failed, cancelled, interrupted]

/-- `_RECREATABLE_STATUSES`. -/
def isRecreatable (status : JobStatus) : Bool := status ∈ [failed, cancelled]

end JobStatus

/-- A row of `background_jobs`; its automatic id is its place in the table. -/
structure Job where
  jobId : String
  idempotencyKey : String
  kind : String
  queue : String
  status : JobStatus
  priority : ℤ
  payloadChecksum : String
  maxAttempts : ℕ
  requestedBy : String
  progressTotal : ℤ := 0
  progressDone : ℤ := 0
  phase : Option String := none
  resultRef : Option String := none
  errorCode : Option String := none
  errorSummary : Option String := none
  attempt : ℕ := 0
  workerId : Option String := none
  heartbeatAt : Option Time := none
  leaseUntil : Option Time := none
  createdAt : Time
  startedAt : Option Time := none
  finishedAt : Option Time := none
  archivedAt : Option Time := none
  updatedAt : Time
  deriving DecidableEq, Repr

/-- `BackgroundJobPersistenceConflictError`, by what it reports. -/
inductive ConflictError
  | differentPayload
  | notFound (jobId : String)
  | unexpectedStatus (jobId : String) (status : JobStatus) (expected : List JobStatus)
  | notCancellable (jobId : String) (status : JobStatus)
  | notTerminal (jobId : String) (status : JobStatus)
  /-- The `IntegrityError` of a taken job id, which is raised again. -/
  | integrity
  deriving DecidableEq, Repr

/-- The table. -/
abbrev Table := List Job

namespace Table

variable (jobs : Table)

def place (jobId : String) : Option ℕ := jobs.findIdx? fun row => row.jobId = jobId

def get (jobId : String) : Option Job := (jobs.place jobId).bind fun place => jobs[place]?

/-- The row of a job id written anew. -/
def put (jobId : String) (row : Job) : Table :=
  match jobs.place jobId with
  | none => jobs
  | some place => jobs.set place row

/-- The rows that are due are rewritten, at their places. -/
def rewrite (due : ℕ → Job → Bool) (change : Job → Job) : Table :=
  jobs.mapIdx fun place row => if due place row then change row else row

/-- `get_by_idempotency_key`: an active row first, then the one created last. -/
def getByIdempotencyKey (idempotencyKey : String) : Option Job :=
  let same := jobs.filter fun row => row.idempotencyKey = idempotencyKey
  (same.insertionSort fun row other =>
    row.status.isRecreatable < other.status.isRecreatable ∨
      row.status.isRecreatable = other.status.isRecreatable ∧ other.createdAt ≤ row.createdAt).head?

end Table

/-- The arguments of `create_or_get`; the schemas of the callers admit at least one attempt. -/
structure JobRequest where
  jobId : String
  idempotencyKey : String
  kind : String
  queue : String := "default"
  priority : ℤ := 0
  payloadChecksum : String
  maxAttempts : ℕ := 3
  requestedBy : String
  maxAttempts_pos : 1 ≤ maxAttempts := by decide

/-- The row a request creates; all callers create it queued. -/
def JobRequest.row (request : JobRequest) (now : Time) : Job where
  jobId := request.jobId
  idempotencyKey := request.idempotencyKey
  kind := request.kind
  queue := request.queue
  status := .queued
  priority := request.priority
  payloadChecksum := request.payloadChecksum
  maxAttempts := request.maxAttempts
  requestedBy := request.requestedBy
  createdAt := now
  updatedAt := now

namespace Table

/-- The insertion of `create_or_get`; a job id is unique. -/
def insert (jobs : Table) (request : JobRequest) (now : Time) :
    Table × Except ConflictError (Job × Bool) :=
  if (jobs.get request.jobId).isSome then (jobs, .error .integrity)
  else (jobs ++ [request.row now], .ok (request.row now, true))

/-- `create_or_get`: the row and whether it was created. -/
def createOrGet (jobs : Table) (request : JobRequest) (now : Time) :
    Table × Except ConflictError (Job × Bool) :=
  match (jobs.getByIdempotencyKey request.idempotencyKey).or (jobs.get request.jobId) with
  | none => jobs.insert request now
  | some existing =>
      if existing.payloadChecksum ≠ request.payloadChecksum then (jobs, .error .differentPayload)
      else if existing.status.isRecreatable then jobs.insert request now
      else (jobs, .ok (existing, false))

end Table

/-- The side effects of a change of status. -/
def Job.enter (row : Job) (target : JobStatus) (errorCode errorSummary : Option String)
    (now : Time) : Job :=
  { row with
    status := target
    errorCode, errorSummary
    updatedAt := now
    startedAt := if target = .running then row.startedAt.or (some now) else row.startedAt
    finishedAt := if target.isTerminal then some now else row.finishedAt }

namespace Table

variable (jobs : Table)

/-- `transition`; an empty `expected` admits every status. -/
def transition (jobId : String) (expected : List JobStatus) (target : JobStatus)
    (errorCode errorSummary : Option String) (now : Time) : Except ConflictError Table :=
  match jobs.get jobId with
  | none => .error (.notFound jobId)
  | some row =>
      if expected ≠ [] ∧ row.status ∉ expected then
        .error (.unexpectedStatus jobId row.status expected)
      else .ok (jobs.put jobId (row.enter target errorCode errorSummary now))

def requestCancel (jobId : String) (now : Time) : Except ConflictError Table :=
  match jobs.get jobId with
  | none => .error (.notFound jobId)
  | some row =>
      if row.status = .running then
        jobs.transition jobId [.running] .cancelRequested none none now
      else if row.status = .queued ∨ row.status = .retryWaiting then
        jobs.transition jobId [.queued, .retryWaiting] .cancelled none none now
      else .error (.notCancellable jobId row.status)

def requeueInterrupted (jobId : String) (now : Time) : Except ConflictError Table :=
  jobs.transition jobId [.interrupted, .retryWaiting] .queued none none now

end Table

/-- The statuses an executor may report; the other statuses are written by the queue itself. -/
inductive ResultStatus
  | succeeded | retryWaiting | failed | cancelled
  deriving DecidableEq, Repr

def ResultStatus.status : ResultStatus → JobStatus
  | succeeded => .succeeded
  | retryWaiting => .retryWaiting
  | failed => .failed
  | cancelled => .cancelled

structure JobResult where
  status : ResultStatus
  resultRef : Option String := none
  errorCode : Option String := none
  errorSummary : Option String := none
  deriving DecidableEq, Repr

/-- The row after `finish`. -/
def Job.finished (row : Job) (result : JobResult) (now : Time) : Job :=
  let row := row.enter result.status.status result.errorCode result.errorSummary now
  { row with resultRef := result.resultRef.or row.resultRef }

namespace Table

variable (jobs : Table)

/-- `finish`, which asks for the status of the row only. -/
def finish (jobId : String) (result : JobResult) (now : Time) : Except ConflictError Table :=
  match jobs.transition jobId [.running, .cancelRequested] result.status.status result.errorCode
      result.errorSummary now with
  | .error error => .error error
  | .ok jobs =>
      match jobs.get jobId with
      | none => .error (.notFound jobId)
      | some row =>
          .ok (jobs.put jobId { row with resultRef := result.resultRef.or row.resultRef })

end Table

def phaseMaxLength : ℕ := 256

/-- The row after `update_progress`. -/
def Job.progressed (row : Job) (done : ℤ) (total : Option ℤ) (phase : Option String) (now : Time) : Job :=
  let progressTotal := match total with
    | some total => if 0 ≤ total then max row.progressTotal total else row.progressTotal
    | none => row.progressTotal
  let ceiling := if progressTotal ≠ 0 then progressTotal else done
  let progressDone := if ceiling ≠ 0 then min (max row.progressDone done) ceiling
    else max row.progressDone done
  { row with
    progressTotal, progressDone
    phase := match phase with
      | some phase => some (String.ofList (phase.toList.take phaseMaxLength))
      | none => row.phase
    heartbeatAt := some now
    updatedAt := now }

/-- The row after `update_heartbeat`. -/
def Job.beaten (row : Job) (workerId : String) (leaseUntil now : Time) : Job :=
  { row with
    heartbeatAt := some now, leaseUntil := some leaseUntil, workerId := some workerId
    updatedAt := now }

namespace Table

variable (jobs : Table)

/-- `update_progress`, which asks for nothing but the row. -/
def updateProgress (jobId : String) (done : ℤ) (total : Option ℤ) (phase : Option String)
    (now : Time) : Except ConflictError Table :=
  match jobs.get jobId with
  | none => .error (.notFound jobId)
  | some row => .ok (jobs.put jobId (row.progressed done total phase now))

def updateHeartbeat (jobId workerId : String) (leaseUntil now : Time) : Table :=
  match jobs.get jobId with
  | none => jobs
  | some row => jobs.put jobId (row.beaten workerId leaseUntil now)

end Table

/-- Whether `reclaim_stale` takes a row: its lease has run out. -/
def Job.isStale (row : Job) (now : Time) : Bool :=
  row.status ∈ [JobStatus.running, .cancelRequested] &&
    match row.leaseUntil with
    | some leaseUntil => leaseUntil < now
    | none => false

/-- The row after `reclaim_stale`. -/
def Job.reclaimed (row : Job) (now : Time) : Job :=
  { row with status := .interrupted, finishedAt := some now, updatedAt := now }

/-- Whether `requeue_due` takes a row. -/
def Job.isDue (row : Job) (cutoff : Time) : Bool :=
  row.status ∈ [JobStatus.interrupted, .retryWaiting] && row.archivedAt.isNone &&
    row.updatedAt ≤ cutoff

/-- The row after `requeue_due`. -/
def Job.requeued (row : Job) (now : Time) : Job :=
  if row.maxAttempts ≤ row.attempt then
    { row with
      status := .failed, updatedAt := now, finishedAt := some now
      errorCode := some "max_retries_exceeded"
      errorSummary := some ("重试次数已达上限(" ++ toString row.maxAttempts ++ ")") }
  else { row with status := .queued, updatedAt := now }

namespace Table

variable (jobs : Table)

/-- `reclaim_stale`; rows that other transactions have locked are skipped. -/
def reclaimStale (locked : List ℕ) (now : Time) : Table :=
  jobs.rewrite (fun place row => place ∉ locked && row.isStale now) fun row => row.reclaimed now

/-- The places `requeue_due` takes: those that have waited longest, up to the limit. -/
def duePlaces (locked : List ℕ) (cutoff : Time) (limit : ℕ) : List ℕ :=
  let due := jobs.zipIdx.filter fun entry => entry.2 ∉ locked && entry.1.isDue cutoff
  ((due.insertionSort fun entry other => entry.1.updatedAt ≤ other.1.updatedAt).take limit).map
    (·.2)

def requeueDue (locked : List ℕ) (now backoff : Time) (limit : ℕ) : Table :=
  let places := jobs.duePlaces locked (now - max backoff 0) limit
  jobs.rewrite (fun place _ => place ∈ places) fun row => row.requeued now

/-- `archive`; a repeated call changes nothing. -/
def archive (jobId : String) (now : Time) : Except ConflictError Table :=
  match jobs.get jobId with
  | none => .error (.notFound jobId)
  | some row =>
      if row.status.isTerminal = false then .error (.notTerminal jobId row.status)
      else if row.archivedAt.isNone then
        .ok (jobs.put jobId { row with archivedAt := some now, updatedAt := now })
      else .ok jobs

def unarchive (jobId : String) (now : Time) : Except ConflictError Table :=
  match jobs.get jobId with
  | none => .error (.notFound jobId)
  | some row =>
      if row.archivedAt.isSome then
        .ok (jobs.put jobId { row with archivedAt := none, updatedAt := now })
      else .ok jobs

end Table

end FinDashboard.Jobs
