import FinDashboard.Jobs.RowChanges
import FinDashboard.Runs.Guarded
import Mathlib.Data.List.Sigma

/-!
# The attempts of a job

A claim counts one attempt and starts one task, so the attempt of a row is the number of its
claims. `requeue_due` queues a job only while it has attempts left; `requeue_interrupted` does not
look at them.
-/

namespace FinDashboard.Jobs

open List

def State.claims (st : State) (jobId : String) : ℕ := (st.tasks.map (·.jobId)).count jobId

/-- Whether a step keeps the bound where it is not checked: `requeue_interrupted` is called for a
job with attempts left, or refuses the job. -/
def respectsAttempts (st : State) (s : Step) : Bool :=
  match s with
  | .requeueInterrupted jobId _ =>
      (st.jobs.get jobId).all fun row =>
        (row.status ≠ .interrupted && row.status ≠ .retryWaiting) || row.attempt < row.maxAttempts
  | _ => true

section Rows

variable {config : QueueConfig} {st : State} {s : Step} {place : ℕ} {row row' : Job}

theorem RowChange.maxAttempts (change : RowChange config st place row s row') :
    row'.maxAttempts = row.maxAttempts := by
  cases change with
  | requeued => unfold Job.requeued; split <;> rfl
  | _ => rfl

theorem RowChange.attempt (change : RowChange config st place row s row')
    (other : ∀ request locked, s ≠ .takeClaim request locked) : row'.attempt = row.attempt := by
  cases change with
  | claimed transaction request locked => exact absurd rfl (other request locked)
  | requeued => unfold Job.requeued; split <;> rfl
  | _ => rfl

theorem RowChange.queued (change : RowChange config st place row s row')
    (queued : row'.status = .queued) : row.status = .queued ∨ row.attempt < row.maxAttempts ∨
      (row.status = .interrupted ∨ row.status = .retryWaiting) ∧
        ∃ now, s = .requeueInterrupted row.jobId now := by
  cases change with
  | requeuedByHand now waiting => exact .inr (.inr ⟨waiting, now, rfl⟩)
  | requeued locked now backoff limit due =>
    unfold Job.requeued at queued
    split at queued
    · cases queued
    · next unspent => exact .inr (.inl (by omega))
  | finished number task result =>
    simp only [Job.finished, Job.enter] at queued
    cases status : result.status <;> simp [status, ResultStatus.status] at queued
  | kept => exact .inl queued
  | archived => exact .inl queued
  | unarchived => exact .inl queued
  | progressed => exact .inl queued
  | beaten => exact .inl queued
  | _ => cases queued

theorem Changes.jobIds {after : Table} (changes : Changes config st s after) :
    after.map (·.jobId) = st.jobs.map (·.jobId) ∨
      ∃ request now, s = .create request now ∧ st.jobs.get request.jobId = none ∧
        after.map (·.jobId) = st.jobs.map (·.jobId) ++ [request.jobId] := by
  have kept (place : ℕ) (bound : place < st.jobs.length) :
      (after.map (·.jobId))[place]? = (st.jobs.map (·.jobId))[place]? := by
    obtain ⟨row', entry', change⟩ := changes.old place _ (List.getElem?_eq_getElem bound)
    simp [entry', change.jobId, bound]
  have absent (place : ℕ) (beyond : st.jobs.length ≤ place) : st.jobs[place]? = none :=
    List.getElem?_eq_none_iff.mpr beyond
  cases last : after[st.jobs.length]? with
  | none =>
    have shorter := List.getElem?_eq_none_iff.mp last
    left
    apply ext_getElem?
    intro place
    by_cases bound : place < st.jobs.length
    · exact kept place bound
    · have gone : after[place]? = none := List.getElem?_eq_none_iff.mpr (by omega)
      simp [gone, absent place (by omega)]
  | some row' =>
    obtain ⟨-, request, now, created, rfl, fresh⟩ :=
      changes.new _ row' last (absent _ le_rfl)
    refine .inr ⟨request, now, created, fresh, ?_⟩
    apply ext_getElem?
    intro place
    rcases lt_trichotomy place st.jobs.length with bound | rfl | beyond
    · rw [kept place bound, List.getElem?_append_left (by simpa using bound)]
    · simp [last, JobRequest.row]
    · have gone : after[place]? = none := by
        cases entry : after[place]? with
        | none => rfl
        | some row =>
          have last := (changes.new place row entry (absent place beyond.le)).1
          omega
      have past : (st.jobs.map (·.jobId) ++ [request.jobId]).length ≤ place := by
        simp only [length_append, length_map, length_singleton]
        omega
      simp [gone, List.getElem?_eq_none_iff.mpr past]

end Rows

section Tasks

variable {config : QueueConfig} {st : State}

theorem taskIds_set {tasks : List Task} {number : ℕ} {task task' : Task}
    (issuer : tasks[number]? = some task) (same : task'.jobId = task.jobId) :
    (tasks.set number task').map (·.jobId) = tasks.map (·.jobId) := by
  obtain ⟨bound, rfl⟩ := List.getElem?_eq_some_iff.mp issuer
  have mapped : number < (tasks.map (·.jobId)).length := by simpa using bound
  have entry : (tasks.map (·.jobId))[number] = tasks[number].jobId := getElem_map _
  rw [map_set, same, ← entry, set_getElem_self]

theorem step_taskIds (s : Step) (other : ∀ request locked, s ≠ .takeClaim request locked) :
    (step config st s).tasks.map (·.jobId) = st.tasks.map (·.jobId) := by
  have commit (result : Except ConflictError Table) : (st.commit result).tasks = st.tasks := by
    cases result <;> rfl
  cases s with
  | create | dropClaim | reclaimStale | requeueDue => rfl
  | requestCancel | requeueInterrupted | archive | unarchive | failZombie =>
    simp only [step, commit]
  | takeClaim request locked => exact absurd rfl (other request locked)
  | lockClaims workerId =>
    simp only [step, lockClaims]
    split <;> rfl
  | start number =>
    simp only [step]
    split
    · next task issuer =>
      split
      · apply taskIds_set issuer
        unfold startTask
        repeat' split
        all_goals rfl
      · rfl
    · rfl
  | progress number done total phase now =>
    simp only [step]
    split
    · next task issuer =>
      split
      · apply taskIds_set issuer
        unfold reportProgress
        repeat' split
        all_goals rfl
      · rfl
    · rfl
  | beat number leaseUntil now =>
    simp only [step]
    split
    · next task issuer =>
      split
      · apply taskIds_set issuer
        unfold heartbeat
        repeat' split
        all_goals rfl
      · rfl
    · rfl
  | complete number outcome =>
    simp only [step]
    split
    · next task issuer =>
      split
      · exact taskIds_set issuer rfl
      · rfl
    · rfl
  | finalize number now =>
    simp only [step]
    split
    · next task issuer =>
      split
      · exact taskIds_set issuer rfl
      · rfl
    · rfl

theorem admitRows_nodup (config : QueueConfig) (transaction : ClaimTransaction)
    (request : ClaimRequest) (locked : List ℕ) (jobs : Table) :
    (admitRows config transaction (selectQueued config transaction request locked jobs) []).Nodup := by
  have distinct := nodup_zipIdx_map_snd jobs
  apply List.Nodup.sublist (admitRows_sublist _ _)
  apply List.Nodup.sublist ((take_sublist _ _).map _)
  apply ((perm_insertionSort _ _).map _).nodup_iff.mpr
  exact distinct.sublist (filter_sublist.map _)

/-- The tasks of the rows at distinct places: one for a row among them. -/
theorem count_claimed {jobs : Table} (distinct : (jobs.map (·.jobId)).Nodup) {places : List ℕ}
    (once : places.Nodup) {place : ℕ} {row : Job} (entry : jobs[place]? = some row) (workerId : String) :
    ((places.filterMap fun place => jobs[place]?.map fun row => row.task workerId).map
        (·.jobId)).count row.jobId = if place ∈ places then 1 else 0 := by
  have bound : place < (jobs.map (·.jobId)).length := by
    simpa using (List.getElem?_eq_some_iff.mp entry).1
  have own (other : ℕ) : (jobs[other]?.map (·.jobId) == some row.jobId) = (other == place) := by
    have inj := List.getElem?_inj (j := other) bound distinct
    simp only [List.getElem?_map, entry, Option.map_some] at inj
    rw [Bool.eq_iff_iff, beq_iff_eq, beq_iff_eq, eq_comm, inj, eq_comm]
  have ids : (places.filterMap fun place => jobs[place]?.map fun row => row.task workerId).map
      (·.jobId) = places.filterMap fun place => jobs[place]?.map (·.jobId) := by
    rw [map_filterMap]
    simp only [Option.map_map]
    rfl
  rw [ids, count_filterMap, ← once.count, count]
  simp only [own]

end Tasks

/-- The attempt of a row counts its claims, and a queued row has attempts left. -/
structure Job.Counted (row : Job) (claims : ℕ) : Prop where
  claims_eq : claims = row.attempt
  bounded : row.attempt ≤ row.maxAttempts
  unspent : row.status = .queued → row.attempt < row.maxAttempts

structure Counted (st : State) : Prop where
  distinct : (st.jobs.map (·.jobId)).Nodup
  known : ∀ jobId ∈ st.tasks.map (·.jobId), jobId ∈ st.jobs.map (·.jobId)
  rows : ∀ row ∈ st.jobs, row.Counted (st.claims row.jobId)

section Invariant

variable {config : QueueConfig} {st : State} {s : Step}

/-- The new row of a creation: no task knows its job id. -/
theorem Counted.created (counted : Counted st) {request : JobRequest}
    (fresh : st.jobs.get request.jobId = none) (now : Time) :
    (request.row now).Counted (st.claims request.jobId) := by
  have absent : request.jobId ∉ st.tasks.map (·.jobId) :=
    fun member => Table.not_mem_of_get fresh (counted.known _ member)
  have unclaimed := count_eq_zero.mpr absent
  exact ⟨unclaimed, Nat.zero_le _, fun _ => request.maxAttempts_pos⟩

theorem Counted.step_other (counted : Counted st)
    (other : ∀ request locked, s ≠ .takeClaim request locked)
    (respected : respectsAttempts st s = true) : Counted (step config st s) := by
  have changes := step_changes config st s
  have tasks : (step config st s).tasks.map (·.jobId) = st.tasks.map (·.jobId) :=
    step_taskIds s other
  have claims (jobId : String) : (step config st s).claims jobId = st.claims jobId :=
    congrArg (count jobId) tasks
  constructor
  · cases changes.jobIds with
    | inl same => rw [same]; exact counted.distinct
    | inr created =>
      obtain ⟨request, now, -, fresh, ids⟩ := created
      rw [ids]
      refine nodup_append.mpr ⟨counted.distinct, nodup_singleton _, ?_⟩
      intro jobId member other single same
      rw [same, mem_singleton.mp single] at member
      exact Table.not_mem_of_get fresh member
  · intro jobId member
    rw [tasks] at member
    have before := counted.known jobId member
    cases changes.jobIds with
    | inl same => rw [same]; exact before
    | inr created =>
      obtain ⟨request, now, -, -, ids⟩ := created
      rw [ids]
      exact mem_append_left _ before
  · intro row' member
    obtain ⟨place, entry'⟩ := mem_iff_getElem?.mp member
    rw [claims]
    cases entry : st.jobs[place]? with
    | none =>
      obtain ⟨-, request, now, -, rfl, fresh⟩ := changes.new place row' entry' entry
      exact counted.created fresh now
    | some row =>
      obtain ⟨row'', entry'', change⟩ := changes.old place row entry
      rw [entry'] at entry''
      cases entry''
      have before := counted.rows row (mem_of_getElem? entry)
      rw [change.jobId]
      constructor
      · rw [change.attempt other]
        exact before.claims_eq
      · rw [change.attempt other, change.maxAttempts]
        exact before.bounded
      · intro queued
        rw [change.attempt other, change.maxAttempts]
        rcases change.queued queued with waited | unspent | ⟨waiting, now, rfl⟩
        · exact before.unspent waited
        · exact unspent
        · have got := Table.get_of_distinct counted.distinct entry
          have left : (row.status ≠ .interrupted ∧ row.status ≠ .retryWaiting) ∨
              row.attempt < row.maxAttempts := by
            simpa [respectsAttempts, got] using respected
          cases left with
          | inl refused => exact absurd waiting (not_or.mpr refused)
          | inr unspent => exact unspent

theorem Counted.takeClaim (counted : Counted st) (request : ClaimRequest) (locked : List ℕ) :
    Counted (takeClaim config st request locked) := by
  have ids : (Jobs.takeClaim config st request locked).jobs.map (·.jobId) =
      st.jobs.map (·.jobId) := by
    cases (takeClaim_changes config st request locked).jobIds with
    | inl same => exact same
    | inr created =>
      obtain ⟨_, _, impossible, _⟩ := created
      cases impossible
  unfold Jobs.takeClaim at ids ⊢
  cases pending : st.claim with
  | none => exact counted
  | some transaction =>
    simp only [pending] at ids ⊢
    have once := admitRows_nodup config transaction request locked st.jobs
    have queued : ∀ place row, place ∈ admitRows config transaction
        (selectQueued config transaction request locked st.jobs) [] → st.jobs[place]? = some row →
        row.status = .queued := fun _ _ => queued_of_admitRows
    generalize admitRows config transaction
      (selectQueued config transaction request locked st.jobs) [] = places at ids once queued
    constructor
    · rw [ids]
      exact counted.distinct
    · intro jobId member
      rw [ids]
      simp only [map_append, mem_append] at member
      cases member with
      | inl old => exact counted.known jobId old
      | inr new =>
        obtain ⟨task, claimed, rfl⟩ := mem_map.mp new
        obtain ⟨place, -, found⟩ := mem_filterMap.mp claimed
        obtain ⟨row, entry, rfl⟩ := Option.map_eq_some_iff.mp found
        exact mem_map_of_mem (mem_of_getElem? entry)
    · intro row' member
      obtain ⟨place, entry'⟩ := mem_iff_getElem?.mp member
      rw [Table.getElem?_rewrite] at entry'
      obtain ⟨row, entry, rfl⟩ := Option.map_eq_some_iff.mp entry'
      have before := counted.rows row (mem_of_getElem? entry)
      have new := count_claimed counted.distinct once entry transaction.workerId
      simp only [State.claims, map_append, count_append]
      by_cases taken : place ∈ places
      · have unspent := before.unspent (queued place row taken entry)
        simp only [taken, decide_true, if_true] at new ⊢
        constructor
        · have old := before.claims_eq
          simp only [State.claims] at old
          rw [show (row.claimed transaction.workerId request).jobId = row.jobId from rfl, old, new]
          rfl
        · exact unspent
        · intro running
          cases running
      · simp only [taken, decide_false, Bool.false_eq_true, if_false] at new ⊢
        rw [new]
        exact before

theorem Counted.step (counted : Counted st) (respected : respectsAttempts st s = true) :
    Counted (step config st s) := by
  by_cases claims : ∃ request locked, s = .takeClaim request locked
  · obtain ⟨request, locked, rfl⟩ := claims
    exact counted.takeClaim request locked
  · have other : ∀ request locked, s ≠ .takeClaim request locked := by
      intro request locked taken
      exact claims ⟨request, locked, taken⟩
    exact counted.step_other other respected

end Invariant

/-- In a run that requeues no exhausted job by hand, every job keeps to its attempts. -/
theorem attempts_bounded (config : QueueConfig) (steps : List Step)
    (respected : Admitted config respectsAttempts {} steps) :
    ∀ row ∈ (run config steps).jobs, row.attempt ≤ row.maxAttempts ∧
      (run config steps).claims row.jobId ≤ row.maxAttempts := by
  have initial : Counted {} := by
    constructor
    · exact nodup_nil
    · intro jobId member
      cases member
    · intro row member
      cases member
  have preserved : ∀ st s, Counted st → respectsAttempts st s = true →
      Counted (step config st s) := fun _ _ counted respected => counted.step respected
  have counted := respected.run_invariant preserved initial
  intro row member
  have bound := counted.rows row member
  exact ⟨bound.bounded, bound.claims_eq.trans_le bound.bounded⟩

/-- A job with one attempt, reclaimed from a dead worker. -/
def reclaimedOnce : List Step :=
  [.create {
      jobId := "job", idempotencyKey := "key", kind := "backtest", payloadChecksum := "sum"
      requestedBy := "api", maxAttempts := 1 } 0,
    .lockClaims "worker", .takeClaim { leaseUntil := 60, now := 0 } [], .reclaimStale [] 61]

/-- The due requeue fails the job for good, after its one claim. -/
theorem attempts_bounded_reclaimed :
    (run {} (reclaimedOnce ++ [.requeueDue [] 100 30 50, .lockClaims "other",
        .takeClaim { leaseUntil := 160, now := 100 } []])).claims "job" = 1 ∧
      ∀ row ∈ (run {} (reclaimedOnce ++ [.requeueDue [] 100 30 50, .lockClaims "other",
        .takeClaim { leaseUntil := 160, now := 100 } []])).jobs,
      row.attempt ≤ row.maxAttempts ∧
        (run {} (reclaimedOnce ++ [.requeueDue [] 100 30 50, .lockClaims "other",
          .takeClaim { leaseUntil := 160, now := 100 } []])).claims row.jobId ≤ row.maxAttempts :=
  ⟨by decide +kernel, attempts_bounded {} _ (by decide +kernel)⟩

/-- A requeue by hand has the job claimed a second time. -/
theorem attempts_exceeded :
    ¬∀ (config : QueueConfig) (steps : List Step), ∀ row ∈ (run config steps).jobs,
      row.attempt ≤ row.maxAttempts ∧ (run config steps).claims row.jobId ≤ row.maxAttempts := by
  intro bounded
  have job := bounded {} (reclaimedOnce ++ [.requeueInterrupted "job" 100, .lockClaims "other",
    .takeClaim { leaseUntil := 160, now := 100 } []])
  revert job
  decide +kernel

section LiveJobs

variable {config : QueueConfig} {st : State} {s : Step}

theorem RowChange.idempotencyKey {place : ℕ} {row row' : Job} (change : RowChange config st place row s row') :
    row'.idempotencyKey = row.idempotencyKey := by
  cases change with
  | requeued => unfold Job.requeued; split <;> rfl
  | _ => rfl

/-- What a job that is over leaves. -/
def Job.outcome (row : Job) : JobStatus × ℕ × Option String × Option String × Option String × Option Time :=
  (row.status, row.attempt, row.resultRef, row.errorCode, row.errorSummary, row.finishedAt)

/-- No step takes up a job that is over. -/
theorem RowChange.outcome {place : ℕ} {row row' : Job} (change : RowChange config st place row s row')
    (final : row.status ∈ [.succeeded, .failed, .cancelled]) : row'.outcome = row.outcome := by
  cases change with
  | kept | archived | unarchived | progressed | beaten => rfl
  | cancelRequested now running => simp [running] at final
  | cancelled now waiting | requeuedByHand now waiting =>
    rcases waiting with waiting | waiting <;> simp [waiting] at final
  | claimed transaction request locked pending admitted queued => simp [queued] at final
  | reclaimed locked now free stale =>
    have running : row.status = .running ∨ row.status = .cancelRequested := by
      simpa using (Bool.and_eq_true_iff.mp stale).1
    rcases running with running | running <;> simp [running] at final
  | requeued locked now backoff limit due =>
    have waiting : row.status = .interrupted ∨ row.status = .retryWaiting := by
      simpa using (Bool.and_eq_true_iff.mp (Bool.and_eq_true_iff.mp due).1).1
    rcases waiting with waiting | waiting <;> simp [waiting] at final
  | zombie summary now running => simp [running] at final
  | finished number task result now issuer finishing same unfinished =>
    rcases unfinished with unfinished | unfinished <;> simp [unfinished] at final

/-- In every run a job that has succeeded, failed or been cancelled stays so, with the result it left. -/
theorem finished_jobs_stay (config : QueueConfig) (before after : List Step) {jobId : String} {row : Job}
    (found : (run config before).jobs.get jobId = some row)
    (final : row.status ∈ [.succeeded, .failed, .cancelled]) :
    ∃ row', (run config (before ++ after)).jobs.get jobId = some row' ∧ row'.outcome = row.outcome := by
  have keeps : ∀ (st : State) (s : Step), (∃ old, st.jobs.get jobId = some old ∧ old.outcome = row.outcome) →
      ∃ row', (step config st s).jobs.get jobId = some row' ∧ row'.outcome = row.outcome := by
    rintro st s ⟨old, got, same⟩
    obtain ⟨_, row', -, got', change⟩ := (step_changes config st s).get got
    have status : old.status = row.status := congrArg (·.1) same
    exact ⟨row', got', (change.outcome (status ▸ final)).trans same⟩
  rw [run_append]
  exact @Runs.run_invariant _ _ (step config) _ _ ⟨row, found, rfl⟩ keeps after

theorem finished_jobs_stay_failed : ∃ row',
    (run {} ((reclaimedOnce ++ [.requeueDue [] 100 30 50]) ++ [.requeueInterrupted "job" 200])).jobs.get "job" =
      some row' ∧ row'.outcome = (((run {} (reclaimedOnce ++ [.requeueDue [] 100 30 50])).jobs.get "job").get
        (by decide +kernel)).outcome :=
  finished_jobs_stay {} _ _ (Option.some_get _).symm (by decide +kernel)

theorem RowChange.recreatable {place : ℕ} {row row' : Job} (change : RowChange config st place row s row')
    (dead : row.status.isRecreatable) : row'.status.isRecreatable := by
  have same : row'.status = row.status :=
    congrArg (·.1) (change.outcome (mem_cons_of_mem _ (of_decide_eq_true dead)))
  rwa [same]

/-- At most one job of a key has neither failed nor been cancelled. -/
def LiveOnce (jobs : List Job) : Prop :=
  ∀ (place place' : ℕ) (row row' : Job), jobs[place]? = some row → jobs[place']? = some row' →
    row.idempotencyKey = row'.idempotencyKey → row.status.isRecreatable = false →
    row'.status.isRecreatable = false → place = place'

theorem recreatable_of_getByIdempotencyKey {jobs : Jobs.Table} {key : String} {row : Job} (member : row ∈ jobs)
    (same : row.idempotencyKey = key) :
    ∃ first, jobs.getByIdempotencyKey key = some first ∧
      (first.status.isRecreatable → row.status.isRecreatable) := by
  let before (row other : Job) : Prop := row.status.isRecreatable < other.status.isRecreatable ∨
    row.status.isRecreatable = other.status.isRecreatable ∧ other.createdAt ≤ row.createdAt
  have total : Std.Total before := ⟨fun row other => by simp only [before]; grind⟩
  have transitive : IsTrans Job before := ⟨fun row other last => by simp only [before]; grind⟩
  let matching := jobs.filter fun row => row.idempotencyKey = key
  have sorted := pairwise_insertionSort before matching
  have placed : row ∈ matching.insertionSort before := by
    rw [(perm_insertionSort _ _).mem_iff]
    exact mem_filter.mpr ⟨member, decide_eq_true same⟩
  cases order : matching.insertionSort before with
  | nil => simp [order] at placed
  | cons first rest =>
    rw [order] at placed sorted
    refine ⟨first, congrArg head? order, fun dead => ?_⟩
    rcases mem_cons.mp placed with rfl | later
    · exact dead
    · rcases rel_of_pairwise_cons sorted later with less | ⟨equal, -⟩
      · exact absurd (dead ▸ less) (not_lt_of_ge (Bool.le_true _))
      · exact equal ▸ dead

theorem recreatable_of_created {jobs : Jobs.Table} {request : JobRequest} {now : Time}
    (created : jobs.length < (jobs.createOrGet request now).1.length) :
    ∀ row ∈ jobs, row.idempotencyKey = request.idempotencyKey → row.status.isRecreatable := by
  intro row member same
  obtain ⟨first, found, dead⟩ := recreatable_of_getByIdempotencyKey member same
  simp only [Table.createOrGet, found, Option.some_or] at created
  split_ifs at created with other recreatable
  · simp at created
  · exact dead recreatable
  · simp at created

theorem step_liveOnce (once : LiveOnce st.jobs) : LiveOnce (step config st s).jobs := by
  have changes := step_changes config st s
  have traced : ∀ (place : ℕ) (row : Job), (step config st s).jobs[place]? = some row →
      row.status.isRecreatable = false →
      (∃ old, st.jobs[place]? = some old ∧ old.idempotencyKey = row.idempotencyKey ∧
        old.status.isRecreatable = false) ∨ place = st.jobs.length ∧
          ∀ old ∈ st.jobs, old.idempotencyKey = row.idempotencyKey → old.status.isRecreatable := by
    intro place row entry live
    cases earlier : st.jobs[place]? with
    | some old =>
      obtain ⟨row', entry', change⟩ := changes.old place old earlier
      obtain rfl : row' = row := by simpa [entry] using entry'.symm
      refine .inl ⟨old, rfl, change.idempotencyKey.symm, ?_⟩
      by_contra dead
      simp [change.recreatable (by simpa using dead)] at live
    | none =>
      obtain ⟨rfl, request, now, rfl, rfl, -⟩ := changes.new place row entry earlier
      exact .inr ⟨rfl, recreatable_of_created (List.getElem?_eq_some_iff.mp entry).1⟩
  intro place place' row row' entry entry' same live live'
  rcases traced place row entry live with ⟨old, earlier, key, alive⟩ | ⟨rfl, dead⟩
  · rcases traced place' row' entry' live' with ⟨old', earlier', key', alive'⟩ | ⟨rfl, dead⟩
    · exact once place place' old old' earlier earlier' (by rw [key, key', same]) alive alive'
    · simp [dead old (mem_of_getElem? earlier) (key.trans same)] at alive
  · rcases traced place' row' entry' live' with ⟨old', earlier', key', alive'⟩ | ⟨rfl, -⟩
    · simp [dead old' (mem_of_getElem? earlier') (key'.trans same.symm)] at alive'
    · rfl

/-- In every run at most one job of an idempotency key is live. -/
theorem live_once (config : QueueConfig) (steps : List Step) : LiveOnce (run config steps).jobs :=
  @Runs.run_invariant _ _ (step config) (fun st => LiveOnce st.jobs) {} (by simp [LiveOnce])
    (fun _ _ => step_liveOnce) steps

end LiveJobs

end FinDashboard.Jobs
