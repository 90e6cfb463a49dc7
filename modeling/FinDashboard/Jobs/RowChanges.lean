import FinDashboard.Jobs.Worker
import Mathlib.Data.List.Perm.Subperm

/-!
# What a step does to a row

Every step keeps the rows of the job table at their places, and only a creation adds one, at the
end. `RowChange` lists what a step can do to a row, with the guard it does it under; the
statements about runs rest on this list.
-/

namespace FinDashboard.Jobs

open List Table

namespace Table

variable {jobs : Table} {jobId : String} {place other : ℕ} {row : Job}

theorem place_spec (found : jobs.place jobId = some place) :
    ∃ row, jobs[place]? = some row ∧ row.jobId = jobId := by
  obtain ⟨bound, same, -⟩ := List.findIdx?_eq_some_iff_getElem.mp found
  exact ⟨jobs[place], List.getElem?_eq_getElem bound, by simpa using same⟩

theorem place_of_get (got : jobs.get jobId = some row) :
    ∃ place, jobs.place jobId = some place ∧ jobs[place]? = some row :=
  Option.bind_eq_some_iff.mp got

theorem jobId_of_get (got : jobs.get jobId = some row) : row.jobId = jobId := by
  obtain ⟨place, found, entry⟩ := place_of_get got
  obtain ⟨row', entry', same⟩ := place_spec found
  rw [entry] at entry'
  cases entry'
  exact same

theorem not_mem_of_get (absent : jobs.get jobId = none) : jobId ∉ jobs.map (·.jobId) := by
  intro member
  obtain ⟨row, present, same⟩ := mem_map.mp member
  cases found : jobs.place jobId with
  | none =>
    have differs := List.findIdx?_eq_none_iff.mp found row present
    simp [same] at differs
  | some place =>
    obtain ⟨row', entry, -⟩ := place_spec found
    simp [get, found, entry] at absent

theorem get_of_distinct (distinct : (jobs.map (·.jobId)).Nodup) (entry : jobs[place]? = some row) :
    jobs.get row.jobId = some row := by
  cases got : jobs.get row.jobId with
  | none =>
    have member := mem_map_of_mem (f := (·.jobId)) (mem_of_getElem? entry)
    exact absurd member (not_mem_of_get got)
  | some row' =>
    obtain ⟨place', -, entry'⟩ := place_of_get got
    have bound : place < (jobs.map (·.jobId)).length := by
      simpa using (List.getElem?_eq_some_iff.mp entry).1
    have sameId : (jobs.map (·.jobId))[place]? = (jobs.map (·.jobId))[place']? := by
      simp [entry, entry', jobId_of_get got]
    have samePlace := (List.getElem?_inj bound distinct).mp sameId
    rw [← samePlace, entry] at entry'
    exact entry'.symm

/-- The write of a row changes the row of the job id and no other. -/
theorem getElem?_put (found : jobs.place jobId = some place) (row : Job) :
    (jobs.put jobId row)[other]? = if place = other then some row else jobs[other]? := by
  obtain ⟨old, entry, -⟩ := place_spec found
  have bound := (List.getElem?_eq_some_iff.mp entry).1
  simp only [put, found, List.getElem?_set, bound, if_true]

theorem place_put (found : jobs.place jobId = some place) (same : row.jobId = jobId) :
    (jobs.put jobId row).place jobId = some place := by
  obtain ⟨bound, -, first⟩ := List.findIdx?_eq_some_iff_getElem.mp found
  simp only [put, found]
  apply List.findIdx?_eq_some_iff_getElem.mpr
  refine ⟨by simpa using bound, by simpa using same, ?_⟩
  intro earlier before
  have differs : place ≠ earlier := by omega
  simpa [getElem_set_ne differs] using first earlier before

theorem get_put (found : jobs.place jobId = some place) (same : row.jobId = jobId) :
    (jobs.put jobId row).get jobId = some row := by
  rw [get, place_put found same, Option.bind_some, getElem?_put found, if_pos rfl]

theorem put_put (found : jobs.place jobId = some place) (same : row.jobId = jobId) (last : Job) :
    (jobs.put jobId row).put jobId last = jobs.put jobId last := by
  have again := place_put found same
  rw [put, again]
  simp only [put, found, set_set]

theorem getElem?_rewrite (due : ℕ → Job → Bool) (change : Job → Job) : (jobs.rewrite due change)[place]? =
      jobs[place]?.map fun row => if due place row then change row else row := by
  rw [rewrite, List.getElem?_mapIdx]

variable {expected : List JobStatus} {target : JobStatus} {errorCode errorSummary : Option String}
  {now : Time} {after : Table}

theorem transition_ok
    (written : jobs.transition jobId expected target errorCode errorSummary now = .ok after) :
    ∃ place row, jobs.place jobId = some place ∧ jobs[place]? = some row ∧
      (expected = [] ∨ row.status ∈ expected) ∧
      after = jobs.put jobId (row.enter target errorCode errorSummary now) := by
  cases got : jobs.get jobId with
  | none => simp [transition, got] at written
  | some row =>
    obtain ⟨place, found, entry⟩ := place_of_get got
    by_cases refused : expected ≠ [] ∧ row.status ∉ expected
    · simp only [transition, got, if_pos refused] at written
      cases written
    · simp only [transition, got, if_neg refused] at written
      cases written
      have admitted : expected = [] ∨ row.status ∈ expected := by
        by_contra neither
        exact refused (not_or.mp neither)
      exact ⟨place, row, found, entry, admitted, rfl⟩

theorem finish_of_get (got : jobs.get jobId = some row) (result : JobResult) (now : Time) :
    jobs.finish jobId result now = if row.status = .running ∨ row.status = .cancelRequested then
        .ok (jobs.put jobId (row.finished result now))
      else .error (.unexpectedStatus jobId row.status [.running, .cancelRequested]) := by
  obtain ⟨place, found, entry⟩ := place_of_get got
  have same := jobId_of_get got
  by_cases unfinished : row.status = .running ∨ row.status = .cancelRequested
  · have admitted : ¬([JobStatus.running, .cancelRequested] ≠ [] ∧
        row.status ∉ [JobStatus.running, .cancelRequested]) := by
      simp [unfinished]
    have entered : (row.enter result.status.status result.errorCode result.errorSummary
        now).jobId = jobId := same
    simp only [finish, transition, got, if_neg admitted, if_pos unfinished, get_put found entered,
      put_put found entered]
    rfl
  · have refused : [JobStatus.running, .cancelRequested] ≠ [] ∧
        row.status ∉ [JobStatus.running, .cancelRequested] := by
      simpa using unfinished
    simp only [finish, transition, got, if_pos refused, if_neg unfinished]

end Table

/-- What the step `s` can make of the row at a place. -/
inductive RowChange (config : QueueConfig) (st : State) (place : ℕ) (row : Job) : Step → Job → Prop
  | kept (s : Step) : RowChange config st place row s row
  | cancelRequested (now : Time) (running : row.status = .running) :
      RowChange config st place row (.requestCancel row.jobId now)
        (row.enter .cancelRequested none none now)
  | cancelled (now : Time) (waiting : row.status = .queued ∨ row.status = .retryWaiting) :
      RowChange config st place row (.requestCancel row.jobId now)
        (row.enter .cancelled none none now)
  | requeuedByHand (now : Time)
      (waiting : row.status = .interrupted ∨ row.status = .retryWaiting) :
      RowChange config st place row (.requeueInterrupted row.jobId now)
        (row.enter .queued none none now)
  | archived (now : Time) :
      RowChange config st place row (.archive row.jobId now)
        { row with archivedAt := some now, updatedAt := now }
  | unarchived (now : Time) :
      RowChange config st place row (.unarchive row.jobId now)
        { row with archivedAt := none, updatedAt := now }
  | claimed (transaction : ClaimTransaction) (request : ClaimRequest) (locked : List ℕ)
      (pending : st.claim = some transaction)
      (admitted : place ∈ admitRows config transaction
        (selectQueued config transaction request locked st.jobs) [])
      (queued : row.status = .queued) :
      RowChange config st place row (.takeClaim request locked)
        (row.claimed transaction.workerId request)
  | reclaimed (locked : List ℕ) (now : Time) (free : place ∉ locked) (stale : row.isStale now) :
      RowChange config st place row (.reclaimStale locked now) (row.reclaimed now)
  | requeued (locked : List ℕ) (now backoff : Time) (limit : ℕ)
      (due : row.isDue (now - max backoff 0)) :
      RowChange config st place row (.requeueDue locked now backoff limit) (row.requeued now)
  | zombie (errorSummary : String) (now : Time) (running : row.status = .running) :
      RowChange config st place row (.failZombie row.jobId errorSummary now)
        (row.enter .retryWaiting (some "zombie_no_progress") (some errorSummary) now)
  | progressed (number : ℕ) (task : Task) (done : ℤ) (total : Option ℤ) (phase : Option String)
      (now : Time) (issuer : st.tasks[number]? = some task)
      (executing : task.phase = .executing) (same : task.jobId = row.jobId)
      (wanted : row.status ≠ .cancelRequested) :
      RowChange config st place row (.progress number done total phase now)
        (row.progressed done total phase now)
  | beaten (number : ℕ) (task : Task) (leaseUntil now : Time)
      (issuer : st.tasks[number]? = some task) (same : task.jobId = row.jobId)
      (running : row.status = .running) (held : row.workerId = some task.workerId) :
      RowChange config st place row (.beat number leaseUntil now)
        (row.beaten task.workerId leaseUntil now)
  | finished (number : ℕ) (task : Task) (result : JobResult) (now : Time)
      (issuer : st.tasks[number]? = some task) (finishing : task.phase = .finishing result)
      (same : task.jobId = row.jobId)
      (unfinished : row.status = .running ∨ row.status = .cancelRequested) :
      RowChange config st place row (.finalize number now) (row.finished result now)

theorem RowChange.jobId {config : QueueConfig} {st : State} {place : ℕ} {row row' : Job}
    {s : Step} (change : RowChange config st place row s row') : row'.jobId = row.jobId := by
  cases change with
  | requeued => unfold Job.requeued; split <;> rfl
  | _ => rfl

theorem RowChange.kind {config : QueueConfig} {st : State} {place : ℕ} {row row' : Job}
    {s : Step} (change : RowChange config st place row s row') : row'.kind = row.kind := by
  cases change with
  | requeued => unfold Job.requeued; split <;> rfl
  | _ => rfl

section Selection

variable {config : QueueConfig} {transaction : ClaimTransaction} {request : ClaimRequest}
  {locked : List ℕ} {jobs : Table} {place : ℕ} {row : Job}

theorem admitRows_sublist (rows : List (Job × ℕ)) (admitted : List String) :
    (admitRows config transaction rows admitted).Sublist (rows.map (·.2)) := by
  induction rows generalizing admitted with
  | nil => exact List.Sublist.refl _
  | cons entry rest ih =>
    simp only [admitRows, map_cons]
    split
    · exact (ih admitted).cons _
    · exact (ih _).cons_cons _

theorem mem_selectQueued (selected : (row, place) ∈ selectQueued config transaction request locked jobs) :
    jobs[place]? = some row ∧ row.status = .queued := by
  have queued := (perm_insertionSort _ _).mem_iff.mp (mem_of_mem_take selected)
  obtain ⟨entry, admitted⟩ := mem_filter.mp queued
  exact ⟨mem_zipIdx_iff_getElem?.mp entry, (of_decide_eq_true admitted).1⟩

theorem queued_of_admitRows (admitted : place ∈ admitRows config transaction
      (selectQueued config transaction request locked jobs) []) (entry : jobs[place]? = some row) :
    row.status = .queued := by
  have selected := (admitRows_sublist _ _).subset admitted
  obtain ⟨⟨row', place'⟩, member, same⟩ := mem_map.mp selected
  simp only at same
  subst same
  obtain ⟨entry', queued⟩ := mem_selectQueued member
  rw [entry] at entry'
  cases entry'
  exact queued

theorem due_of_duePlaces {cutoff : Time} {limit : ℕ} (taken : place ∈ jobs.duePlaces locked cutoff limit)
    (entry : jobs[place]? = some row) : row.isDue cutoff = true := by
  obtain ⟨⟨row', place'⟩, selected, same⟩ := mem_map.mp taken
  simp only at same
  subst same
  have due := (perm_insertionSort _ _).mem_iff.mp (mem_of_mem_take selected)
  obtain ⟨entry', admitted⟩ := mem_filter.mp due
  have entry' := mem_zipIdx_iff_getElem?.mp entry'
  rw [entry] at entry'
  cases entry'
  simp only [Bool.and_eq_true] at admitted
  exact admitted.2

end Selection

/-- A table after the step `s`: the rows that were there, each as the step may change it, and
those a creation added. -/
structure Changes (config : QueueConfig) (st : State) (s : Step) (after : Table) : Prop where
  old : ∀ place row, st.jobs[place]? = some row →
    ∃ row', after[place]? = some row' ∧ RowChange config st place row s row'
  new : ∀ place row', after[place]? = some row' → st.jobs[place]? = none →
    place = st.jobs.length ∧ ∃ request now, s = .create request now ∧ row' = request.row now ∧
      st.jobs.get request.jobId = none

namespace Changes

variable {config : QueueConfig} {st : State} {s : Step} {after : Table}

theorem kept : Changes config st s st.jobs where
  old _ row entry := ⟨row, entry, .kept s⟩
  new _ _ entry absent := by simp [absent] at entry

theorem put {jobId : String} {place : ℕ} {row row' : Job} (found : st.jobs.place jobId = some place)
    (entry : st.jobs[place]? = some row) (change : RowChange config st place row s row') :
    Changes config st s (st.jobs.put jobId row') where
  old other row₁ entry₁ := by
    rw [getElem?_put found]
    by_cases same : place = other
    · subst same
      rw [entry] at entry₁
      cases entry₁
      exact ⟨row', if_pos rfl, change⟩
    · exact ⟨row₁, by rw [if_neg same, entry₁], .kept s⟩
  new other row₁ entry₁ absent := by
    rw [getElem?_put found] at entry₁
    by_cases same : place = other
    · subst same
      simp [absent] at entry
    · simp [same, absent] at entry₁

theorem rewrite {due : ℕ → Job → Bool} {change : Job → Job}
    (changes : ∀ place row, st.jobs[place]? = some row → due place row = true →
      RowChange config st place row s (change row)) :
    Changes config st s (st.jobs.rewrite due change) where
  old place row entry := by
    rw [getElem?_rewrite, entry, Option.map_some]
    by_cases taken : due place row = true
    · exact ⟨change row, by rw [if_pos taken], changes place row entry taken⟩
    · exact ⟨row, by rw [if_neg taken], .kept s⟩
  new place row' entry absent := by simp [getElem?_rewrite, absent] at entry

theorem commit {result : Except ConflictError Table}
    (changes : ∀ after, result = .ok after → Changes config st s after) :
    Changes config st s (st.commit result).jobs := by
  cases result with
  | ok after => exact changes after rfl
  | error error => exact kept

theorem transition {jobId : String} {expected : List JobStatus} {target : JobStatus}
    {errorCode errorSummary : Option String} {now : Time}
    (change : ∀ place row, st.jobs[place]? = some row → row.jobId = jobId →
      expected = [] ∨ row.status ∈ expected →
      RowChange config st place row s (row.enter target errorCode errorSummary now))
    (written : st.jobs.transition jobId expected target errorCode errorSummary now = .ok after) :
    Changes config st s after := by
  obtain ⟨place, row, found, entry, admitted, rfl⟩ := transition_ok written
  obtain ⟨row', entry', same⟩ := place_spec found
  rw [entry] at entry'
  cases entry'
  exact put found entry (change place row entry same admitted)

theorem create (request : JobRequest) (now : Time) :
    Changes config st (.create request now) (st.jobs.createOrGet request now).1 := by
  have inserted : Changes config st (.create request now) (st.jobs.insert request now).1 := by
    unfold Table.insert
    by_cases taken : (st.jobs.get request.jobId).isSome
    · rw [if_pos taken]
      exact kept
    · rw [if_neg taken]
      constructor
      · intro place row entry
        exact ⟨row, List.getElem?_append_left (List.getElem?_eq_some_iff.mp entry).1 ▸ entry, .kept _⟩
      · intro place row' entry absent
        have beyond := List.getElem?_eq_none_iff.mp absent
        simp only [List.getElem?_append_right beyond, List.getElem?_singleton] at entry
        split at entry
        · cases entry
          exact ⟨by omega, request, now, rfl, rfl, by simpa using taken⟩
        · cases entry
  unfold createOrGet
  split
  · exact inserted
  · split
    · exact kept
    · split
      · exact inserted
      · exact kept

end Changes

section Step

variable (config : QueueConfig) (st : State)

theorem requestCancel_changes (jobId : String) (now : Time) : Changes config st (.requestCancel jobId now)
      (st.commit (st.jobs.requestCancel jobId now)).jobs := by
  apply Changes.commit
  intro after written
  unfold requestCancel at written
  split at written
  · cases written
  · split at written
    · apply Changes.transition _ written
      rintro place row - rfl admitted
      exact .cancelRequested now (by simpa using admitted)
    · split at written
      · apply Changes.transition _ written
        rintro place row - rfl admitted
        exact .cancelled now (by simpa using admitted)
      · cases written

theorem archive_changes (jobId : String) (now : Time) :
    Changes config st (.archive jobId now) (st.commit (st.jobs.archive jobId now)).jobs := by
  apply Changes.commit
  intro after written
  unfold archive at written
  split at written
  · cases written
  · next row got =>
    have same := jobId_of_get got
    subst same
    obtain ⟨place, found, entry⟩ := place_of_get got
    split at written
    · cases written
    · split at written
      · cases written
        exact .put found entry (.archived now)
      · cases written
        exact .kept

theorem unarchive_changes (jobId : String) (now : Time) :
    Changes config st (.unarchive jobId now) (st.commit (st.jobs.unarchive jobId now)).jobs := by
  apply Changes.commit
  intro after written
  unfold unarchive at written
  split at written
  · cases written
  · next row got =>
    have same := jobId_of_get got
    subst same
    obtain ⟨place, found, entry⟩ := place_of_get got
    split at written
    · cases written
      exact .put found entry (.unarchived now)
    · cases written
      exact .kept

theorem takeClaim_changes (request : ClaimRequest) (locked : List ℕ) :
    Changes config st (.takeClaim request locked) (takeClaim config st request locked).jobs := by
  unfold takeClaim
  cases pending : st.claim with
  | none => exact .kept
  | some transaction =>
    apply Changes.rewrite
    intro place row entry taken
    have admitted := of_decide_eq_true taken
    exact .claimed transaction request locked pending admitted (queued_of_admitRows admitted entry)

theorem progress_changes (number : ℕ) (done : ℤ) (total : Option ℤ) (phase : Option String) (now : Time) :
    Changes config st (.progress number done total phase now)
      (step config st (.progress number done total phase now)).jobs := by
  simp only [step]
  split
  · next task issuer =>
    split
    · next executing =>
      simp only [reportProgress, updateProgress]
      split
      · exact .kept
      · next row got =>
        obtain ⟨place, found, entry⟩ := place_of_get got
        split
        · exact .kept
        · next wanted =>
          simp only [got]
          exact .put found entry (.progressed number task done total phase now issuer executing
            (jobId_of_get got).symm wanted)
    · exact .kept
  · exact .kept

theorem beat_changes (number : ℕ) (leaseUntil now : Time) :
    Changes config st (.beat number leaseUntil now)
      (step config st (.beat number leaseUntil now)).jobs := by
  simp only [step]
  split
  · next task issuer =>
    split
    · simp only [heartbeat, updateHeartbeat]
      split
      · exact .kept
      · next row got =>
        obtain ⟨place, found, entry⟩ := place_of_get got
        split
        · exact .kept
        · split
          · exact .kept
          · next held =>
            simp only [ne_eq, not_or, not_not] at held
            simp only [got]
            exact .put found entry (.beaten number task leaseUntil now issuer
              (jobId_of_get got).symm held.1 held.2)
    · exact .kept
  · exact .kept

theorem finalize_changes (number : ℕ) (now : Time) :
    Changes config st (.finalize number now) (step config st (.finalize number now)).jobs := by
  simp only [step]
  split
  · next task issuer =>
    split
    · next result finishing =>
      cases got : st.jobs.get task.jobId with
      | none => simpa only [finalize, finish, transition, got] using .kept
      | some row =>
        obtain ⟨place, found, entry⟩ := place_of_get got
        simp only [finalize, finish_of_get got]
        split
        · next after written =>
          split at written
          · next unfinished =>
            cases written
            exact .put found entry (.finished number task result now issuer finishing
              (jobId_of_get got).symm unfinished)
          · cases written
        · exact .kept
    · exact .kept
  · exact .kept

theorem step_changes (s : Step) : Changes config st s (step config st s).jobs := by
  cases s with
  | create request now => exact .create request now
  | requestCancel jobId now => exact requestCancel_changes config st jobId now
  | requeueInterrupted jobId now =>
    apply Changes.commit
    intro after written
    apply Changes.transition _ written
    rintro place row - rfl admitted
    exact .requeuedByHand now (by simpa using admitted)
  | archive jobId now => exact archive_changes config st jobId now
  | unarchive jobId now => exact unarchive_changes config st jobId now
  | lockClaims workerId =>
    simp only [step, lockClaims]
    split <;> exact .kept
  | takeClaim request locked => exact takeClaim_changes config st request locked
  | dropClaim => exact .kept
  | reclaimStale locked now =>
    apply Changes.rewrite
    intro place row entry taken
    simp only [Bool.and_eq_true, decide_eq_true_eq] at taken
    exact .reclaimed locked now taken.1 taken.2
  | requeueDue locked now backoff limit =>
    apply Changes.rewrite
    intro place row entry taken
    exact .requeued locked now backoff limit (due_of_duePlaces (of_decide_eq_true taken) entry)
  | failZombie jobId errorSummary now =>
    apply Changes.commit
    intro after written
    apply Changes.transition _ written
    rintro place row - rfl admitted
    exact .zombie errorSummary now (by simpa using admitted)
  | start number =>
    simp only [step]
    split
    · split <;> exact .kept
    · exact .kept
  | progress number done total phase now =>
    exact progress_changes config st number done total phase now
  | beat number leaseUntil now => exact beat_changes config st number leaseUntil now
  | complete number outcome =>
    simp only [step]
    split
    · split <;> exact .kept
    · exact .kept
  | finalize number now => exact finalize_changes config st number now

end Step

namespace Changes

variable {config : QueueConfig} {st : State} {s : Step} {after : Table} {jobId : String} {row : Job}

/-- A row keeps its place, and the rows before it keep their job ids. -/
theorem place {place : ℕ} (changes : Changes config st s after)
    (found : st.jobs.place jobId = some place) : after.place jobId = some place := by
  obtain ⟨bound, same, first⟩ := List.findIdx?_eq_some_iff_getElem.mp found
  obtain ⟨row', entry', change⟩ := changes.old place _ (List.getElem?_eq_getElem bound)
  obtain ⟨bound', rfl⟩ := List.getElem?_eq_some_iff.mp entry'
  apply List.findIdx?_eq_some_iff_getElem.mpr
  refine ⟨bound', by rw [change.jobId]; exact same, ?_⟩
  intro earlier before
  obtain ⟨row', entry', change⟩ := changes.old earlier _ (List.getElem?_eq_getElem (by omega))
  obtain ⟨bound', rfl⟩ := List.getElem?_eq_some_iff.mp entry'
  rw [change.jobId]
  exact first earlier before

theorem get (changes : Changes config st s after) (got : st.jobs.get jobId = some row) :
    ∃ place row', st.jobs.place jobId = some place ∧ after.get jobId = some row' ∧
      RowChange config st place row s row' := by
  obtain ⟨place, found, entry⟩ := place_of_get got
  obtain ⟨row', entry', change⟩ := changes.old place row entry
  refine ⟨place, row', found, ?_, change⟩
  rw [Table.get, changes.place found, Option.bind_some, entry']

end Changes

/-- The steps are taken one by one, each in a state that admits it. -/
def Admitted (config : QueueConfig) (admits : State → Step → Bool) : State → List Step → Prop
  | _, [] => True
  | st, s :: rest => admits st s = true ∧ Admitted config admits (step config st s) rest

instance Admitted.decidable (config : QueueConfig) (admits : State → Step → Bool) :
    ∀ st steps, Decidable (Admitted config admits st steps)
  | _, [] => isTrue trivial
  | st, s :: rest =>
      have := Admitted.decidable config admits (step config st s) rest
      inferInstanceAs (Decidable (_ ∧ _))

theorem Admitted.run_invariant {config : QueueConfig} {admits : State → Step → Bool}
    {Invariant : State → Prop}
    (preserved : ∀ st s, Invariant st → admits st s = true → Invariant (step config st s))
    {st : State} {steps : List Step} (admitted : Admitted config admits st steps)
    (initial : Invariant st) : Invariant (steps.foldl (step config) st) := by
  induction steps generalizing st with
  | nil => exact initial
  | cons s rest ih => exact ih admitted.2 (preserved st s initial admitted.1)

theorem run_append (config : QueueConfig) (before after : List Step) :
    run config (before ++ after) = after.foldl (step config) (run config before) :=
  foldl_append

end FinDashboard.Jobs
