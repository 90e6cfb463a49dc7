import FinDashboard.Jobs.RowChanges
import Mathlib.Data.List.Sigma

/-!
# The cap on the running jobs of a kind

A claim counts the running jobs first and takes rows later. In between the advisory lock keeps
out other claims, and every other step can only take jobs out of `running`, so the count stays an
upper bound until the claim commits.
-/

namespace FinDashboard.Jobs

open List

open Ledger (find mem_of_find find_cons)

section Counting

variable {α β : Type*} {p : β → Bool} {q : α → Bool}

theorem countP_le_of_getElem? {before : List α} {after : List β}
    (origin : ∀ (place : ℕ) (entry : β), after[place]? = some entry → p entry = true →
      ∃ old, before[place]? = some old ∧ q old = true) : after.countP p ≤ before.countP q := by
  induction after generalizing before with
  | nil => simp
  | cons entry rest ih =>
    cases before with
    | nil =>
      have none_counted : (entry :: rest).countP p = 0 := by
        apply countP_eq_zero.mpr
        intro counted member holds
        obtain ⟨place, at_⟩ := mem_iff_getElem?.mp member
        obtain ⟨old, absent, -⟩ := origin place counted at_ holds
        simp at absent
      omega
    | cons old olds =>
      have tail : rest.countP p ≤ olds.countP q := by
        apply ih
        intro place counted at_ holds
        exact origin (place + 1) counted (by simpa using at_) holds
      have head : p entry = true → q old = true := by
        intro holds
        obtain ⟨old', at_, counted⟩ := origin 0 entry rfl holds
        cases at_
        exact counted
      simp only [countP_cons]
      by_cases holds : p entry = true
      · simp only [holds, head holds, if_true]
        omega
      · simp only [if_neg holds]
        omega

theorem countP_le_add {r : α → Bool} {entries : List α} {p : α → Bool}
    (sorts : ∀ entry ∈ entries, p entry = true → q entry = true ∨ r entry = true) :
    entries.countP p ≤ entries.countP q + entries.countP r := by
  induction entries with
  | nil => simp
  | cons entry rest ih =>
    have tail := ih fun other member => sorts other (mem_cons_of_mem _ member)
    have head := sorts entry mem_cons_self
    simp only [countP_cons]
    by_cases holds : p entry = true
    · rcases head holds with counted | counted <;> simp only [holds, counted, if_true] <;> omega
    · simp only [if_neg holds]
      omega

end Counting

section Step

variable {config : QueueConfig} {st : State} {s : Step} {kind : String}

theorem RowChange.running {place : ℕ} {row row' : Job}
    (change : RowChange config st place row s row') (running : row'.status = .running) :
    row.status = .running ∨ ∃ request locked, s = .takeClaim request locked := by
  cases change with
  | kept => exact .inl running
  | claimed transaction request locked => exact .inr ⟨request, locked, rfl⟩
  | requeued locked now backoff limit due =>
    unfold Job.requeued at running
    split at running <;> cases running
  | finished number task result =>
    simp only [Job.finished, Job.enter] at running
    cases status : result.status <;> simp [status, ResultStatus.status] at running
  | archived => exact .inl running
  | unarchived => exact .inl running
  | progressed => exact .inl running
  | beaten => exact .inl running
  | _ => cases running

theorem Changes.running_le {after : Table} (changes : Changes config st s after)
    (other : ∀ request locked, s ≠ .takeClaim request locked) (kind : String) :
    after.running kind ≤ st.jobs.running kind := by
  apply countP_le_of_getElem?
  intro place row' entry' counted
  obtain ⟨running, same⟩ := of_decide_eq_true counted
  cases entry : st.jobs[place]? with
  | none =>
    obtain ⟨-, request, now, -, created, -⟩ := changes.new place row' entry' entry
    rw [created] at running
    cases running
  | some row =>
    obtain ⟨row'', entry'', change⟩ := changes.old place row entry
    rw [entry'] at entry''
    cases entry''
    refine ⟨row, rfl, decide_eq_true ⟨?_, change.kind ▸ same⟩⟩
    cases change.running running with
    | inl running => exact running
    | inr claim =>
      obtain ⟨request, locked, taken⟩ := claim
      exact absurd taken (other request locked)

end Step

section Claim

variable {config : QueueConfig} {jobs : Table} {kind : String}

def Table.ofKind (jobs : Table) (kind : String) (place : ℕ) : Bool :=
  jobs[place]?.any fun row => row.kind = kind

/-- The admission stops at the cap: with the count of the claim and the rows admitted before, it
gets there at most, or admits nothing. -/
theorem admitRows_count (transaction : ClaimTransaction) {cap : ℤ}
    (capped : find kind config.capped = some cap) (rows : List (Job × ℕ))
    (entries : ∀ entry ∈ rows, jobs[entry.2]? = some entry.1) (admitted : List String) :
    (transaction.count kind + admitted.count kind +
        (admitRows config transaction rows admitted).countP (jobs.ofKind kind) : ℤ) ≤
      max cap (transaction.count kind + admitted.count kind) := by
  induction rows generalizing admitted with
  | nil => simp [admitRows]
  | cons entry rest ih =>
    obtain ⟨row, place⟩ := entry
    have tail := ih fun other member => entries other (mem_cons_of_mem _ member)
    have at_ := entries (row, place) mem_cons_self
    simp only [admitRows]
    by_cases full : atLimit config transaction admitted row.kind = true
    · rw [if_pos full]
      exact tail admitted
    · rw [if_neg full]
      have next := tail (admitted ++ [row.kind])
      by_cases same : row.kind = kind
      · subst same
        have room : (transaction.count row.kind + admitted.count row.kind : ℤ) < cap := by
          simpa [atLimit, capped] using full
        have counted : jobs.ofKind row.kind place = true := by simp [Table.ofKind, at_]
        simp only [countP_cons, counted, if_true]
        simp only [count_append, count_singleton_self] at next
        push_cast at next ⊢
        omega
      · have uncounted : jobs.ofKind kind place = false := by simp [Table.ofKind, at_, same]
        simp only [countP_cons, uncounted]
        simp only [count_append, count_singleton, beq_iff_eq, same, if_false] at next
        simpa using next

theorem countP_places_le (places : List ℕ) :
    (jobs.zipIdx.countP fun entry => decide (entry.2 ∈ places) && jobs.ofKind kind entry.2) ≤
      places.countP (jobs.ofKind kind) := by
  let taken := jobs.zipIdx.filter fun entry =>
    decide (entry.2 ∈ places) && jobs.ofKind kind entry.2
  have distinct : (taken.map (·.2)).Nodup :=
    (nodup_zipIdx_map_snd jobs).sublist (filter_sublist.map _)
  have within : taken.map (·.2) ⊆ places.filter (jobs.ofKind kind) := by
    intro place member
    obtain ⟨entry, chosen, rfl⟩ := mem_map.mp member
    have holds := (mem_filter.mp chosen).2
    simp only [Bool.and_eq_true, decide_eq_true_eq] at holds
    exact mem_filter.mpr holds
  have fewer := (subperm_of_subset distinct within).length_le
  rw [countP_eq_length_filter, countP_eq_length_filter]
  simpa [taken] using fewer

/-- A claim adds no more running jobs than the rows it takes. -/
theorem running_rewrite_le (jobs : Table) (kind : String) (places : List ℕ) (change : Job → Job)
    (kept : ∀ row, (change row).kind = row.kind) :
    Table.running (jobs.rewrite (fun place _ => place ∈ places) change) kind ≤
      jobs.running kind + places.countP (jobs.ofKind kind) := by
  let wasRunning : Job × ℕ → Bool := fun entry =>
    decide (entry.1.status = .running ∧ entry.1.kind = kind)
  let isTaken : Job × ℕ → Bool := fun entry =>
    decide (entry.2 ∈ places) && jobs.ofKind kind entry.2
  have came : Table.running (jobs.rewrite (fun place _ => place ∈ places) change) kind ≤
      jobs.zipIdx.countP fun entry => wasRunning entry || isTaken entry := by
    apply countP_le_of_getElem?
    intro place row' entry' counted
    obtain ⟨running, same⟩ := of_decide_eq_true counted
    rw [Table.getElem?_rewrite] at entry'
    obtain ⟨row, entry, rfl⟩ := Option.map_eq_some_iff.mp entry'
    refine ⟨(row, place), by simp [entry], ?_⟩
    by_cases taken : place ∈ places
    · have ofKind : row.kind = kind := by simpa [taken, kept] using same
      simp [isTaken, taken, Table.ofKind, entry, ofKind]
    · simp only [taken, decide_false, Bool.false_eq_true, if_false] at running same
      simp [wasRunning, running, same]
  have sorts : (jobs.zipIdx.countP fun entry => wasRunning entry || isTaken entry) ≤
      jobs.zipIdx.countP wasRunning + jobs.zipIdx.countP isTaken := by
    apply countP_le_add
    intro entry _ holds
    simpa using holds
  have before : jobs.zipIdx.countP wasRunning = jobs.running kind := by
    rw [Table.running]
    conv_rhs => rw [← zipIdx_map_fst 0 jobs, countP_map]
    rfl
  have fewer : jobs.zipIdx.countP isTaken ≤ places.countP (jobs.ofKind kind) :=
    countP_places_le places
  omega

end Claim

/-- The running jobs of each kind keep to its cap, and to the count of a claim under way. -/
structure WithinCaps (config : QueueConfig) (st : State) : Prop where
  capped : ∀ kind cap, find kind config.capped = some cap → (st.jobs.running kind : ℤ) ≤ cap
  counted : ∀ transaction, st.claim = some transaction → ∀ kind cap,
    find kind config.capped = some cap → st.jobs.running kind ≤ transaction.count kind

section Invariant

variable {config : QueueConfig} {st : State}

theorem find_capped {kind : String} {cap : ℤ} (entry : find kind config.kindConcurrency = some cap)
    (positive : 0 < cap) : find kind config.capped = some cap := by
  unfold QueueConfig.capped
  generalize config.kindConcurrency = entries at entry
  induction entries with
  | nil => cases entry
  | cons first rest ih =>
    rw [find_cons] at entry
    by_cases same : first.1 = kind
    · rw [if_pos same, Option.some.injEq] at entry
      subst entry
      simp [positive, same]
    · rw [if_neg same] at entry
      have later := ih entry
      by_cases limited : 0 < first.2
      · simpa [limited, same] using later
      · simpa [limited] using later

theorem find_runningCountsByKind {jobs : Table} {kinds : List String} {kind : String}
    (counted : kind ∈ kinds) : find kind (runningCountsByKind jobs kinds) = some (jobs.running kind) := by
  induction kinds with
  | nil => cases counted
  | cons first rest ih =>
    simp only [runningCountsByKind, map_cons, find_cons]
    by_cases same : first = kind
    · rw [if_pos same, same]
    · rw [if_neg same]
      exact ih ((mem_cons.mp counted).resolve_left (Ne.symm same))

theorem step_claim {s : Step} (other : ∀ request locked, s ≠ .takeClaim request locked)
    (unlocked : ∀ workerId, s ≠ .lockClaims workerId) {transaction : ClaimTransaction}
    (pending : (step config st s).claim = some transaction) : st.claim = some transaction := by
  have commit (result : Except ConflictError Table) : (st.commit result).claim = st.claim := by
    cases result <;> rfl
  cases s with
  | lockClaims workerId => exact absurd rfl (unlocked workerId)
  | takeClaim request locked => exact absurd rfl (other request locked)
  | dropClaim => cases pending
  | requestCancel | requeueInterrupted | archive | unarchive | failZombie =>
    exact commit _ ▸ pending
  | start | progress | beat | complete | finalize =>
    simp only [step] at pending
    repeat' split at pending
    all_goals exact pending
  | _ => exact pending

theorem WithinCaps.lockClaims (within : WithinCaps config st) (workerId : String) :
    WithinCaps config (lockClaims config st workerId) := by
  unfold Jobs.lockClaims
  cases pending : st.claim with
  | some transaction => exact within
  | none =>
    refine ⟨within.capped, ?_⟩
    intro transaction opened kind cap capped
    cases opened
    have listed : kind ∈ config.capped.map (·.1) :=
      mem_map.mpr ⟨(kind, cap), mem_of_find capped, rfl⟩
    simp [ClaimTransaction.count, find_runningCountsByKind listed]

theorem WithinCaps.takeClaim (within : WithinCaps config st) (request : ClaimRequest)
    (locked : List ℕ) : WithinCaps config (takeClaim config st request locked) := by
  unfold Jobs.takeClaim
  cases pending : st.claim with
  | none => exact within
  | some transaction =>
    refine ⟨?_, nofun⟩
    intro kind cap capped
    have entries : ∀ entry ∈ selectQueued config transaction request locked st.jobs,
        st.jobs[entry.2]? = some entry.1 :=
      fun _ member => (mem_selectQueued member).1
    have admits := admitRows_count transaction capped _ entries []
    have grows := running_rewrite_le st.jobs kind
      (admitRows config transaction (selectQueued config transaction request locked st.jobs) [])
      (fun row => row.claimed transaction.workerId request) (fun _ => rfl)
    have counted := within.counted transaction pending kind cap capped
    have capped := within.capped kind cap capped
    simp only [count_nil] at admits ⊢
    omega

theorem WithinCaps.step (within : WithinCaps config st) (s : Step) :
    WithinCaps config (step config st s) := by
  by_cases claims : ∃ request locked, s = .takeClaim request locked
  · obtain ⟨request, locked, rfl⟩ := claims
    exact within.takeClaim request locked
  · by_cases locks : ∃ workerId, s = .lockClaims workerId
    · obtain ⟨workerId, rfl⟩ := locks
      exact within.lockClaims workerId
    · have other : ∀ request locked, s ≠ .takeClaim request locked := by
        intro request locked taken
        exact claims ⟨request, locked, taken⟩
      have unlocked : ∀ workerId, s ≠ .lockClaims workerId := by
        intro workerId opened
        exact locks ⟨workerId, opened⟩
      have fewer := (step_changes config st s).running_le other
      constructor
      · intro kind cap capped
        have before := within.capped kind cap capped
        have fewer := fewer kind
        omega
      · intro transaction pending kind cap capped
        have before := within.counted transaction (step_claim other unlocked pending) kind cap capped
        have fewer := fewer kind
        omega

theorem run_withinCaps (config : QueueConfig) (steps : List Step) :
    WithinCaps config (run config steps) := by
  have initial : WithinCaps config {} := by
    constructor
    · intro kind cap capped
      have positive := of_decide_eq_true (mem_filter.mp (mem_of_find capped)).2
      simpa [Table.running] using positive.le
    · intro transaction pending
      cases pending
  unfold run
  generalize ({} : State) = st at initial
  induction steps generalizing st with
  | nil => exact initial
  | cons s rest ih => exact ih _ (initial.step s)

end Invariant

/-- In every run the running jobs of a kind with a positive cap keep to the cap. -/
theorem running_within_cap (config : QueueConfig) (steps : List Step) (kind : String) (cap : ℤ)
    (entry : find kind config.kindConcurrency = some cap) (positive : 0 < cap) :
    ((run config steps).jobs.running kind : ℤ) ≤ cap :=
  (run_withinCaps config steps).capped kind cap (find_capped entry positive)

/-- Two jobs of a kind with one place: the second claim finds the place taken. -/
theorem running_within_cap_one :
    ((run { kindConcurrency := [("grid", 1)], executors := ["grid"] }
        [.create {
            jobId := "first", idempotencyKey := "first", kind := "grid", payloadChecksum := "sum"
            requestedBy := "api" } 0,
          .create {
            jobId := "second", idempotencyKey := "second", kind := "grid", payloadChecksum := "sum"
            requestedBy := "api" } 1,
          .lockClaims "worker", .takeClaim { limit := 2, leaseUntil := 60, now := 2 } [],
          .lockClaims "other", .start 0, .takeClaim { limit := 2, leaseUntil := 60, now := 3 } []]
      ).jobs.running "grid" : ℤ) ≤ 1 :=
  running_within_cap _ _ "grid" 1 rfl (by decide)

end FinDashboard.Jobs
