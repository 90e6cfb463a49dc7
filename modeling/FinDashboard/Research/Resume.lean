import FinDashboard.Research.DecisionLedger
import FinDashboard.Research.RunLog

/-!
# A resumed run is the run without the stop

Wherever executions of a run are stopped, the store holds a front of the log of the run. Executing
the run again on such a store appends the rest of the log and saves its checksum, whether the
adapter takes the completed decisions over or decides anew.
-/

namespace FinDashboard.Research

open FinDashboard.Runs List Recording.Triple

section Script

variable (sha256 : List Char → String) (manifest : ResearchRunManifest)
  (expectedResultChecksum : Option String)

/-- What a run leaves when it is not stopped: its artifacts and the checksum it saves. -/
structure RunScript where
  log : List ResearchArtifact
  saved : Option String

def reportScript (rows : List ResearchArtifact) (artifact : ResearchArtifact)
    (accept : String → Bool) : RunScript where
  log := rows ++ [artifact]
  saved :=
    let checksum := resultChecksum sha256 (rows ++ [artifact])
    if accept checksum then some checksum else none

def errorScript (behaviour : Behaviour) (records : List DecisionLedgerRecord)
    (rows : List ResearchArtifact) : RunError → RunScript
  | .constraintViolation =>
    match partialReport sha256 manifest behaviour records with
    | none => { log := rows, saved := none }
    | some artifact => reportScript sha256 rows artifact fun _ => true
  | _ => { log := rows, saved := none }

def finishScript (behaviour : Behaviour) (records : List DecisionLedgerRecord)
    (rows : List ResearchArtifact) : RunScript :=
  match finalReport sha256 manifest behaviour records with
  | .error error => errorScript sha256 manifest behaviour records rows error
  | .ok artifact =>
    reportScript sha256 rows artifact fun checksum => expectedResultChecksum.all (· = checksum)

def outcomeScript (behaviour : Behaviour) (outcome : LoopOutcome) : RunScript :=
  match outcome.error with
  | none => finishScript sha256 manifest expectedResultChecksum behaviour outcome.records outcome.rows
  | some error => errorScript sha256 manifest behaviour outcome.records outcome.rows error

def decisionLoop (behaviour : Behaviour) : LoopOutcome :=
  loopOutcome sha256 manifest behaviour.ending 0 { positionQuantities := [], seenFillIds := [] }
    behaviour.decisions

def runScript (adapter : Adapter) : RunScript :=
  match adapter.validateManifest with
  | some error => errorScript sha256 manifest adapter.fresh [] [] error
  | none => outcomeScript sha256 manifest expectedResultChecksum adapter.fresh
      (decisionLoop sha256 manifest adapter.fresh)

end Script

/-- The store holds a front of the log, from a place on, and no other checksum than the final one. -/
structure Front (script : RunScript) (place : ℕ) (store : RunStore) : Prop where
  artifacts : ∃ count, place ≤ count ∧ store.artifacts = script.log.take count
  checksum : ∀ checksum ∈ store.resultChecksum, script.saved = some checksum

/-- The store holds what the run leaves. -/
structure Finished (script : RunScript) (store : RunStore) : Prop where
  artifacts : store.artifacts = script.log
  checksum : store.resultChecksum = script.saved

section Fronts

variable {sha256 : List Char → String} {manifest : ResearchRunManifest}
  {expectedResultChecksum : Option String} {script : RunScript} {store : RunStore}
  {place less : ℕ}

theorem Front.mono (front : Front script place store) (smaller : less ≤ place) :
    Front script less store := by
  obtain ⟨count, enough, held⟩ := front.artifacts
  exact ⟨⟨count, smaller.trans enough, held⟩, front.checksum⟩

theorem Front.withStatus (front : Front script place store) (status : ResearchRunStatus) :
    Front script place { store with status := status } := ⟨front.artifacts, front.checksum⟩

theorem Finished.withStatus (finished : Finished script store) (status : ResearchRunStatus) :
    Finished script { store with status := status } := ⟨finished.artifacts, finished.checksum⟩

theorem Finished.front (finished : Finished script store) : Front script 0 store := by
  refine ⟨⟨script.log.length, Nat.zero_le _, ?_⟩, ?_⟩
  · rw [take_length, finished.artifacts]
  · intro checksum saved
    rw [← finished.checksum]
    exact saved

theorem Front.log_eq (front : Front script script.log.length store) : store.artifacts = script.log := by
  obtain ⟨count, enough, held⟩ := front.artifacts
  rw [held, take_of_length_le enough]

theorem Front.finished (front : Front script script.log.length store)
    (unsaved : script.saved = none) : Finished script store := by
  refine ⟨front.log_eq, ?_⟩
  rw [unsaved]
  cases found : store.resultChecksum with
  | none => rfl
  | some checksum =>
    have saved := front.checksum checksum found
    rw [unsaved] at saved
    cases saved

/-- A log whose rows can be appended again, in order. -/
structure Replayable (log : List ResearchArtifact) : Prop where
  appendable : Appendable (·.artifactId) (·.sequence) (fun old new => old.checksum = new.checksum)
    log
  sorted : ∀ count, (log.take count).insertionSort
    (fun first second => first.sequence ≤ second.sequence) = log.take count

theorem appendArtifact_front {front rest : List ResearchArtifact} {artifact : ResearchArtifact}
    (replayable : Replayable script.log) (split : script.log = front ++ artifact :: rest)
    (held : Front script front.length store) :
    ∃ next, store.appendArtifact artifact = some next ∧ Front script 0 next ∧
      Front script (front.length + 1) next := by
  obtain ⟨count, enough, artifacts⟩ := held.artifacts
  have appended := (split ▸ replayable.appendable).appendRow_take enough
  rw [← split, ← artifacts] at appended
  have reached : Front script (front.length + 1)
      { store with artifacts := script.log.take (max count (front.length + 1)) } :=
    ⟨⟨_, Nat.le_max_right _ _, rfl⟩, held.checksum⟩
  refine ⟨_, ?_, reached.mono (Nat.zero_le _), reached⟩
  rw [RunStore.appendArtifact, appended, Option.map_some]

theorem appendArtifacts_triple {front rows rest : List ResearchArtifact}
    (replayable : Replayable script.log) (split : script.log = front ++ (rows ++ rest)) :
    Recording.Triple (Front script front.length) (appendArtifacts rows)
      (fun done store => done = true ∧ Front script (front ++ rows).length store) (Front script 0) := by
  induction rows generalizing front with
  | nil =>
    apply Recording.Triple.pure
    intro store held
    rw [append_nil]
    exact ⟨rfl, held⟩
  | cons artifact rows ih =>
    have shift : script.log = front ++ [artifact] ++ (rows ++ rest) := by
      rw [split]
      simp
    have length : (front ++ [artifact]).length = front.length + 1 := length_append
    have later := ih shift
    rw [length, append_assoc] at later
    have first : Recording.Triple (Front script front.length)
        (Recording.tryWrite (RunStore.appendArtifact artifact))
        (fun done store => done = true ∧ Front script (front.length + 1) store)
        (Front script 0) := by
      apply tryWrite
      intro store held
      obtain ⟨next, changed, now, reached⟩ := appendArtifact_front replayable split held
      exact ⟨next, changed, now, rfl, reached⟩
    unfold appendArtifacts
    apply first.bind
    intro done
    apply Recording.Triple.assume
    rintro rfl
    exact later

theorem safeTerminalTransition_triple {during : RunStore → Prop} (target : ResearchRunStatus)
    (holds : ∀ store, Finished script store → during store) :
    Recording.Triple (Finished script) (safeTerminalTransition target)
      (fun _ => Finished script) during := by
  have present : Recording.Triple (Finished script) Recording.read
      (fun _ => Finished script) during :=
    Recording.Triple.read fun _ finished => finished
  unfold safeTerminalTransition
  apply present.bind
  intro store
  split
  · apply write
    intro store finished
    have moved := finished.withStatus target
    exact ⟨holds _ moved, moved⟩
  · exact Recording.Triple.pure fun _ finished => finished

variable {rows : List ResearchArtifact}

theorem persistReport_triple {artifact : ResearchArtifact} {accept : String → Bool}
    (replayable : Replayable script.log) (report : script = reportScript sha256 rows artifact accept) :
    Recording.Triple (Front script rows.length) (persistReport sha256 artifact accept) (fun saved store =>
        saved = (if accept (resultChecksum sha256 script.log) then some true else none) ∧
          Finished script store) (Front script 0) := by
  have split : script.log = rows ++ artifact :: [] := by rw [report]; rfl
  have length : script.log.length = rows.length + 1 := by rw [split]; simp
  have saved : script.saved = if accept (resultChecksum sha256 script.log)
      then some (resultChecksum sha256 script.log) else none := by rw [report]; rfl
  have appended : Recording.Triple (Front script rows.length)
      (Recording.tryWrite (RunStore.appendArtifact artifact))
      (fun done store => done = true ∧ Front script script.log.length store)
      (Front script 0) := by
    apply tryWrite
    intro store held
    obtain ⟨next, changed, now, reached⟩ := appendArtifact_front replayable split held
    exact ⟨next, changed, now, rfl, length ▸ reached⟩
  have present : Recording.Triple (Front script script.log.length) Recording.read
      (fun seen store => seen.artifacts = script.log ∧ Front script script.log.length store)
      (Front script 0) :=
    Recording.Triple.read fun _ held => ⟨held.log_eq, held⟩
  unfold persistReport
  apply appended.bind
  intro done
  apply Recording.Triple.assume
  rintro rfl
  apply present.bind
  intro seen
  apply Recording.Triple.assume
  intro whole
  simp only [whole]
  cases accepted : accept (resultChecksum sha256 script.log) with
  | false =>
    rw [accepted, if_neg (by decide)] at saved
    apply Recording.Triple.pure
    intro store held
    exact ⟨rfl, held.finished saved⟩
  | true =>
    rw [accepted, if_pos rfl] at saved
    have stored : Recording.Triple (Front script script.log.length)
        (Recording.tryWrite (RunStore.saveResult (resultChecksum sha256 script.log)))
        (fun done store => done = true ∧ Finished script store) (Front script 0) := by
      apply tryWrite
      intro store held
      have same : store.resultChecksum.any (· ≠ resultChecksum sha256 script.log) = false := by
        cases found : store.resultChecksum with
        | none => rfl
        | some checksum =>
          have final := held.checksum checksum found
          rw [saved] at final
          simp [Option.some.inj final]
      have finished : Finished script
          { store with resultChecksum := some (resultChecksum sha256 script.log) } :=
        ⟨held.log_eq, saved.symm⟩
      refine ⟨_, ?_, finished.front, rfl, finished⟩
      rw [RunStore.saveResult, same]
      rfl
    apply stored.bind
    intro done
    apply Recording.Triple.assume
    rintro rfl
    exact Recording.Triple.pure fun _ finished => ⟨rfl, finished⟩

variable {behaviour : Behaviour}

theorem handleError_triple {records : List DecisionLedgerRecord}
    (error : RunError) (replayable : Replayable script.log)
    (ends : script = errorScript sha256 manifest behaviour records rows error) :
    Recording.Triple (Front script rows.length)
      (handleError sha256 manifest behaviour records error) (fun _ => Finished script)
      (Front script 0) := by
  have bare : script = { log := rows, saved := none } →
      ∀ store, Front script rows.length store → Finished script store := by
    rintro rfl store held
    exact held.finished rfl
  have terminal := fun target => @safeTerminalTransition_triple script (Front script 0) target
    fun _ finished => finished.front
  cases error with
  | unsupported => exact (terminal .rejected).strengthen (bare ends)
  | interrupted => exact (terminal .interrupted).strengthen (bare ends)
  | other => exact (terminal .failed).strengthen (bare ends)
  | constraintViolation =>
    unfold handleError
    unfold errorScript at ends
    cases report : partialReport sha256 manifest behaviour records with
    | none =>
      rw [report] at ends
      exact (terminal .rejected).strengthen (bare ends)
    | some artifact =>
      rw [report] at ends
      have persisted := persistReport_triple replayable ends
      apply persisted.bind
      intro saved
      apply Recording.Triple.assume
      intro _
      exact terminal .rejected

theorem finish_triple {records : List DecisionLedgerRecord} (replayable : Replayable script.log)
    (ends : script = finishScript sha256 manifest expectedResultChecksum behaviour records rows) :
    Recording.Triple (Front script rows.length)
      (finish sha256 manifest expectedResultChecksum behaviour records) (fun _ => Finished script)
      (Front script 0) := by
  unfold finish
  unfold finishScript at ends
  cases report : finalReport sha256 manifest behaviour records with
  | error error =>
    rw [report] at ends
    exact handleError_triple error replayable ends
  | ok artifact =>
    rw [report] at ends
    have persisted := persistReport_triple replayable ends
    apply persisted.bind
    intro saved
    apply Recording.Triple.assume
    intro result
    split at result
    · subst result
      apply write
      intro store finished
      have moved := finished.withStatus .completed
      exact ⟨moved.front, moved⟩
    · subst result
      exact safeTerminalTransition_triple .failed fun _ finished => finished.front

theorem runDecisions_triple {ending : Option RunError} {yields : List Yielded} {index : ℕ}
    {state : ValidatorState} {records : List DecisionLedgerRecord}
    {front rest : List ResearchArtifact} (replayable : Replayable script.log) (split : script.log =
      front ++ ((loopOutcome sha256 manifest ending index state yields).rows ++ rest)) :
    Recording.Triple (Front script front.length)
      (runDecisions sha256 manifest ending index state records yields) (fun ended store =>
        ended = (records ++ (loopOutcome sha256 manifest ending index state yields).records,
          (loopOutcome sha256 manifest ending index state yields).error) ∧ Front script
          (front ++ (loopOutcome sha256 manifest ending index state yields).rows).length store)
      (Front script 0) := by
  induction yields generalizing index state records front with
  | nil =>
    apply Recording.Triple.pure
    intro store held
    simp only [loopOutcome, LoopOutcome.records, map_nil, append_nil, true_and]
    exact held
  | cons yielded yields ih =>
    unfold runDecisions
    cases prepared : prepareDecision sha256 manifest index state yielded with
    | error error =>
      rw [loopOutcome_cons_of_error prepared]
      apply Recording.Triple.pure
      intro store held
      simp only [LoopOutcome.records, map_nil, append_nil, true_and]
      exact held
    | ok result =>
      obtain ⟨decision, next, artifacts⟩ := result
      rw [loopOutcome_cons_of_ok prepared] at split ⊢
      simp only at split ⊢
      rw [append_assoc] at split
      have written := appendArtifacts_triple replayable split
      rw [← append_assoc] at split
      have later := @ih (index + 1) next (records ++ [decisionLedgerRecord decision]) _ split
      apply written.bind
      intro done
      apply Recording.Triple.assume
      rintro rfl
      apply later.weaken
      rintro ended store ⟨rfl, held⟩
      rw [append_assoc] at held
      refine ⟨?_, held⟩
      simp only [LoopOutcome.records, map_cons, append_assoc, singleton_append]

theorem executeBehaviour_triple (replayable : Replayable script.log)
    (ends : script = outcomeScript sha256 manifest expectedResultChecksum behaviour
      (decisionLoop sha256 manifest behaviour)) {rest : List ResearchArtifact}
    (split : script.log = (decisionLoop sha256 manifest behaviour).rows ++ rest) :
    Recording.Triple (Front script 0)
      (executeBehaviour sha256 manifest expectedResultChecksum behaviour) (fun _ => Finished script)
      (Front script 0) := by
  have decided := @runDecisions_triple sha256 manifest script behaviour.ending behaviour.decisions 0
    { positionQuantities := [], seenFillIds := [] } [] [] rest replayable split
  unfold executeBehaviour
  apply decided.bind
  intro ended
  apply Recording.Triple.assume
  rintro rfl
  unfold outcomeScript decisionLoop at ends
  cases how : (loopOutcome sha256 manifest behaviour.ending 0
      { positionQuantities := [], seenFillIds := [] } behaviour.decisions).error with
  | none =>
    rw [how] at ends
    exact finish_triple replayable ends
  | some error =>
    rw [how] at ends
    exact handleError_triple error replayable ends

end Fronts

/-- After it accepts the decisions completed so far, an adapter yields them as they are, goes on
with the next one, and reports as if it had decided them. -/
def ResumesFaithfully (manifest : ResearchRunManifest) (adapter : Adapter) : Prop :=
  ∀ completed behaviour,
    completed = (adapter.fresh.decisions.take completed.length).mapIdx (fun place yielded =>
      { yielded.decision with decisionId := expectedDecisionId manifest.runId place }) →
    adapter.resumeFrom completed = some behaviour →
    behaviour =
      { adapter.fresh with
        decisions := completed.map (fun decision => { decision := decision, fragments := [] }) ++
          adapter.fresh.decisions.drop completed.length }

section Log

variable {sha256 : List Char → String} {manifest : ResearchRunManifest}
  {expectedResultChecksum : Option String} {behaviour : Behaviour} {adapter : Adapter}
  {records : List DecisionLedgerRecord} {rows : List ResearchArtifact}
  {artifact : ResearchArtifact}

/-- What tells the artifact of a report from those of decisions. -/
structure IsReport (manifest : ResearchRunManifest) (decisionCount : ℕ)
    (artifact : ResearchArtifact) : Prop where
  id : artifact.artifactId = manifest.runId ++ ":A:report"
  unnamed : artifact.decisionId = none
  last : artifact.sequence = decisionCount * decisionStages.length

theorem isReport_of_reportArtifact {decisionCount : ℕ} {report : ResearchRunReport}
    {marker : Option (List (String × Text.Json))}
    (made : reportArtifact sha256 manifest decisionCount report marker = some artifact) :
    IsReport manifest decisionCount artifact := by
  unfold reportArtifact at made
  obtain ⟨checksum, -, made⟩ := Option.bind_eq_some_iff.mp made
  obtain ⟨text, -, made⟩ := Option.bind_eq_some_iff.mp made
  cases made
  exact ⟨rfl, rfl, rfl⟩

theorem isReport_of_partialReport
    (made : partialReport sha256 manifest behaviour records = some artifact) :
    IsReport manifest records.length artifact := by
  unfold partialReport at made
  cases evidence : behaviour.partialEvidence records.length with
  | none =>
    rw [evidence] at made
    cases made
  | some marker =>
    simp only [evidence] at made
    cases built : behaviour.buildReport records with
    | error error =>
      rw [built] at made
      cases made
    | ok report =>
      simp only [built] at made
      split_ifs at made
      exact isReport_of_reportArtifact made

theorem isReport_of_finalReport (made : finalReport sha256 manifest behaviour records = .ok artifact) :
    IsReport manifest records.length artifact := by
  unfold finalReport at made
  cases built : behaviour.buildReport records with
  | error error =>
    rw [built] at made
    cases made
  | ok report =>
    simp only [built] at made
    split_ifs at made
    cases written : reportArtifact sha256 manifest records.length report none with
    | none =>
      rw [written] at made
      cases made
    | some other =>
      rw [written] at made
      cases made
      exact isReport_of_reportArtifact written

/-- After its rows a log has at most a report. -/
def EndsWithReport (manifest : ResearchRunManifest) (decisionCount : ℕ)
    (rows log : List ResearchArtifact) : Prop :=
  ∃ report : Option ResearchArtifact,
    log = rows ++ report.toList ∧ ∀ row ∈ report, IsReport manifest decisionCount row

theorem errorScript_log (error : RunError) : EndsWithReport manifest records.length rows
    (errorScript sha256 manifest behaviour records rows error).log := by
  have bare : EndsWithReport manifest records.length rows rows :=
    ⟨none, (append_nil rows).symm, fun row none => absurd none (Option.not_mem_none row)⟩
  cases error with
  | unsupported => exact bare
  | interrupted => exact bare
  | other => exact bare
  | constraintViolation =>
    unfold errorScript
    cases report : partialReport sha256 manifest behaviour records with
    | none => exact bare
    | some artifact =>
      refine ⟨some artifact, rfl, ?_⟩
      rintro row ⟨⟩
      exact isReport_of_partialReport report

theorem outcomeScript_log (outcome : LoopOutcome) :
    EndsWithReport manifest outcome.decisions.length outcome.rows
      (outcomeScript sha256 manifest expectedResultChecksum behaviour outcome).log := by
  have length : outcome.records.length = outcome.decisions.length := length_map _
  rw [← length]
  unfold outcomeScript
  cases outcome.error with
  | some error => exact errorScript_log error
  | none =>
    simp only [finishScript]
    cases report : finalReport sha256 manifest behaviour outcome.records with
    | error error => exact errorScript_log error
    | ok artifact =>
      refine ⟨some artifact, rfl, ?_⟩
      rintro row ⟨⟩
      exact isReport_of_finalReport report

variable {report : Option ResearchArtifact}

theorem replayable_of_isLog {decisions : List DecisionBundle}
    (log : IsLog sha256 manifest.runId decisions rows report) :
    Replayable (rows ++ report.toList) := ⟨log.appendable, log.take_sorted⟩

theorem isLog_of_endsWithReport {decisions : List DecisionBundle}
    (run : RunRows sha256 manifest.runId 0 decisions rows)
    (last : ∀ row ∈ report, IsReport manifest decisions.length row) :
    IsLog sha256 manifest.runId decisions rows report :=
  ⟨run, fun row member => ⟨(last row member).id, (last row member).unnamed, (last row member).last⟩⟩

theorem offerResume_loop
    (canonical : ∀ y ∈ adapter.fresh.decisions, CanonicalYielded y)
    (faithful : ResumesFaithfully manifest adapter)
    (log : IsLog sha256 manifest.runId (decisionLoop sha256 manifest adapter.fresh).decisions rows
      report) (count : ℕ) :
    ∃ decisions, offerResume adapter (completedPrefix sha256 manifest.runId
        ((rows ++ report.toList).take count)) = { adapter.fresh with decisions := decisions } ∧
      decisionLoop sha256 manifest { adapter.fresh with decisions := decisions } =
        decisionLoop sha256 manifest adapter.fresh := by
  have unnamed : ∀ row ∈ report.toList, row.decisionId = none := fun row member =>
    (log.report_id row (Option.mem_toList.mp member)).2.1
  obtain ⟨completed, read⟩ := log.run.completedFrom_take unnamed count
  have persisted : ∀ less, less ≤ (decisionLoop sha256 manifest adapter.fresh).decisions.length →
      (decisionLoop sha256 manifest adapter.fresh).decisions.take less =
        (adapter.fresh.decisions.take less).mapIdx fun place yielded =>
          { yielded.decision with decisionId := expectedDecisionId manifest.runId place } := by
    intro less bound
    have first := @loopOutcome_decisions sha256 manifest adapter.fresh.ending 0
      { positionQuantities := [], seenFillIds := [] } adapter.fresh.decisions less bound
    simp only [Nat.zero_add] at first
    exact first
  unfold completedPrefix
  rw [read]
  generalize taken : (decisionLoop sha256 manifest adapter.fresh).decisions.take completed =
    offered
  have bound : offered.length ≤ (decisionLoop sha256 manifest adapter.fresh).decisions.length := by
    rw [← taken, length_take]
    exact Nat.min_le_right _ _
  have again : offered =
      (decisionLoop sha256 manifest adapter.fresh).decisions.take offered.length := by
    rw [← taken, length_take, take_eq_take_iff]
    omega
  have fresh : ∃ decisions, adapter.fresh = { adapter.fresh with decisions := decisions } ∧
      decisionLoop sha256 manifest { adapter.fresh with decisions := decisions } =
        decisionLoop sha256 manifest adapter.fresh := ⟨_, rfl, rfl⟩
  unfold offerResume
  split
  · exact fresh
  · cases accepted : adapter.resumeFrom offered with
    | none => exact fresh
    | some resumed =>
      have first := persisted offered.length bound
      rw [← again] at first
      refine ⟨_, faithful offered resumed first accepted, ?_⟩
      have same := loopOutcome_resumed canonical bound
      rw [← decisionLoop, ← again] at same
      exact same

end Log

def RunStore.created : RunStore := { status := .queued, artifacts := [], resultChecksum := none }

section Stops

variable (sha256 : List Char → String) (manifest : ResearchRunManifest) (adapter : Adapter)
  (expectedResultChecksum : Option String)

/-- The stores that executions of a run lead to. An execution is stopped after any of its writes; a
run that is left running is marked as interrupted or failed before it is executed again. -/
inductive Reached : RunStore → Prop
  | created : Reached .created
  | stopped {store left : RunStore} {status : ResearchRunStatus} : Reached store →
      left ∈ (execute sha256 manifest adapter expectedResultChecksum store).writes →
      left.status = .running → status ∈ [.interrupted, .failed] →
      Reached { left with status := status }
  | ended {store : RunStore} : Reached store →
      Reached (execute sha256 manifest adapter expectedResultChecksum store).store

variable {sha256 manifest adapter expectedResultChecksum}

theorem execute_triple (canonical : ∀ y ∈ adapter.fresh.decisions, CanonicalYielded y)
    (faithful : ResumesFaithfully manifest adapter) : Recording.Triple
      (fun store => store.status ∈ [.queued, .interrupted, .failed] ∧
        Front (runScript sha256 manifest expectedResultChecksum adapter) 0 store)
      (execute sha256 manifest adapter expectedResultChecksum)
      (fun _ => Finished (runScript sha256 manifest expectedResultChecksum adapter))
      (Front (runScript sha256 manifest expectedResultChecksum adapter) 0) := by
  generalize whole : runScript sha256 manifest expectedResultChecksum adapter = script
  have present : Recording.Triple
      (fun store => store.status ∈ [.queued, .interrupted, .failed] ∧ Front script 0 store)
      Recording.read
      (fun seen store => seen.status ∈ [.queued, .interrupted, .failed] ∧ Front script 0 store)
      (Front script 0) := Recording.Triple.read fun _ held => held
  unfold execute
  apply present.bind
  intro seen
  apply Recording.Triple.assume
  intro startable
  rw [if_pos startable]
  unfold runScript at whole
  cases checked : adapter.validateManifest with
  | some error =>
    simp only [checked] at whole
    obtain ⟨report, split, last⟩ := @errorScript_log sha256 manifest adapter.fresh [] [] error
    have log := isLog_of_endsWithReport (@RunRows.nil sha256 manifest.runId 0) last
    rw [whole] at split
    exact handleError_triple error (split ▸ replayable_of_isLog log) whole.symm
  | none =>
    simp only [checked] at whole
    obtain ⟨report, split, last⟩ := @outcomeScript_log sha256 manifest expectedResultChecksum
      adapter.fresh (decisionLoop sha256 manifest adapter.fresh)
    have run : RunRows sha256 manifest.runId 0 (decisionLoop sha256 manifest adapter.fresh).decisions
        (decisionLoop sha256 manifest adapter.fresh).rows := runRows_loopOutcome canonical
    have log := isLog_of_endsWithReport run last
    have replayable := replayable_of_isLog log
    rw [whole] at split
    rw [← split] at replayable
    have started : Recording.Triple (Front script 0)
        (Recording.write fun store : RunStore => { store with status := .running })
        (fun _ => Front script 0) (Front script 0) :=
      write fun _ held => ⟨held.withStatus .running, held.withStatus .running⟩
    have known : Recording.Triple (Front script 0) Recording.read
        (fun seen store => (∃ count, seen.artifacts = script.log.take count) ∧
          Front script 0 store) (Front script 0) := by
      apply Recording.Triple.read
      intro store held
      obtain ⟨count, -, artifacts⟩ := held.artifacts
      exact ⟨⟨count, artifacts⟩, held⟩
    apply started.bind
    intro _
    apply known.bind
    intro seen
    apply Recording.Triple.assume
    rintro ⟨count, artifacts⟩
    obtain ⟨decisions, offered, same⟩ := offerResume_loop canonical faithful log count
    rw [← split] at offered
    simp only [artifacts, replayable.sorted, offered]
    apply executeBehaviour_triple replayable
    · rw [same]
      exact whole.symm
    · rw [same]
      exact split

variable {store : RunStore}

/-- A run that cannot be started is left as it is. -/
theorem execute_idle (ended : store.status ∉ [.queued, .interrupted, .failed]) :
    execute sha256 manifest adapter expectedResultChecksum store =
      { result := (), store := store, writes := [] } := by
  have branch : execute sha256 manifest adapter expectedResultChecksum store =
      (if store.status ∈ [ResearchRunStatus.queued, .interrupted, .failed] then
        match adapter.validateManifest with
        | some error => handleError sha256 manifest adapter.fresh [] error
        | none => do
          Recording.write fun store => { store with status := .running }
          let store ← Recording.read
          let completed := completedPrefix sha256 manifest.runId (store.artifacts.insertionSort
            fun first second => first.sequence ≤ second.sequence)
          executeBehaviour sha256 manifest expectedResultChecksum (offerResume adapter completed)
      else Pure.pure ()) store := rfl
  rw [branch, if_neg ended]
  rfl

theorem execute_finished (canonical : ∀ y ∈ adapter.fresh.decisions, CanonicalYielded y)
    (faithful : ResumesFaithfully manifest adapter)
    (front : Front (runScript sha256 manifest expectedResultChecksum adapter) 0 store)
    (ended : store.status ∉ [.queued, .interrupted, .failed] →
      Finished (runScript sha256 manifest expectedResultChecksum adapter) store) :
    Finished (runScript sha256 manifest expectedResultChecksum adapter)
      (execute sha256 manifest adapter expectedResultChecksum store).store := by
  by_cases startable : store.status ∈ [.queued, .interrupted, .failed]
  · exact (execute_triple canonical faithful store ⟨startable, front⟩).2
  · rw [execute_idle startable]
    exact ended startable

theorem reached_front (canonical : ∀ y ∈ adapter.fresh.decisions, CanonicalYielded y)
    (faithful : ResumesFaithfully manifest adapter)
    (reached : Reached sha256 manifest adapter expectedResultChecksum store) :
    Front (runScript sha256 manifest expectedResultChecksum adapter) 0 store ∧
      (store.status ∉ [.queued, .interrupted, .failed] →
        Finished (runScript sha256 manifest expectedResultChecksum adapter) store) := by
  induction reached with
  | created =>
    have empty : Front (runScript sha256 manifest expectedResultChecksum adapter) 0 .created :=
      ⟨⟨0, le_rfl, rfl⟩, nofun⟩
    exact ⟨empty, fun ended => absurd (by decide) ended⟩
  | @stopped store left status _ written _ marked ih =>
    have front : Front (runScript sha256 manifest expectedResultChecksum adapter) 0 left := by
      by_cases startable : store.status ∈ [.queued, .interrupted, .failed]
      · exact (execute_triple canonical faithful store ⟨startable, ih.1⟩).1 left written
      · rw [execute_idle startable] at written
        cases written
    exact ⟨front.withStatus status, fun ended => absurd (mem_cons_of_mem _ marked) ended⟩
  | @ended store _ ih =>
    have finished := execute_finished canonical faithful ih.1 ih.2
    exact ⟨finished.front, fun _ => finished⟩

end Stops

namespace Purchase

def manifest : ResearchRunManifest where
  runId := "RR"
  inputChecksum := "manifest"
  strategyKind := "portfolio"
  executionMode := "next_bar"

def digest : List Char → String :=
  fun _ => "9f4dd3b33f87cae134fa587cb759a220ef93f28adb7e410ce417e7e425a5bc78"

def behaviour : Behaviour where
  decisions := [{ decision := filledPurchase, fragments := [] }]
  ending := none
  buildReport records := .ok
    { strategyKind := "portfolio"
      decisionCount := records.length
      orderCount := (records.map (·.orders.length)).sum
      fillCount := (records.map (·.fills.length)).sum
      executionMode := "next_bar"
      curveEquities := []
      finalEquity := amount 100000
      finalCash := amount 99000
      commissionPaid := amount 0
      taxPaid := amount 0
      slippagePaid := amount 0
      fillShortfall := amount 0
      accountingInvariantsPassed := true
      payload := [] }
  partialEvidence _ := none

/-- It accepts any decisions and goes on after them. -/
def adapter : Adapter where
  validateManifest := none
  fresh := behaviour
  resumeFrom completed := some
    { behaviour with
      decisions := completed.map (fun decision => { decision := decision, fragments := [] }) ++
        behaviour.decisions.drop completed.length }

theorem canonical_adapter : ∀ y ∈ adapter.fresh.decisions, CanonicalYielded y := by
  intro y member
  obtain rfl := mem_singleton.mp member
  exact fun _ => canonical_nil _

theorem resumesFaithfully_adapter : ResumesFaithfully manifest adapter := by
  rintro completed behaviour - ⟨⟩
  rfl

/-- The run can be stopped after the fifth artifact of the decision. -/
theorem exists_stop : ∃ left ∈ (execute digest manifest adapter none .created).writes,
    left.status = .running ∧ left.artifacts.length = 5 := by
  have found : (execute digest manifest adapter none .created).writes.any
      (fun left => left.status = .running && left.artifacts.length = 5) = true := by
    decide +kernel
  obtain ⟨left, written, held⟩ := any_eq_true.mp found
  rw [Bool.and_eq_true, decide_eq_true_eq, decide_eq_true_eq] at held
  exact ⟨left, written, held⟩

end Purchase

end FinDashboard.Research
