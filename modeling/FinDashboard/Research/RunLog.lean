import FinDashboard.Research.Coordinator

/-!
# The log of a research run

What a run appends does not depend on the store: it is the artifacts of the decisions the
coordinator accepts, and a report. The ids and the sequences of the log are distinct, so that it can
be appended again from any of its rows on.
-/

namespace FinDashboard.Research

open List

open FinDashboard.Text (Json padded)
open FinDashboard.Runs

section Rows

variable {sha256 : List Char → String} {runId : String} {index other : ℕ}
  {stage stage' : ResearchRunStage} {decision : DecisionBundle} {decisions : List DecisionBundle}
  {rows : List ResearchArtifact}

theorem ResearchRunStage.value_injective (same : stage.value = stage'.value) : stage = stage' := by
  cases stage <;> cases stage' <;> first | rfl | exact absurd same (by decide)

theorem artifactId_injective (same : runId ++ ":A:" ++ stableSuffix index stage =
    runId ++ ":A:" ++ stableSuffix other stage') : index = other ∧ stage = stage' := by
  have texts := congrArg String.toList same
  rw [toList_artifactId, toList_artifactId] at texts
  have suffixes := append_cancel_left texts
  have indexes := congrArg (takeWhile (· ≠ ':')) suffixes
  rw [takeWhile_padded, takeWhile_padded] at indexes
  have values := congrArg Text.digitsValue indexes
  rw [Text.digitsValue_padded, Text.digitsValue_padded] at values
  refine ⟨values, ResearchRunStage.value_injective (String.toList_inj.mp ?_)⟩
  rw [indexes] at suffixes
  exact (cons.inj (append_cancel_left suffixes)).2

theorem report_artifactId_ne :
    runId ++ ":A:report" ≠ runId ++ ":A:" ++ stableSuffix index stage := by
  intro same
  have texts := congrArg String.toList same
  have split : (runId ++ ":A:report").toList = (runId ++ ":A:").toList ++ "report".toList := by
    simp
  rw [toList_artifactId, split] at texts
  have suffixes := append_cancel_left texts
  have digit := Text.allDigits_padded 8 index
  cases front : padded 8 index with
  | nil =>
    have empty := congrArg length front
    simp [padded] at empty
  | cons c rest =>
    rw [front] at suffixes digit
    obtain rfl : 'r' = c := (cons.inj suffixes).1
    exact absurd (digit _ mem_cons_self) (by decide)

theorem DecisionRows.nodup_ids (whole : DecisionRows sha256 runId index decision rows) :
    (rows.map (·.artifactId)).Nodup := by
  have stages := whole.stages ▸ nodup_decisionStages
  apply List.Nodup.map_on _ (List.Nodup.of_map _ stages)
  intro row member row' member' same
  rw [(whole.each row member).artifactId, (whole.each row' member').artifactId] at same
  exact inj_on_of_nodup_map stages member member' (artifactId_injective same).2

theorem RunRows.ids (run : RunRows sha256 runId index decisions rows) : ∀ row ∈ rows,
    ∃ place, index ≤ place ∧ row.artifactId = runId ++ ":A:" ++ stableSuffix place row.stage := by
  induction run with
  | nil => exact forall_mem_nil _
  | @cons index _ _ _ _ whole _ ih =>
    intro row member
    rcases mem_append.mp member with here | later
    · exact ⟨index, le_rfl, (whole.each row here).artifactId⟩
    · obtain ⟨place, after, id⟩ := ih row later
      exact ⟨place, Nat.le_of_succ_le after, id⟩

theorem RunRows.nodup_ids (run : RunRows sha256 runId index decisions rows) :
    (rows.map (·.artifactId)).Nodup := by
  induction run with
  | nil => exact nodup_nil
  | @cons index _ _ rows more whole run ih =>
    rw [map_append]
    apply List.Nodup.append whole.nodup_ids ih
    intro id here later
    obtain ⟨row, member, rfl⟩ := mem_map.mp here
    obtain ⟨row', member', same⟩ := mem_map.mp later
    obtain ⟨place, after, named⟩ := run.ids row' member'
    rw [named, (whole.each row member).artifactId] at same
    obtain ⟨rfl, -⟩ := artifactId_injective same
    omega

theorem RunRows.sequences (run : RunRows sha256 runId index decisions rows) :
    rows.map (·.sequence) = range' (index * decisionStages.length)
      (decisions.length * decisionStages.length) := by
  induction run with
  | nil => simp
  | cons whole run ih =>
    rw [map_append, whole.sequences, ih, length_cons, Nat.succ_mul, Nat.succ_mul,
      range'_append_1, Nat.add_comm decisionStages.length]

/-- The artifacts of a run, with its report if it has one. -/
structure IsLog (sha256 : List Char → String) (runId : String) (decisions : List DecisionBundle)
    (rows : List ResearchArtifact) (report : Option ResearchArtifact) : Prop where
  run : RunRows sha256 runId 0 decisions rows
  report_id : ∀ row ∈ report, row.artifactId = runId ++ ":A:report" ∧ row.decisionId = none ∧
    row.sequence = decisions.length * decisionStages.length

variable {report : Option ResearchArtifact}

theorem IsLog.sequences (log : IsLog sha256 runId decisions rows report) :
    ∃ count, (rows ++ report.toList).map (·.sequence) = range' 0 count := by
  have rows_eq := log.run.sequences
  rw [Nat.zero_mul] at rows_eq
  cases report with
  | none => exact ⟨_, by rw [Option.toList_none, append_nil, rows_eq]⟩
  | some row =>
    have last := (log.report_id row rfl).2.2
    refine ⟨decisions.length * decisionStages.length + 1, ?_⟩
    rw [map_append, rows_eq, range'_concat, Option.toList_some, map_singleton, last,
      Nat.zero_add, Nat.one_mul]

theorem IsLog.appendable (log : IsLog sha256 runId decisions rows report) :
    Appendable (·.artifactId) (·.sequence) (fun old new => old.checksum = new.checksum)
      (rows ++ report.toList) where
  keys := by
    cases report with
    | none =>
      rw [Option.toList_none, append_nil]
      exact log.run.nodup_ids
    | some row =>
      rw [map_append]
      apply List.Nodup.append log.run.nodup_ids (nodup_singleton _)
      intro id here last
      obtain ⟨other, member, rfl⟩ := mem_map.mp here
      obtain ⟨place, -, named⟩ := log.run.ids other member
      have same : other.artifactId = row.artifactId := mem_singleton.mp last
      rw [named, (log.report_id row rfl).1] at same
      exact report_artifactId_ne same.symm
  places := by
    obtain ⟨count, sequences⟩ := log.sequences
    rw [sequences]
    exact nodup_range'
  refl row _ := decide_eq_true rfl

/-- Every front of the log is in the order of its sequences. -/
theorem IsLog.take_sorted (log : IsLog sha256 runId decisions rows report) (count : ℕ) :
    ((rows ++ report.toList).take count).insertionSort
      (fun first second => first.sequence ≤ second.sequence) = (rows ++ report.toList).take count := by
  obtain ⟨length, sequences⟩ := log.sequences
  apply List.Pairwise.insertionSort_eq
  have ordered : ((rows ++ report.toList).map (·.sequence)).Pairwise (· < ·) := by
    rw [sequences]
    exact pairwise_lt_range'
  have pairs := pairwise_map.mp ordered
  exact (pairs.sublist (take_sublist _ _)).imp fun before => le_of_lt before

end Rows

/-- The decisions the loop persists, their artifacts, and why the loop ends. -/
structure LoopOutcome where
  decisions : List DecisionBundle
  rows : List ResearchArtifact
  error : Option RunError

def LoopOutcome.records (outcome : LoopOutcome) : List DecisionLedgerRecord :=
  outcome.decisions.map decisionLedgerRecord

section Loop

variable (sha256 : List Char → String) (manifest : ResearchRunManifest) (ending : Option RunError)

def loopOutcome : (index : ℕ) → ValidatorState → List Yielded → LoopOutcome
  | _, _, [] => { decisions := [], rows := [], error := ending }
  | index, state, yielded :: rest =>
    match prepareDecision sha256 manifest index state yielded with
    | .error error => { decisions := [], rows := [], error := some error }
    | .ok (decision, next, artifacts) =>
      let more := loopOutcome (index + 1) next rest
      { decisions := decision :: more.decisions, rows := artifacts ++ more.rows
        error := more.error }

variable {sha256 manifest ending}
variable {index : ℕ} {state next : ValidatorState} {yielded : Yielded} {rest : List Yielded}
  {decision : DecisionBundle} {artifacts : List ResearchArtifact}
  {fragments : List (String × List Char)}

/-- What an adapter yields carries canonical fragments. -/
def CanonicalYielded (yielded : Yielded) : Prop :=
  ∀ stage, Canonical yielded.fragments (yielded.decision.artifactFields stage)

theorem prepareDecision_eq_ok :
    prepareDecision sha256 manifest index state yielded = .ok (decision, next, artifacts) ↔
      withDecisionId manifest.runId index yielded.decision = some decision ∧
        decision.validate sha256 manifest.inputChecksum state = .ok next ∧
          decisionArtifacts sha256 manifest.runId index decision yielded.fragments = some artifacts := by
  unfold prepareDecision
  cases named : withDecisionId manifest.runId index yielded.decision with
  | none => simp
  | some bundle =>
    simp only [Option.some.injEq]
    constructor
    · intro prepared
      cases valid : bundle.validate sha256 manifest.inputChecksum state with
      | error error =>
        simp only [valid] at prepared
        cases prepared
      | ok after =>
        simp only [valid] at prepared
        cases rows : decisionArtifacts sha256 manifest.runId index bundle yielded.fragments with
        | none =>
          simp only [rows] at prepared
          cases prepared
        | some written =>
          simp only [rows] at prepared
          cases prepared
          exact ⟨rfl, valid, rows⟩
    · rintro ⟨rfl, valid, rows⟩
      simp only [valid, rows]

theorem artifactsFrom_canonical {runId : String} {stages : List ResearchRunStage} {offset : ℕ}
    {parents : List String} (canonical : ∀ stage, Canonical fragments (decision.artifactFields stage)) :
    artifactsFrom sha256 runId index decision fragments offset parents stages =
      artifactsFrom sha256 runId index decision [] offset parents stages := by
  induction stages generalizing offset parents with
  | nil => rfl
  | cons stage stages ih =>
    have texts : canonicalJsonText fragments (decision.artifactFields stage) =
        canonicalJsonText [] (decision.artifactFields stage) := by
      rw [canonicalJsonText_eq_dumps (canonical stage), canonicalJsonText_eq_dumps (canonical_nil _)]
    simp only [artifactsFrom, artifactOf, texts, ih]

theorem artifactFields_withDecisionId {runId : String}
    (named : withDecisionId runId index yielded.decision = some decision) (stage : ResearchRunStage) :
    decision.artifactFields stage = yielded.decision.artifactFields stage := by
  rw [withDecisionId_eq named]
  cases stage <;> rfl

theorem decisionArtifacts_canonical {runId : String} (canonical : CanonicalYielded yielded)
    (named : withDecisionId runId index yielded.decision = some decision) :
    decisionArtifacts sha256 runId index decision yielded.fragments =
      decisionArtifacts sha256 runId index decision [] := by
  apply artifactsFrom_canonical
  intro stage
  rw [artifactFields_withDecisionId named]
  exact canonical stage

theorem withDecisionId_self {runId : String} {raw : DecisionBundle}
    (named : withDecisionId runId index raw = some decision) :
    withDecisionId runId index decision = some decision := by
  rw [withDecisionId_eq named]
  exact if_neg fun other => other.2 rfl

theorem prepareDecision_again (canonical : CanonicalYielded yielded)
    (prepared : prepareDecision sha256 manifest index state yielded = .ok (decision, next, artifacts)) :
    prepareDecision sha256 manifest index state { decision := decision, fragments := [] } =
      .ok (decision, next, artifacts) := by
  obtain ⟨named, valid, rows⟩ := prepareDecision_eq_ok.mp prepared
  rw [decisionArtifacts_canonical canonical named] at rows
  exact prepareDecision_eq_ok.mpr ⟨withDecisionId_self named, valid, rows⟩

theorem loopOutcome_cons_of_ok
    (prepared : prepareDecision sha256 manifest index state yielded = .ok (decision, next, artifacts)) :
    loopOutcome sha256 manifest ending index state (yielded :: rest) =
      let more := loopOutcome sha256 manifest ending (index + 1) next rest
      { decisions := decision :: more.decisions, rows := artifacts ++ more.rows
        error := more.error } := by
  rw [loopOutcome, prepared]

theorem loopOutcome_cons_of_error {error : RunError}
    (refused : prepareDecision sha256 manifest index state yielded = .error error) :
    loopOutcome sha256 manifest ending index state (yielded :: rest) =
      { decisions := [], rows := [], error := some error } := by
  rw [loopOutcome, refused]

variable {yields : List Yielded}

theorem loopOutcome_resumed (canonical : ∀ y ∈ yields, CanonicalYielded y)
    {count : ℕ}
    (persisted : count ≤ (loopOutcome sha256 manifest ending index state yields).decisions.length) :
    loopOutcome sha256 manifest ending index state
        (((loopOutcome sha256 manifest ending index state yields).decisions.take count).map
            (fun decision => { decision := decision, fragments := [] }) ++ yields.drop count) =
      loopOutcome sha256 manifest ending index state yields := by
  induction yields generalizing index state count with
  | nil =>
    obtain rfl : count = 0 := by simpa [loopOutcome] using persisted
    rfl
  | cons yielded yields ih =>
    cases count with
    | zero => rfl
    | succ count =>
      cases prepared : prepareDecision sha256 manifest index state yielded with
      | error error =>
        rw [loopOutcome_cons_of_error prepared] at persisted
        cases persisted
      | ok result =>
        obtain ⟨decision, next, artifacts⟩ := result
        have again := prepareDecision_again (canonical yielded mem_cons_self) prepared
        rw [loopOutcome_cons_of_ok prepared] at persisted ⊢
        have later := ih (fun y member => canonical y (mem_cons_of_mem _ member))
          (Nat.le_of_succ_le_succ persisted)
        simp only [take_succ_cons, map_cons, cons_append, drop_succ_cons]
        rw [loopOutcome_cons_of_ok again, later]

theorem runRows_loopOutcome (canonical : ∀ y ∈ yields, CanonicalYielded y) :
    RunRows sha256 manifest.runId index (loopOutcome sha256 manifest ending index state yields).decisions
      (loopOutcome sha256 manifest ending index state yields).rows := by
  induction yields generalizing index state with
  | nil => exact .nil index
  | cons yielded yields ih =>
    cases prepared : prepareDecision sha256 manifest index state yielded with
    | error error =>
      rw [loopOutcome_cons_of_error prepared]
      exact .nil index
    | ok result =>
      obtain ⟨decision, next, artifacts⟩ := result
      obtain ⟨named, -, rows⟩ := prepareDecision_eq_ok.mp prepared
      rw [decisionArtifacts_canonical (canonical yielded mem_cons_self) named] at rows
      obtain ⟨stages, sequences, each⟩ := artifactsFrom_spec rows
      rw [loopOutcome_cons_of_ok prepared]
      refine .cons ⟨?_, stages, sequences, each⟩ (ih fun y member =>
        canonical y (mem_cons_of_mem _ member))
      rw [withDecisionId_eq named]

theorem loopOutcome_decisions {count : ℕ}
    (persisted : count ≤ (loopOutcome sha256 manifest ending index state yields).decisions.length) :
    (loopOutcome sha256 manifest ending index state yields).decisions.take count =
      (yields.take count).mapIdx fun place yielded =>
        { yielded.decision with
          decisionId := expectedDecisionId manifest.runId (index + place) } := by
  induction yields generalizing index state count with
  | nil => simp [loopOutcome]
  | cons yielded yields ih =>
    cases count with
    | zero => rfl
    | succ count =>
      cases prepared : prepareDecision sha256 manifest index state yielded with
      | error error =>
        rw [loopOutcome_cons_of_error prepared] at persisted
        cases persisted
      | ok result =>
        obtain ⟨decision, next, artifacts⟩ := result
        obtain ⟨named, -, -⟩ := prepareDecision_eq_ok.mp prepared
        rw [loopOutcome_cons_of_ok prepared] at persisted ⊢
        have later := @ih (index + 1) next count (Nat.le_of_succ_le_succ persisted)
        simp only [take_succ_cons, mapIdx_cons, later, withDecisionId_eq named,
          Nat.add_zero, Nat.add_assoc, Nat.add_comm 1]

end Loop

end FinDashboard.Research
