import FinDashboard.Research.Checkpoint

/-!
# The decisions a run has completed

The artifacts of a run are read in the order of their sequence, decision by decision. A decision
counts as completed when all its stages are there, their checksums agree and it can be rebuilt; the
first one that does not ends the prefix.
-/

namespace FinDashboard.Research

open List

open FinDashboard.Text (AllDigits Json digitsValue padded)

/-- `decision_artifact_index`: the place of a decision from the id of one of its artifacts. -/
def decisionArtifactIndex (runId artifactId : String) : Option ℕ :=
  let front := (runId ++ ":A:").toList
  if front <+: artifactId.toList then
    let indexText := (artifactId.toList.drop front.length).takeWhile (· ≠ ':')
    if indexText.length = 8 ∧ AllDigits indexText then some (digitsValue indexText) else none
  else none

def checksumAgrees (sha256 : List Char → String) (artifact : ResearchArtifact) : Bool :=
  ((Json.loads artifact.payloadJson).bind (stableChecksum sha256)) = some artifact.checksum

/-- `iter_completed_decision_prefix`: the decision at `index` is being put together from the stages
found so far. -/
def completedFrom (sha256 : List Char → String) (runId : String) (index : ℕ)
    (current : List (ResearchRunStage × ResearchArtifact)) :
    List ResearchArtifact → List DecisionBundle
  | [] => []
  | artifact :: rest =>
    if artifact.runId ≠ runId ∨ artifact.decisionId = none ∨ artifact.stage ∉ decisionStages then
      completedFrom sha256 runId index current rest
    else
      match decisionArtifactIndex runId artifact.artifactId with
      | none => completedFrom sha256 runId index current rest
      | some row =>
        if row < index then completedFrom sha256 runId index current rest
        else if index < row then []
        else
          let stages := Ledger.assign artifact.stage artifact current
          if stages.length ≠ decisionStages.length then
            completedFrom sha256 runId index stages rest
          else if stages.all fun entry => checksumAgrees sha256 entry.2 then
            match rebuildDecision runId index (fun stage => Ledger.find stage stages) with
            | .ok decision => decision :: completedFrom sha256 runId (index + 1) [] rest
            | .error _ => []
          else []

def completedPrefix (sha256 : List Char → String) (runId : String)
    (artifacts : List ResearchArtifact) : List DecisionBundle :=
  completedFrom sha256 runId 0 [] artifacts

section Ids

variable {runId : String} {index other : ℕ} {stage : ResearchRunStage}

theorem toList_artifactId (runId : String) (index : ℕ) (stage : ResearchRunStage) :
    (runId ++ ":A:" ++ stableSuffix index stage).toList =
      (runId ++ ":A:").toList ++ (padded 8 index ++ ':' :: stage.value.toList) := by
  simp [stableSuffix, indexText]

theorem takeWhile_padded (rest : List Char) :
    (padded 8 index ++ ':' :: rest).takeWhile (· ≠ ':') = padded 8 index := by
  have digit : ∀ c ∈ padded 8 index, decide (c ≠ ':') = true := by
    intro c member
    have digit := Text.allDigits_padded 8 index c member
    apply decide_eq_true
    rintro rfl
    exact absurd digit (by decide)
  rw [takeWhile_append_of_pos digit]
  simp

/-- The index is read back where it has eight digits, and not at all where it has more. -/
theorem decisionArtifactIndex_eq (runId : String) (index : ℕ) (stage : ResearchRunStage) :
    decisionArtifactIndex runId (runId ++ ":A:" ++ stableSuffix index stage) =
      if (padded 8 index).length = 8 then some index else none := by
  unfold decisionArtifactIndex
  rw [toList_artifactId, if_pos (prefix_append _ _), drop_left, takeWhile_padded]
  simp only [Text.digitsValue_padded, Text.allDigits_padded, and_true]

end Ids

/-- The artifacts of a whole decision. -/
structure DecisionRows (sha256 : List Char → String) (runId : String) (index : ℕ)
    (decision : DecisionBundle) (rows : List ResearchArtifact) : Prop where
  named : decision.decisionId = expectedDecisionId runId index
  stages : rows.map (·.stage) = decisionStages
  sequences : rows.map (·.sequence) =
    range' (index * decisionStages.length) decisionStages.length
  each : ∀ row ∈ rows, RowOf sha256 runId index decision [] row

/-- The artifacts of decisions one after the other, from a place of the run on. -/
inductive RunRows (sha256 : List Char → String) (runId : String) :
    ℕ → List DecisionBundle → List ResearchArtifact → Prop
  | nil (index : ℕ) : RunRows sha256 runId index [] []
  | cons {index : ℕ} {decision : DecisionBundle} {decisions : List DecisionBundle}
      {rows more : List ResearchArtifact} :
      DecisionRows sha256 runId index decision rows →
      RunRows sha256 runId (index + 1) decisions more →
      RunRows sha256 runId index (decision :: decisions) (rows ++ more)

section Completed

variable {sha256 : List Char → String} {runId : String} {index other : ℕ}
  {decision : DecisionBundle} {decisions : List DecisionBundle}
  {rows done remaining rest : List ResearchArtifact} {row : ResearchArtifact}
  {current : List (ResearchRunStage × ResearchArtifact)}

def byStage (artifacts : List ResearchArtifact) : List (ResearchRunStage × ResearchArtifact) :=
  artifacts.map fun artifact => (artifact.stage, artifact)

theorem map_fst_byStage (artifacts : List ResearchArtifact) :
    (byStage artifacts).map (·.1) = artifacts.map (·.stage) := by
  rw [byStage, map_map]
  rfl

theorem nodup_decisionStages : decisionStages.Nodup := by decide

theorem RowOf.checksumAgrees (row_of : RowOf sha256 runId index decision [] row) :
    checksumAgrees sha256 row = true := by
  have written := row_of.payload
  rw [canonicalJsonText_eq_dumps (canonical_nil _)] at written
  have loaded := Json.loads_dumps written
  unfold Research.checksumAgrees
  rw [loaded, Option.bind_some, stableChecksum, Json.dumps_sorted, written, Option.map_some,
    row_of.checksum]
  exact decide_eq_true rfl

theorem DecisionRows.kept (whole : DecisionRows sha256 runId index decision rows) :
    Kept runId index decision fun stage => Ledger.find stage (byStage rows) := by
  refine ⟨whole.named, ?_⟩
  intro stage member
  rw [← whole.stages] at member
  obtain ⟨row, inside, rfl⟩ := mem_map.mp member
  have row_of := whole.each row inside
  have apart : ((byStage rows).map (·.1)).Nodup := by
    rw [map_fst_byStage, whole.stages]
    exact nodup_decisionStages
  have found := Ledger.find_of_mem apart (mem_map_of_mem (f := fun row => (row.stage, row)) inside)
  refine ⟨row, found, row_of.runId, row_of.decisionId, ?_⟩
  rw [← canonicalJsonText_eq_dumps (canonical_nil _)]
  exact row_of.payload

/-- An artifact of a decision whose index is read back is put with the stages found so far. -/
theorem completedFrom_row (row_of : RowOf sha256 runId index decision [] row)
    (short : (padded 8 index).length = 8) (decided : row.stage ∈ decisionStages) :
    completedFrom sha256 runId index current (row :: rest) =
      let stages := Ledger.assign row.stage row current
      if stages.length ≠ decisionStages.length then completedFrom sha256 runId index stages rest
      else if stages.all fun entry => checksumAgrees sha256 entry.2 then
        match rebuildDecision runId index (fun stage => Ledger.find stage stages) with
        | .ok decision => decision :: completedFrom sha256 runId (index + 1) [] rest
        | .error _ => []
      else [] := by
  have read := decisionArtifactIndex_eq runId index row.stage
  rw [if_pos short, ← row_of.artifactId] at read
  have ours : ¬ (row.runId ≠ runId ∨ row.decisionId = none ∨ row.stage ∉ decisionStages) := by
    rintro (foreign | unnamed | undecided)
    · exact foreign row_of.runId
    · rw [row_of.decisionId] at unnamed
      cases unnamed
    · exact undecided decided
  rw [completedFrom, if_neg ours]
  simp only [read, lt_irrefl, if_false]

theorem assign_byStage (stages : (done ++ row :: remaining).map (·.stage) = decisionStages) :
    Ledger.assign row.stage row (byStage done) = byStage (done ++ [row]) := by
  have apart := stages ▸ nodup_decisionStages
  rw [map_append, map_cons] at apart
  have fresh : row.stage ∉ (byStage done).map (·.1) := by
    rw [map_fst_byStage]
    intro taken
    exact disjoint_of_nodup_append apart taken mem_cons_self
  rw [Ledger.assign_of_fresh fresh, byStage, byStage, map_append]
  rfl

/-- The artifacts of a decision, read to the end, give the decision. -/
theorem DecisionRows.completedFrom_eq (whole : DecisionRows sha256 runId index decision rows)
    (short : (padded 8 index).length = 8) (split : done ++ row :: remaining = rows) :
    completedFrom sha256 runId index (byStage done) (row :: remaining ++ rest) =
      decision :: completedFrom sha256 runId (index + 1) [] rest := by
  induction remaining generalizing done row with
  | nil =>
    subst split
    have stages := whole.stages
    have member : row ∈ done ++ [row] := mem_append_right _ mem_cons_self
    have decided := stages ▸ mem_map_of_mem member
    have length := congrArg length stages
    have agrees : ((byStage (done ++ [row])).all fun entry => checksumAgrees sha256 entry.2) = true := by
      rw [all_eq_true]
      intro entry inside
      obtain ⟨other, known, rfl⟩ := mem_map.mp inside
      exact (whole.each other known).checksumAgrees
    have rebuilt := whole.kept.rebuildDecision_eq
    rw [cons_append, nil_append, completedFrom_row (whole.each row member) short decided,
      assign_byStage stages]
    simp only [agrees, if_true, rebuilt]
    rw [if_neg]
    rw [byStage, length_map, ne_eq, not_not, ← length, length_map]
  | cons next remaining ih =>
    subst split
    have stages := whole.stages
    have member : row ∈ done ++ row :: next :: remaining :=
      mem_append_right _ mem_cons_self
    have decided := stages ▸ mem_map_of_mem member
    have length := congrArg length stages
    have shift := append_assoc done [row] (next :: remaining)
    have later := ih shift
    rw [cons_append, completedFrom_row (whole.each row member) short decided, assign_byStage stages]
    simp only
    rw [if_pos]
    · exact later
    · rw [byStage, length_map, ← length, length_map, length_append,
        length_append, length_cons, length_cons, length_cons, length_nil]
      omega

/-- Less than the artifacts of a decision give none. -/
theorem DecisionRows.completedFrom_partial (whole : DecisionRows sha256 runId index decision rows)
    (short : (padded 8 index).length = 8) (split : done ++ remaining ++ rest = rows)
    (missing : rest ≠ []) : completedFrom sha256 runId index (byStage done) remaining = [] := by
  induction remaining generalizing done with
  | nil => rfl
  | cons row remaining ih =>
    have shift : done ++ [row] ++ remaining ++ rest = rows := by
      rw [← split]
      simp
    have stages := whole.stages
    rw [← split] at stages
    have member : row ∈ rows := by
      rw [← split]
      simp
    have decided := whole.stages ▸ mem_map_of_mem member
    have length := congrArg length stages
    have some_rest := length_pos_of_ne_nil missing
    have later := ih shift
    rw [append_assoc, cons_append] at stages
    rw [completedFrom_row (whole.each row member) short decided, assign_byStage stages]
    simp only
    rw [if_pos]
    · exact later
    · rw [byStage, length_map, ← length, length_map, length_append,
        length_append, length_append, length_cons, length_cons, length_nil]
      omega

/-- Artifacts whose index is not read back are passed over. -/
theorem completedFrom_skip (unread : ∀ row ∈ rows,
    row.decisionId = none ∨ decisionArtifactIndex runId row.artifactId = none) :
    completedFrom sha256 runId index current rows = [] := by
  induction rows with
  | nil => rfl
  | cons row rows ih =>
    have later := ih fun row member => unread row (mem_cons_of_mem _ member)
    rw [completedFrom]
    split
    · exact later
    · rename_i ours
      rcases unread row mem_cons_self with unnamed | unread
      · exact absurd (.inr (.inl unnamed)) ours
      · rw [unread]
        exact later

theorem padded_long {index other : ℕ} (later : index ≤ other) (long : (padded 8 index).length ≠ 8) :
    (padded 8 other).length ≠ 8 := by
  have big : 10 ^ 8 ≤ index := by
    by_contra small
    exact long (Text.length_padded (by decide) (not_le.mp small))
  have digits : ¬ (Text.digits other).length ≤ 8 := by
    rw [Nat.length_toDigits_le_iff (by decide) (by decide)]
    omega
  simp only [padded, length_append, length_replicate]
  omega

/-- No artifact is read back from the first index with more than eight digits on. -/
theorem RunRows.unread (run : RunRows sha256 runId index decisions rows)
    (long : (padded 8 index).length ≠ 8) :
    ∀ row ∈ rows, decisionArtifactIndex runId row.artifactId = none := by
  induction run with
  | nil => exact forall_mem_nil _
  | cons whole run ih =>
    intro row member
    rcases mem_append.mp member with here | later
    · rw [(whole.each row here).artifactId, decisionArtifactIndex_eq, if_neg long]
    · exact ih (padded_long (Nat.le_succ _) long) row later

theorem DecisionRows.length_eq (whole : DecisionRows sha256 runId index decision rows) :
    rows.length = decisionStages.length := by
  rw [← whole.stages, length_map]

/-- What is read back of the first artifacts of a run, with artifacts of no decision at its end, are
the first of its decisions. -/
theorem RunRows.completedFrom_take {tail : List ResearchArtifact}
    (run : RunRows sha256 runId index decisions rows)
    (unnamed : ∀ row ∈ tail, row.decisionId = none) (count : ℕ) :
    ∃ completed, completedFrom sha256 runId index [] ((rows ++ tail).take count) =
      decisions.take completed := by
  induction run generalizing count with
  | nil index =>
    refine ⟨0, completedFrom_skip fun row member => ?_⟩
    exact .inl (unnamed row (mem_of_mem_take member))
  | @cons index decision decisions rows more whole run ih =>
    by_cases short : (padded 8 index).length = 8
    · rcases Nat.lt_or_ge count rows.length with part | all
      · refine ⟨0, ?_⟩
        rw [append_assoc, take_append_of_le_length part.le]
        have missing : rows.drop count ≠ [] :=
          ne_nil_of_length_pos (by rw [length_drop]; omega)
        have split : [] ++ rows.take count ++ rows.drop count = rows :=
          take_append_drop count rows
        exact whole.completedFrom_partial short split missing
      · obtain ⟨completed, rest⟩ := ih (count - rows.length)
        refine ⟨completed + 1, ?_⟩
        rw [append_assoc, take_append, take_of_length_le all, take_succ_cons, ← rest]
        cases rows with
        | nil => cases whole.length_eq
        | cons row remaining =>
          have split : [] ++ row :: remaining = row :: remaining := rfl
          exact whole.completedFrom_eq short split
    · refine ⟨0, completedFrom_skip fun row member => ?_⟩
      have inside := mem_of_mem_take member
      rcases mem_append.mp inside with ours | at_end
      · exact .inr ((RunRows.cons whole run).unread short row ours)
      · exact .inl (unnamed row at_end)

end Completed

end FinDashboard.Research
