import FinDashboard.Research.Resume
import Mathlib.Data.List.Induction

/-!
# The completed decisions, read as a whole

The artifacts are also read as a whole, by decision and stage. Artifacts in the order of their decisions
give the same decisions when they are read one by one: the longest run from the first decision on that
can be read back.
-/

namespace FinDashboard.Research

open List Ledger Purchase

variable {sha256 : List Char → String} {runId : String} {artifacts done rest : List ResearchArtifact}
  {artifact : ResearchArtifact} {index other : ℕ} {stage : ResearchRunStage}
  {stages : List (ResearchRunStage × ResearchArtifact)} {decision : DecisionBundle}
  {decisions : List DecisionBundle}

/-- One turn of the loop of `group_decision_artifacts`. -/
def groupArtifact (runId : String) (grouped : List (ℕ × List (ResearchRunStage × ResearchArtifact)))
    (artifact : ResearchArtifact) : List (ℕ × List (ResearchRunStage × ResearchArtifact)) :=
  if artifact.runId ≠ runId ∨ artifact.decisionId = none then grouped
  else
    match decisionArtifactIndex runId artifact.artifactId with
    | none => grouped
    | some index =>
      if artifact.stage ∉ decisionStages then grouped
      else assign index
        (assign artifact.stage artifact ((find index grouped).getD [])) grouped

def groupDecisionArtifacts (runId : String) (artifacts : List ResearchArtifact) :
    List (ℕ × List (ResearchRunStage × ResearchArtifact)) :=
  artifacts.foldl (groupArtifact runId) []

/-- The loop of `completed_decision_prefix`, which ends at the latest when every decision was read. -/
def completedLoop (sha256 : List Char → String) (runId : String)
    (grouped : List (ℕ × List (ResearchRunStage × ResearchArtifact))) : (fuel index : ℕ) →
    List DecisionBundle
  | 0, _ => []
  | fuel + 1, index =>
    match find index grouped with
    | none => []
    | some stages =>
      if stages.length ≠ decisionStages.length then []
      else if stages.all fun entry => checksumAgrees sha256 entry.2 then
        match rebuildDecision runId index (fun stage => find stage stages) with
        | .ok decision => decision :: completedLoop sha256 runId grouped fuel (index + 1)
        | .error _ => []
      else []

def completedDecisionPrefix (sha256 : List Char → String) (runId : String)
    (artifacts : List ResearchArtifact) : List DecisionBundle :=
  let grouped := groupDecisionArtifacts runId artifacts
  completedLoop sha256 runId grouped grouped.length 0

/-- The decision an artifact is one of, where it is an artifact of a decision of the run. -/
def decisionRow (runId : String) (artifact : ResearchArtifact) : Option ℕ :=
  if artifact.runId ≠ runId ∨ artifact.decisionId = none ∨ artifact.stage ∉ decisionStages then none
  else decisionArtifactIndex runId artifact.artifactId

def stageArtifact (runId : String) (artifacts : List ResearchArtifact) (index : ℕ) : StageArtifacts :=
  fun stage => artifacts.find? fun artifact =>
    decisionRow runId artifact = some index ∧ artifact.stage = stage

/-- Every stage of a decision is there with a valid checksum. -/
def Present (sha256 : List Char → String) (runId : String) (artifacts : List ResearchArtifact)
    (index : ℕ) : Prop :=
  ∀ stage ∈ decisionStages, ∃ artifact, stageArtifact runId artifacts index stage = some artifact ∧
    checksumAgrees sha256 artifact = true

/-- A decision whose stages are there, and which they give. -/
structure Completes (sha256 : List Char → String) (runId : String)
    (artifacts : List ResearchArtifact) (index : ℕ) (decision : DecisionBundle) : Prop where
  present : Present sha256 runId artifacts index
  rebuilt : rebuildDecision runId index (stageArtifact runId artifacts index) = .ok decision

/-- The decisions from a place on, up to the first that is not completed. -/
structure LongestRun (sha256 : List Char → String) (runId : String)
    (artifacts : List ResearchArtifact) (index : ℕ) (decisions : List DecisionBundle) : Prop where
  completed : ∀ (place : ℕ) (decision : DecisionBundle), decisions[place]? = some decision →
    Completes sha256 runId artifacts (index + place) decision
  ends : ∀ decision, ¬ Completes sha256 runId artifacts (index + decisions.length) decision

/-- There is at most one artifact of a stage of a decision. -/
def SingleArtifacts (runId : String) (artifacts : List ResearchArtifact) : Prop :=
  artifacts.Pairwise fun artifact later => ∀ index ∈ decisionRow runId artifact,
    decisionRow runId later = some index → artifact.stage ≠ later.stage

instance : Decidable (SingleArtifacts runId artifacts) :=
  inferInstanceAs (Decidable (List.Pairwise _ _))

/-- The artifacts come in the order of their decisions. -/
def InDecisionOrder (runId : String) (artifacts : List ResearchArtifact) : Prop :=
  artifacts.Pairwise fun artifact later => ∀ index ∈ decisionRow runId artifact,
    ∀ next ∈ decisionRow runId later, index ≤ next

namespace LongestRun

theorem nil (ends : ∀ decision, ¬ Completes sha256 runId artifacts index decision) :
    LongestRun sha256 runId artifacts index [] := by
  refine ⟨?_, ends⟩
  intro place decision listed
  simp at listed

theorem cons (first : Completes sha256 runId artifacts index decision)
    (run : LongestRun sha256 runId artifacts (index + 1) decisions) :
    LongestRun sha256 runId artifacts index (decision :: decisions) := by
  constructor
  · intro place later listed
    cases place with
    | zero =>
      obtain rfl := Option.some.inj listed
      exact first
    | succ place =>
      have completed := run.completed place later listed
      rwa [Nat.add_assoc, Nat.add_comm 1] at completed
  · intro later
    have ends := run.ends later
    rwa [Nat.add_assoc, Nat.add_comm 1] at ends

theorem unique {others : List DecisionBundle} (run : LongestRun sha256 runId artifacts index decisions)
    (run' : LongestRun sha256 runId artifacts index others) : decisions = others := by
  induction decisions generalizing others index with
  | nil =>
    cases others with
    | nil => rfl
    | cons decision others => exact absurd (run'.completed 0 decision rfl) (run.ends decision)
  | cons decision decisions ih =>
    have first := run.completed 0 decision rfl
    have tail : ∀ {decision decisions}, LongestRun sha256 runId artifacts index (decision :: decisions) →
        LongestRun sha256 runId artifacts (index + 1) decisions := by
      intro decision decisions run
      constructor
      · intro place later listed
        have completed := run.completed (place + 1) later listed
        rwa [Nat.add_comm place, ← Nat.add_assoc] at completed
      · intro later
        have ends := run.ends later
        rwa [length_cons, Nat.add_comm decisions.length, ← Nat.add_assoc] at ends
    cases others with
    | nil => exact absurd first (run'.ends decision)
    | cons decision' others =>
      have same := first.rebuilt.symm.trans (run'.completed 0 decision' rfl).rebuilt
      injection same with same
      rw [same, ih (tail run) (tail run')]

end LongestRun

theorem stage_of_decisionRow (row : decisionRow runId artifact = some index) :
    artifact.stage ∈ decisionStages := by
  unfold decisionRow at row
  split_ifs at row with foreign
  by_contra undecided
  exact foreign (.inr (.inr undecided))

theorem stageArtifact_eq_some (found : stageArtifact runId artifacts index stage = some artifact) :
    artifact ∈ artifacts ∧ decisionRow runId artifact = some index ∧ artifact.stage = stage := by
  have member := mem_of_find?_eq_some found
  have read := find?_some found
  rw [decide_eq_true_eq] at read
  exact ⟨member, read⟩

theorem stageArtifact_eq_none (others : ∀ artifact ∈ artifacts, decisionRow runId artifact ≠ some index) :
    stageArtifact runId artifacts index stage = none := by
  refine find?_eq_none.mpr ?_
  intro artifact member
  rw [decide_eq_true_eq]
  intro read
  exact others artifact member read.1

theorem stageArtifact_append : stageArtifact runId (done ++ rest) index stage =
    (stageArtifact runId done index stage).or (stageArtifact runId rest index stage) :=
  find?_append

/-- A dictionary that holds the stages of a decision. -/
structure Held (runId : String) (artifacts : List ResearchArtifact) (index : ℕ)
    (stages : List (ResearchRunStage × ResearchArtifact)) : Prop where
  found : ∀ stage, find stage stages = stageArtifact runId artifacts index stage
  keys : (stages.map (·.1)).Nodup

namespace Held

theorem nil (others : ∀ artifact ∈ artifacts, decisionRow runId artifact ≠ some index) :
    Held runId artifacts index [] :=
  ⟨fun _ => (stageArtifact_eq_none others).symm, nodup_nil⟩

theorem append (held : Held runId done index stages)
    (others : ∀ artifact ∈ rest, decisionRow runId artifact ≠ some index) :
    Held runId (done ++ rest) index stages := by
  refine ⟨?_, held.keys⟩
  intro stage
  rw [stageArtifact_append, stageArtifact_eq_none others, Option.or_none, held.found]

theorem assign (held : Held runId done index stages) (single : SingleArtifacts runId (done ++ [artifact]))
    (row : decisionRow runId artifact = some index) :
    Held runId (done ++ [artifact]) index (assign artifact.stage artifact stages) := by
  refine ⟨?_, nodup_keys_assign held.keys⟩
  intro stage
  rw [find_assign, stageArtifact_append, held.found]
  have last : stageArtifact runId [artifact] index stage =
      if artifact.stage = stage then some artifact else none := by
    by_cases same : artifact.stage = stage <;> simp [stageArtifact, row, same]
  rw [last]
  by_cases same : artifact.stage = stage
  · have fresh : stageArtifact runId done index stage = none := by
      refine find?_eq_none.mpr ?_
      intro earlier member
      rw [decide_eq_true_eq]
      rintro ⟨read, stage_eq⟩
      have apart := (pairwise_append.mp single).2.2 earlier member artifact mem_cons_self index
        read row
      exact apart (stage_eq.trans same.symm)
    rw [if_pos same, if_pos same, fresh]
    rfl
  · rw [if_neg same, if_neg same, Option.or_none]

theorem subset (held : Held runId artifacts index stages) : stages.map (·.1) ⊆ decisionStages := by
  intro stage member
  obtain ⟨entry, inside, rfl⟩ := mem_map.mp member
  have found := held.found entry.1
  rw [find_of_mem held.keys inside] at found
  obtain ⟨-, row, same⟩ := stageArtifact_eq_some found.symm
  rw [← same]
  exact stage_of_decisionRow row

/-- All stages are there exactly when there are as many as stages. -/
theorem length_iff (held : Held runId artifacts index stages) : stages.length = decisionStages.length ↔
      ∀ stage ∈ decisionStages, ∃ artifact, stageArtifact runId artifacts index stage = some artifact := by
  have within := subperm_of_subset held.keys held.subset
  constructor
  · intro whole stage member
    have perm := within.perm_of_length_le (by rw [length_map, whole])
    obtain ⟨entry, inside, rfl⟩ := mem_map.mp (perm.mem_iff.mpr member)
    exact ⟨entry.2, (held.found entry.1).symm.trans (find_of_mem held.keys inside)⟩
  · intro present
    have all : decisionStages ⊆ stages.map (·.1) := by
      intro stage member
      obtain ⟨artifact, found⟩ := present stage member
      rw [← held.found] at found
      exact mem_map.mpr ⟨_, mem_of_find found, rfl⟩
    have least := (subperm_of_subset nodup_decisionStages all).length_le
    have most := within.length_le
    rw [length_map] at least most
    exact le_antisymm most least

/-- With every stage found, later artifacts change nothing. -/
theorem whole (held : Held runId done index stages) (complete : stages.length = decisionStages.length)
    (rest : List ResearchArtifact) : Held runId (done ++ rest) index stages := by
  refine ⟨?_, held.keys⟩
  intro stage
  rw [stageArtifact_append, held.found]
  by_cases decided : stage ∈ decisionStages
  · obtain ⟨artifact, found⟩ := held.length_iff.mp complete stage decided
    rw [found]
    rfl
  · have none : stageArtifact runId rest index stage = none := by
      refine find?_eq_none.mpr ?_
      intro artifact member
      rw [decide_eq_true_eq]
      rintro ⟨row, rfl⟩
      exact decided (stage_of_decisionRow row)
    rw [none, Option.or_none]

theorem completes_iff (held : Held runId artifacts index stages) :
    Completes sha256 runId artifacts index decision ↔ stages.length = decisionStages.length ∧
      (stages.all fun entry => checksumAgrees sha256 entry.2) = true ∧
      rebuildDecision runId index (fun stage => find stage stages) = .ok decision := by
  have lookup : (fun stage => find stage stages) = stageArtifact runId artifacts index :=
    funext held.found
  rw [lookup, held.length_iff, all_eq_true]
  constructor
  · intro completes
    refine ⟨?_, ?_, completes.rebuilt⟩
    · intro stage member
      obtain ⟨artifact, found, -⟩ := completes.present stage member
      exact ⟨artifact, found⟩
    · intro entry inside
      have listed := (held.found entry.1).symm.trans (find_of_mem held.keys inside)
      obtain ⟨artifact, found, valid⟩ :=
        completes.present entry.1 (held.subset (mem_map_of_mem inside))
      rw [listed] at found
      obtain rfl := Option.some.inj found
      exact valid
  · rintro ⟨present, valid, rebuilt⟩
    refine ⟨?_, rebuilt⟩
    intro stage member
    obtain ⟨artifact, found⟩ := present stage member
    refine ⟨artifact, found, ?_⟩
    rw [← held.found] at found
    exact valid (stage, artifact) (mem_of_find found)

end Held

theorem completedFrom_cons (current : List (ResearchRunStage × ResearchArtifact)) :
    completedFrom sha256 runId index current (artifact :: rest) =
      match decisionRow runId artifact with
      | none => completedFrom sha256 runId index current rest
      | some row =>
        if row < index then completedFrom sha256 runId index current rest
        else if index < row then []
        else
          let stages := assign artifact.stage artifact current
          if stages.length ≠ decisionStages.length then completedFrom sha256 runId index stages rest
          else if stages.all fun entry => checksumAgrees sha256 entry.2 then
            match rebuildDecision runId index (fun stage => find stage stages) with
            | .ok decision => decision :: completedFrom sha256 runId (index + 1) [] rest
            | .error _ => []
          else [] := by
  rw [completedFrom, decisionRow]
  split_ifs with foreign
  · rfl
  · rfl

/-- Read in the order of the decisions, the artifacts give the longest run from a decision on: by
induction on the artifacts that are left, with the stages found so far those of the decision among the
others. -/
theorem completedFrom_longest (ordered : InDecisionOrder runId (done ++ rest))
    (single : SingleArtifacts runId (done ++ rest)) (held : Held runId done index stages)
    (short : stages.length ≠ decisionStages.length) :
    LongestRun sha256 runId (done ++ rest) index (completedFrom sha256 runId index stages rest) := by
  induction rest generalizing done index stages with
  | nil =>
    rw [append_nil, completedFrom]
    exact .nil fun decision completes => short (held.completes_iff.mp completes).1
  | cons artifact rest ih =>
    have shift : done ++ artifact :: rest = done ++ [artifact] ++ rest := by simp
    have after : SingleArtifacts runId (done ++ [artifact]) := by
      rw [shift] at single
      exact (pairwise_append.mp single).1
    rw [completedFrom_cons]
    cases row : decisionRow runId artifact with
    | none =>
      have kept : Held runId (done ++ [artifact]) index stages := held.append (by simp [row])
      simp only
      rw [shift] at ordered single ⊢
      exact ih ordered single kept short
    | some found =>
      simp only
      by_cases passed : found < index
      · have kept : Held runId (done ++ [artifact]) index stages :=
          held.append (by simp [row, passed.ne])
        rw [if_pos passed]
        rw [shift] at ordered single ⊢
        exact ih ordered single kept short
      · by_cases ahead : index < found
        · -- what is left belongs to later decisions
          have later : ∀ other ∈ artifact :: rest, decisionRow runId other ≠ some index := by
            intro other member read
            have onward := (pairwise_cons.mp (pairwise_append.mp ordered).2.1).1
            rcases mem_cons.mp member with rfl | member
            · rw [row] at read
              exact ahead.ne' (Option.some.inj read)
            · exact absurd (onward other member found row index read) (not_le.mpr ahead)
          rw [if_neg passed, if_pos ahead]
          exact .nil fun decision completes => short ((held.append later).completes_iff.mp completes).1
        · obtain rfl : found = index := le_antisymm (not_lt.mp ahead) (not_lt.mp passed)
          have taken := held.assign after row
          rw [if_neg (lt_irrefl found), if_neg (lt_irrefl found)]
          rw [shift] at ordered single ⊢
          by_cases whole : (assign artifact.stage artifact stages).length = decisionStages.length
          · rw [if_neg (not_not.mpr whole)]
            have all := taken.whole whole rest
            by_cases valid : ((assign artifact.stage artifact stages).all
                fun entry => checksumAgrees sha256 entry.2) = true
            · rw [if_pos valid]
              cases rebuilt : rebuildDecision runId found
                  (fun stage => find stage (assign artifact.stage artifact stages)) with
              | error error =>
                refine .nil fun decision completes => ?_
                rw [(all.completes_iff.mp completes).2.2] at rebuilt
                cases rebuilt
              | ok decision =>
                have next : Held runId (done ++ [artifact]) (found + 1) [] := by
                  apply Held.nil
                  intro earlier member read
                  rcases mem_append.mp member with before | last
                  · have front := (pairwise_append.mp ordered).1
                    have least := (pairwise_append.mp front).2.2 earlier before artifact
                      mem_cons_self (found + 1) read found row
                    omega
                  · rw [mem_singleton.mp last, row] at read
                    exact absurd (Option.some.inj read) (Nat.ne_of_lt (Nat.lt_succ_self found))
                exact .cons (all.completes_iff.mpr ⟨whole, valid, rebuilt⟩)
                  (ih ordered single next (by decide))
            · rw [if_neg valid]
              exact .nil fun decision completes => valid (all.completes_iff.mp completes).2.1
          · rw [if_pos whole]
            exact ih ordered single taken whole

theorem completedPrefix_longest (ordered : InDecisionOrder runId artifacts)
    (single : SingleArtifacts runId artifacts) :
    LongestRun sha256 runId artifacts 0 (completedPrefix sha256 runId artifacts) := by
  have ordered : InDecisionOrder runId ([] ++ artifacts) := ordered
  exact completedFrom_longest ordered single (.nil (by simp)) (by decide)

/-- The dictionary of the decisions holds the stages of each. -/
structure Grouped (runId : String) (artifacts : List ResearchArtifact)
    (grouped : List (ℕ × List (ResearchRunStage × ResearchArtifact))) : Prop where
  held : ∀ index, Held runId artifacts index ((find index grouped).getD [])
  keys : (grouped.map (·.1)).Nodup

variable {grouped : List (ℕ × List (ResearchRunStage × ResearchArtifact))}

theorem groupArtifact_eq : groupArtifact runId grouped artifact =
    match decisionRow runId artifact with
    | none => grouped
    | some index => assign index
        (assign artifact.stage artifact ((find index grouped).getD [])) grouped := by
  unfold groupArtifact decisionRow
  by_cases foreign : artifact.runId ≠ runId ∨ artifact.decisionId = none
  · rw [if_pos foreign, if_pos (foreign.imp_right Or.inl)]
  · rw [if_neg foreign]
    by_cases undecided : artifact.stage ∉ decisionStages
    · rw [if_pos (.inr (.inr undecided))]
      simp only [if_pos undecided]
      cases decisionArtifactIndex runId artifact.artifactId <;> rfl
    · rw [if_neg (by tauto)]
      simp only [if_neg undecided]

theorem groupDecisionArtifacts_grouped (single : SingleArtifacts runId artifacts) :
    Grouped runId artifacts (groupDecisionArtifacts runId artifacts) := by
  induction artifacts using reverseRecOn with
  | nil => exact ⟨fun _ => .nil (by simp), nodup_nil⟩
  | append_singleton done artifact ih =>
    have grouped := ih (pairwise_append.mp single).1
    have turn : groupDecisionArtifacts runId (done ++ [artifact]) =
        groupArtifact runId (groupDecisionArtifacts runId done) artifact := by
      simp [groupDecisionArtifacts]
    rw [turn, groupArtifact_eq]
    cases row : decisionRow runId artifact with
    | none => exact ⟨fun index => (grouped.held index).append (by simp [row]), grouped.keys⟩
    | some found =>
      refine ⟨?_, nodup_keys_assign grouped.keys⟩
      intro index
      simp only [find_assign]
      by_cases same : found = index
      · subst same
        rw [if_pos rfl]
        exact (grouped.held found).assign single row
      · rw [if_neg same]
        exact (grouped.held index).append (by simp [row, same])

/-- The loop reads the longest run, and has enough turns: the decisions it has walked are all in the
dictionary. -/
theorem completedLoop_longest (held : Grouped runId artifacts grouped) {fuel : ℕ}
    (walked : ∀ place < index, place ∈ grouped.map (·.1)) (enough : grouped.length ≤ index + fuel) :
    LongestRun sha256 runId artifacts index (completedLoop sha256 runId grouped fuel index) := by
  induction fuel generalizing index with
  | zero =>
    -- there would be more decisions than the dictionary has
    have absent : find index grouped = none := by
      cases found : find index grouped with
      | none => rfl
      | some stages =>
        have listed : index ∈ grouped.map (·.1) := mem_map.mpr ⟨_, mem_of_find found, rfl⟩
        have within : range (index + 1) ⊆ grouped.map (·.1) := by
          intro place member
          rcases Nat.lt_or_eq_of_le (Nat.lt_succ_iff.mp (mem_range.mp member)) with less | rfl
          · exact walked place less
          · exact listed
        have bound := (subperm_of_subset nodup_range within).length_le
        rw [length_range, length_map] at bound
        omega
    have none := held.held index
    rw [absent] at none
    exact .nil fun decision completes => absurd (none.completes_iff.mp completes).1 (by decide)
  | succ fuel ih =>
    have stages_held := held.held index
    rw [completedLoop]
    cases found : find index grouped with
    | none =>
      rw [found] at stages_held
      exact .nil fun decision completes => absurd (stages_held.completes_iff.mp completes).1 (by decide)
    | some stages =>
      rw [found, Option.getD_some] at stages_held
      simp only
      by_cases whole : stages.length = decisionStages.length
      · rw [if_neg (not_not.mpr whole)]
        by_cases valid : (stages.all fun entry => checksumAgrees sha256 entry.2) = true
        · rw [if_pos valid]
          cases rebuilt : rebuildDecision runId index (fun stage => find stage stages) with
          | error error =>
            refine .nil fun decision completes => ?_
            rw [(stages_held.completes_iff.mp completes).2.2] at rebuilt
            cases rebuilt
          | ok decision =>
            refine .cons (stages_held.completes_iff.mpr ⟨whole, valid, rebuilt⟩) (ih ?_ (by omega))
            intro place less
            rcases Nat.lt_or_eq_of_le (Nat.lt_succ_iff.mp less) with before | rfl
            · exact walked place before
            · exact mem_map.mpr ⟨_, mem_of_find found, rfl⟩
        · rw [if_neg valid]
          exact .nil fun decision completes => valid (stages_held.completes_iff.mp completes).2.1
      · rw [if_pos whole]
        exact .nil fun decision completes => whole (stages_held.completes_iff.mp completes).1

/-- Read as a whole, the artifacts may come in any order. -/
theorem completedDecisionPrefix_longest (single : SingleArtifacts runId artifacts) :
    LongestRun sha256 runId artifacts 0 (completedDecisionPrefix sha256 runId artifacts) :=
  completedLoop_longest (groupDecisionArtifacts_grouped single) (by simp) (by simp)

/-- Where the artifacts of a decision follow those of the one before it, the order of the sequence is the
order of the decisions. -/
theorem inDecisionOrder_of_sequence (ascending : artifacts.Pairwise (·.sequence ≤ ·.sequence))
    (sequenced : ∀ artifact ∈ artifacts, ∀ index ∈ decisionRow runId artifact,
      artifact.sequence / decisionStages.length = index) : InDecisionOrder runId artifacts := by
  refine ascending.imp_of_mem ?_
  intro artifact later member member' before index row next row'
  rw [← sequenced artifact member index row, ← sequenced later member' next row']
  exact Nat.div_le_div_right before

theorem decisionRows_of_decisionArtifacts (named : decision.decisionId = expectedDecisionId runId index)
    (persisted : decisionArtifacts sha256 runId index decision [] = some artifacts) :
    DecisionRows sha256 runId index decision artifacts := by
  obtain ⟨stages, sequences, each⟩ := artifactsFrom_spec persisted
  exact ⟨named, stages, sequences, each⟩

/-- The artifacts of a decision are in order. -/
theorem DecisionRows.inDecisionOrder (whole : DecisionRows sha256 runId index decision artifacts) :
    InDecisionOrder runId artifacts := by
  have own : ∀ row ∈ artifacts, ∀ place ∈ decisionRow runId row, place = index := by
    intro row member place read
    rw [decisionRow, (whole.each row member).artifactId, decisionArtifactIndex_eq] at read
    split_ifs at read <;> cases read
    rfl
  refine pairwise_of_forall_mem_list ?_
  intro row member later member' place read next read'
  rw [own row member place read, own later member' next read']

theorem DecisionRows.singleArtifacts (whole : DecisionRows sha256 runId index decision artifacts) :
    SingleArtifacts runId artifacts := by
  have apart : (artifacts.map (·.stage)).Nodup := whole.stages ▸ nodup_decisionStages
  exact (pairwise_map.mp apart).imp fun differ _ _ _ => differ

theorem DecisionRows.completedPrefix_eq (whole : DecisionRows sha256 runId 0 decision artifacts) :
    completedPrefix sha256 runId artifacts = [decision] := by
  cases artifacts with
  | nil => cases whole.length_eq
  | cons artifact remaining =>
    have read : completedFrom sha256 runId 0 [] (artifact :: remaining ++ []) =
        decision :: completedFrom sha256 runId 1 [] [] :=
      whole.completedFrom_eq (by decide) (nil_append (artifact :: remaining))
    rw [append_nil] at read
    exact read

/-- An earlier artifact of another decision does not matter. -/
theorem Completes.cons (completes : Completes sha256 runId artifacts index decision)
    (foreign : decisionRow runId artifact ≠ some index) :
    Completes sha256 runId (artifact :: artifacts) index decision := by
  have same : stageArtifact runId (artifact :: artifacts) index = stageArtifact runId artifacts index := by
    funext stage
    simp [stageArtifact, foreign]
  refine ⟨?_, same ▸ completes.rebuilt⟩
  intro stage member
  rw [same]
  exact completes.present stage member

def namedPurchase : DecisionBundle :=
  { filledPurchase with decisionId := expectedDecisionId "RR" 0 }

def purchaseRows : List ResearchArtifact :=
  (decisionArtifacts digest "RR" 0 namedPurchase []).getD []

theorem decisionRows_purchaseRows : DecisionRows digest "RR" 0 namedPurchase purchaseRows := by
  have finite : ∀ stage ∈ decisionStages,
      Text.Json.fieldsFinite (namedPurchase.artifactFields stage) = true := by
    decide +kernel
  obtain ⟨artifacts, persisted⟩ := @exists_decisionArtifacts digest "RR" 0 namedPurchase finite
  have same : purchaseRows = artifacts := by rw [purchaseRows, persisted, Option.getD_some]
  rw [same]
  exact decisionRows_of_decisionArtifacts rfl persisted

theorem completes_purchaseRows : Completes digest "RR" purchaseRows 0 namedPurchase := by
  have alone := @completedPrefix_longest digest "RR" purchaseRows decisionRows_purchaseRows.inDecisionOrder
    decisionRows_purchaseRows.singleArtifacts
  rw [decisionRows_purchaseRows.completedPrefix_eq] at alone
  exact alone.completed 0 _ rfl

/-- An artifact of the second decision. -/
def strayArtifact : ResearchArtifact where
  artifactId := "RR:A:00000001:universe"
  runId := "RR"
  decisionId := some "RR:D:00000001"
  sequence := 0
  stage := .universe
  traceId := ""
  parentTraceIds := []
  payloadJson := []
  checksum := ""

/-- Artifacts whose payloads are empty objects, with valid checksums. -/
def emptyArtifacts : List ResearchArtifact :=
  purchaseRows.map fun artifact => { artifact with payloadJson := "{}".toList }

theorem present_emptyArtifacts : Present digest "RR" emptyArtifacts 0 := by
  have read : (Text.Json.loads "{}".toList).bind (stableChecksum digest) = some (digest []) := by decide +kernel
  intro stage member
  obtain ⟨row, found, -⟩ := completes_purchaseRows.present stage member
  refine ⟨{ row with payloadJson := "{}".toList }, ?_, ?_⟩
  · rw [stageArtifact, emptyArtifacts, find?_map]
    exact congrArg (Option.map _) found
  · have checksum : row.checksum = digest [] :=
      (decisionRows_purchaseRows.each row (mem_of_find?_eq_some found)).checksum
    rw [checksumAgrees, read, checksum]
    exact decide_eq_true rfl

end FinDashboard.Research
