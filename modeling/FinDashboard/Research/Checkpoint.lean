import FinDashboard.Research.Artifacts

/-!
# Decisions rebuilt from their artifacts

The payload of each stage is read back and the decision is put together from them. A decision
comes back as it was persisted.
-/

namespace FinDashboard.Research

open List Option

open FinDashboard.Text (Date DateTime Decimal Json PyFloat)
open Decode

/-- The artifacts of one decision by stage. -/
abbrev StageArtifacts := ResearchRunStage → Option ResearchArtifact

section Rebuild

variable (runId label : String)

def readStage (byStage : StageArtifacts) (stage : ResearchRunStage) : Rebuilt (List (String × Json)) :=
  match byStage stage with
  | none => .error (.missingStage stage)
  | some artifact =>
    if artifact.runId ≠ runId then .error (.foreignRun label)
    else
      match Json.loads artifact.payloadJson with
      | none => .error (.unreadable stage)
      | some payload => mapping s!"{label} {stage.value} payload" payload

/-- The records under a key of a payload. -/
def rebuildItems {α : Type} (rebuild : String → Json → Rebuilt α) (place key name : String)
    (fields : List (String × Json)) : Rebuilt (List α) := do
  items rebuild s!"{label} {name}" 0 (← list label (← field s!"{label} {place}" key fields))

def rebuildDecision (decisionIndex : ℕ) (byStage : StageArtifacts) : Rebuilt DecisionBundle := do
  let label := s!"run={runId} decision#{decisionIndex}"
  let universeStage ← readStage runId label byStage .universe
  let featuresStage ← readStage runId label byStage .features
  let signalsStage ← readStage runId label byStage .signals
  let targetsBefore ← readStage runId label byStage .targetsBeforeConstraints
  let constraintsStage ← readStage runId label byStage .constraints
  let targetsAfter ← readStage runId label byStage .targetsAfterConstraints
  let riskStage ← readStage runId label byStage .riskExits
  let targetsRisk ← readStage runId label byStage .targetsAfterRisk
  let feasibility ← readStage runId label byStage .capitalFeasibility
  let plan ← readStage runId label byStage .rebalancePlan
  let ordersStage ← readStage runId label byStage .orders
  let fillsStage ← readStage runId label byStage .fills
  let ledgerStage ← readStage runId label byStage .ledger
  let businessDate ←
    date s!"{label} business_date" (← field s!"{label} universe" "business_date" universeStage)
  let decisionAt ←
    datetime s!"{label} decision_at" (← field s!"{label} universe" "decision_at" universeStage)
  let candidates ←
    rebuildItems label rebuildCandidate "universe" "candidates" "candidates" universeStage
  let features ← rebuildItems label rebuildFeature "features" "features" "features" featuresStage
  let signals ← rebuildItems label rebuildSignal "signals" "signals" "signals" signalsStage
  let targetsBeforeConstraints ←
    rebuildTargets label (← field s!"{label} targets_before" "targets" targetsBefore)
  let constraints ← rebuildItems label rebuildConstraint "constraints" "constraints" "constraints"
    constraintsStage
  let targetsAfterConstraints ←
    rebuildTargets label (← field s!"{label} targets_after_c" "targets" targetsAfter)
  let riskExits ←
    rebuildItems label rebuildRiskExit "risk_exits" "outcomes" "risk_exits" riskStage
  let targetsAfterRisk ←
    rebuildTargets label (← field s!"{label} targets_after_risk" "targets" targetsRisk)
  let riskState ← rebuildRiskState label (← field s!"{label} risk_exits" "state" riskStage)
  let capitalFeasibility ←
    rebuildItems label rebuildTier "feasibility" "tiers" "tiers" feasibility
  let rebalancePlan ←
    rebuildItems label rebuildInstruction "plan" "instructions" "instructions" plan
  let orders ← rebuildItems label rebuildOrder "orders" "orders" "orders" ordersStage
  let fills ← rebuildItems label rebuildFill "fills" "fills" "fills" fillsStage
  let positions ←
    rebuildItems label rebuildPosition "ledger" "positions" "positions" ledgerStage
  let ledger ← rebuildLedger label (← field s!"{label} ledger" "ledger" ledgerStage)
  let pipelineEvidence ← optional (rebuildEvidence label)
    (← field s!"{label} ledger" "pipeline_evidence" ledgerStage)
  let recorded := ((byStage .universe).bind (·.decisionId)).getD ""
  let decisionId := if recorded = "" then expectedDecisionId runId decisionIndex else recorded
  if valid : businessDate.ordinalKey ≤ decisionAt.date.ordinalKey ∧ candidates ≠ [] ∧
      (candidates.map (·.symbol)).Nodup ∧ (orders.map (·.researchOrderId)).Nodup ∧
        (fills.map (·.researchFillId)).Nodup ∧
          (positions.map fun position => (position.symbol, position.positionSide)).Nodup ∧
            (capitalFeasibility.map (·.tier)).Nodup then
    .ok
      { businessDate := businessDate, decisionAt := decisionAt, candidates := candidates
        features := features, signals := signals
        targetsBeforeConstraints := targetsBeforeConstraints, constraints := constraints
        targetsAfterConstraints := targetsAfterConstraints, riskExits := riskExits
        targetsAfterRisk := targetsAfterRisk, riskState := riskState
        capitalFeasibility := capitalFeasibility, rebalancePlan := rebalancePlan
        orders := orders, fills := fills, positions := positions, ledger := ledger
        pipelineEvidence := pipelineEvidence, decisionId := decisionId, valid := valid }
  else .error .refused

end Rebuild

namespace DecisionBundle

/-- The payload of a stage as it is read back: its keys are in order. -/
def storedPayload (decision : DecisionBundle) (stage : ResearchRunStage) : List (String × Json) :=
  Json.sortFields (Json.sortedFields (decision.artifactFields stage))

end DecisionBundle

section Payloads

variable {decision : DecisionBundle} {stage : ResearchRunStage} {label place name key : String}
  {α : Type}

theorem nodup_keys_artifactFields (decision : DecisionBundle) (stage : ResearchRunStage) :
    ((decision.artifactFields stage).map (·.1)).Nodup := by
  cases stage <;> simp [DecisionBundle.artifactFields, DecisionBundle.stagePayload]

theorem field_storedPayload {value : Json}
    (found : Ledger.find key (decision.artifactFields stage) = some value) :
    field place key (decision.storedPayload stage) = .ok value.sorted := by
  rw [DecisionBundle.storedPayload, field_sorted (nodup_keys_artifactFields decision stage), found]

theorem rebuildItems_storedPayload {encode : α → Json} {values : List α}
    {rebuild : String → Json → Rebuilt α}
    (back : ∀ label value, rebuild label (encode value).sorted = .ok value)
    (found : Ledger.find key (decision.artifactFields stage) = some (Encode.list encode values)) :
    rebuildItems label rebuild place key name (decision.storedPayload stage) = .ok values := by
  have read := @field_storedPayload decision stage s!"{label} {place}" key _ found
  simp only [rebuildItems, read, ok_bind, list_encode]
  exact items_encode back _ 0 values

theorem optional_encode {encode : α → Json} {decode : Json → Rebuilt α}
    (back : ∀ value, decode (encode value).sorted = .ok value)
    (given : ∀ value, (encode value).sorted ≠ .null) (value : Option α) :
    Decode.optional decode (Encode.optional encode value).sorted = .ok value := by
  cases value with
  | none => rfl
  | some value =>
    have read := back value
    rw [Encode.optional]
    cases kind : (encode value).sorted with
    | null => exact absurd kind (given value)
    | _ => simp only [Decode.optional, ← kind, read]; rfl

variable (decision : DecisionBundle) (label place : String)

theorem businessDate_storedPayload :
    field place "business_date" (decision.storedPayload .universe) =
      .ok (Encode.date decision.businessDate).sorted :=
  field_storedPayload rfl

theorem decisionAt_storedPayload :
    field place "decision_at" (decision.storedPayload .universe) =
      .ok (Encode.datetime decision.decisionAt).sorted :=
  field_storedPayload rfl

theorem candidates_storedPayload :
    rebuildItems label rebuildCandidate "universe" "candidates" "candidates"
      (decision.storedPayload .universe) = .ok decision.candidates :=
  rebuildItems_storedPayload rebuildCandidate_toJson rfl

theorem features_storedPayload :
    rebuildItems label rebuildFeature "features" "features" "features"
      (decision.storedPayload .features) = .ok decision.features :=
  rebuildItems_storedPayload rebuildFeature_toJson rfl

theorem signals_storedPayload :
    rebuildItems label rebuildSignal "signals" "signals" "signals"
      (decision.storedPayload .signals) = .ok decision.signals :=
  rebuildItems_storedPayload rebuildSignal_toJson rfl

theorem constraints_storedPayload :
    rebuildItems label rebuildConstraint "constraints" "constraints" "constraints"
      (decision.storedPayload .constraints) = .ok decision.constraints :=
  rebuildItems_storedPayload rebuildConstraint_toJson rfl

theorem riskExits_storedPayload :
    rebuildItems label rebuildRiskExit "risk_exits" "outcomes" "risk_exits"
      (decision.storedPayload .riskExits) = .ok decision.riskExits :=
  rebuildItems_storedPayload rebuildRiskExit_toJson rfl

theorem capitalFeasibility_storedPayload :
    rebuildItems label rebuildTier "feasibility" "tiers" "tiers"
      (decision.storedPayload .capitalFeasibility) = .ok decision.capitalFeasibility :=
  rebuildItems_storedPayload rebuildTier_toJson rfl

theorem rebalancePlan_storedPayload :
    rebuildItems label rebuildInstruction "plan" "instructions" "instructions"
      (decision.storedPayload .rebalancePlan) = .ok decision.rebalancePlan :=
  rebuildItems_storedPayload rebuildInstruction_toJson rfl

theorem orders_storedPayload :
    rebuildItems label rebuildOrder "orders" "orders" "orders"
      (decision.storedPayload .orders) = .ok decision.orders :=
  rebuildItems_storedPayload rebuildOrder_toJson rfl

theorem fills_storedPayload :
    rebuildItems label rebuildFill "fills" "fills" "fills"
      (decision.storedPayload .fills) = .ok decision.fills :=
  rebuildItems_storedPayload rebuildFill_toJson rfl

theorem positions_storedPayload :
    rebuildItems label rebuildPosition "ledger" "positions" "positions"
      (decision.storedPayload .ledger) = .ok decision.positions :=
  rebuildItems_storedPayload rebuildPosition_toJson rfl

theorem targetsBeforeConstraints_storedPayload :
    field place "targets" (decision.storedPayload .targetsBeforeConstraints) =
      .ok (Encode.list TargetPosition.toJson decision.targetsBeforeConstraints).sorted :=
  field_storedPayload rfl

theorem targetsAfterConstraints_storedPayload :
    field place "targets" (decision.storedPayload .targetsAfterConstraints) =
      .ok (Encode.list TargetPosition.toJson decision.targetsAfterConstraints).sorted :=
  field_storedPayload rfl

theorem targetsAfterRisk_storedPayload :
    field place "targets" (decision.storedPayload .targetsAfterRisk) =
      .ok (Encode.list TargetPosition.toJson decision.targetsAfterRisk).sorted :=
  field_storedPayload rfl

theorem riskState_storedPayload :
    field place "state" (decision.storedPayload .riskExits) =
      .ok decision.riskState.toJson.sorted :=
  field_storedPayload rfl

theorem ledger_storedPayload :
    field place "ledger" (decision.storedPayload .ledger) = .ok decision.ledger.toJson.sorted :=
  field_storedPayload rfl

theorem pipelineEvidence_storedPayload :
    field place "pipeline_evidence" (decision.storedPayload .ledger) =
      .ok (Encode.optional ResearchPipelineEvidence.toJson decision.pipelineEvidence).sorted :=
  field_storedPayload rfl

end Payloads

/-- The artifacts of a decision at its place of a run, by stage. -/
structure Kept (runId : String) (decisionIndex : ℕ) (decision : DecisionBundle)
    (byStage : StageArtifacts) : Prop where
  named : decision.decisionId = expectedDecisionId runId decisionIndex
  stages : ∀ stage ∈ decisionStages, ∃ artifact, byStage stage = some artifact ∧
    artifact.runId = runId ∧ artifact.decisionId = some decision.decisionId ∧
      (Json.obj (decision.artifactFields stage)).dumps = some artifact.payloadJson

section Kept

variable {runId : String} {decisionIndex : ℕ} {decision : DecisionBundle} {byStage : StageArtifacts}

theorem mem_decisionStages {stage : ResearchRunStage} (decided : stage ≠ .report) :
    stage ∈ decisionStages := by
  cases stage <;> first | decide | exact absurd rfl decided

theorem Kept.readStage_eq (kept : Kept runId decisionIndex decision byStage) (label : String)
    {stage : ResearchRunStage} (decided : stage ≠ .report) :
    readStage runId label byStage stage = .ok (decision.storedPayload stage) := by
  obtain ⟨artifact, found, same, -, written⟩ := kept.stages stage (mem_decisionStages decided)
  have loaded := Json.loads_dumps written
  simp only [readStage, found, same, ne_eq, not_true_eq_false, if_false, loaded]
  rfl

theorem Kept.recorded_eq (kept : Kept runId decisionIndex decision byStage) :
    ((byStage .universe).bind (·.decisionId)).getD "" = decision.decisionId := by
  obtain ⟨artifact, found, -, recorded, -⟩ := kept.stages .universe (by decide)
  rw [found, bind_some, recorded, getD_some]

theorem Kept.rebuildDecision_eq (kept : Kept runId decisionIndex decision byStage) :
    rebuildDecision runId decisionIndex byStage = .ok decision := by
  have named : (if decision.decisionId = "" then expectedDecisionId runId decisionIndex
      else decision.decisionId) = decision.decisionId := by
    split
    · exact kept.named.symm
    · rfl
  have evidence := fun label => optional_encode (rebuildEvidence_toJson label) nofun
    decision.pipelineEvidence
  have read : ∀ label, ∀ stage ≠ .report,
      readStage runId label byStage stage = .ok (decision.storedPayload stage) :=
    fun label _ decided => kept.readStage_eq label decided
  simp only [rebuildDecision, read, ne_eq, reduceCtorEq, not_false_eq_true, ok_bind, date_encode,
    datetime_encode, rebuildTargets_encode, rebuildRiskState_toJson, rebuildLedger_toJson, evidence,
    businessDate_storedPayload, decisionAt_storedPayload, candidates_storedPayload,
    features_storedPayload, signals_storedPayload, targetsBeforeConstraints_storedPayload,
    constraints_storedPayload, targetsAfterConstraints_storedPayload, riskExits_storedPayload,
    targetsAfterRisk_storedPayload, riskState_storedPayload, capitalFeasibility_storedPayload,
    rebalancePlan_storedPayload, orders_storedPayload, fills_storedPayload,
    positions_storedPayload, ledger_storedPayload, pipelineEvidence_storedPayload,
    kept.recorded_eq, named]
  exact dif_pos decision.valid

end Kept

def collectStages (found : List (ResearchRunStage × ResearchArtifact)) :
    List ResearchArtifact → List (ResearchRunStage × ResearchArtifact)
  | [] => found
  | artifact :: rest => collectStages (Ledger.assign artifact.stage artifact found) rest

def stageArtifacts (artifacts : List ResearchArtifact) : StageArtifacts := fun stage =>
  Ledger.find stage (collectStages [] artifacts)

section Collect

variable {stage : ResearchRunStage} {found : List (ResearchRunStage × ResearchArtifact)}
  {artifact : ResearchArtifact}

theorem mem_of_find_collectStages {artifacts : List ResearchArtifact}
    (last : Ledger.find stage (collectStages found artifacts) = some artifact) :
    (artifact ∈ artifacts ∧ artifact.stage = stage) ∨ Ledger.find stage found = some artifact := by
  induction artifacts generalizing found with
  | nil => exact .inr last
  | cons first rest ih =>
    rcases ih last with ⟨member, same⟩ | early
    · exact .inl ⟨mem_cons_of_mem _ member, same⟩
    · rw [Ledger.find_assign] at early
      split_ifs at early with same
      · cases early
        exact .inl ⟨mem_cons_self, same⟩
      · exact .inr early

theorem find_collectStages_isSome {artifacts : List ResearchArtifact}
    (some_artifact : stage ∈ artifacts.map (·.stage) ∨ (Ledger.find stage found).isSome) :
    (Ledger.find stage (collectStages found artifacts)).isSome := by
  induction artifacts generalizing found with
  | nil => exact some_artifact.resolve_left (not_mem_nil)
  | cons first rest ih =>
    apply ih
    rw [Ledger.find_assign]
    by_cases same : first.stage = stage
    · exact .inr (by rw [if_pos same, isSome_some])
    · rw [if_neg same]
      refine some_artifact.imp_left fun member => ?_
      exact (mem_cons.mp member).resolve_left (Ne.symm same)

theorem stageArtifacts_of_mem {artifacts : List ResearchArtifact}
    (member : stage ∈ artifacts.map (·.stage)) : ∃ artifact ∈ artifacts, artifact.stage = stage ∧
      stageArtifacts artifacts stage = some artifact := by
  have some_artifact := @find_collectStages_isSome stage [] artifacts (.inl member)
  obtain ⟨artifact, last⟩ := isSome_iff_exists.mp some_artifact
  rcases mem_of_find_collectStages last with ⟨member, same⟩ | early
  · exact ⟨artifact, member, same, last⟩
  · cases early

end Collect

section Persisted

variable {sha256 : List Char → String} {runId : String} {decisionIndex : ℕ}
  {decision : DecisionBundle} {fragments : List (String × List Char)} {artifact : ResearchArtifact}

/-- What the artifact of a stage of a decision holds. -/
structure RowOf (sha256 : List Char → String) (runId : String) (decisionIndex : ℕ)
    (decision : DecisionBundle) (fragments : List (String × List Char))
    (artifact : ResearchArtifact) : Prop where
  artifactId : artifact.artifactId = runId ++ ":A:" ++ stableSuffix decisionIndex artifact.stage
  runId : artifact.runId = runId
  decisionId : artifact.decisionId = some decision.decisionId
  payload : canonicalJsonText fragments (decision.artifactFields artifact.stage) =
    some artifact.payloadJson
  checksum : artifact.checksum = sha256 artifact.payloadJson

theorem artifactsFrom_spec {stages : List ResearchRunStage} {offset : ℕ} {parents : List String}
    {artifacts : List ResearchArtifact}
    (persisted : artifactsFrom sha256 runId decisionIndex decision fragments offset parents stages =
      some artifacts) : artifacts.map (·.stage) = stages ∧ artifacts.map (·.sequence) =
        range' (decisionIndex * decisionStages.length + offset) stages.length ∧
      ∀ artifact ∈ artifacts, RowOf sha256 runId decisionIndex decision fragments artifact := by
  induction stages generalizing offset parents artifacts with
  | nil =>
    cases persisted
    exact ⟨rfl, rfl, forall_mem_nil _⟩
  | cons stage stages ih =>
    rw [artifactsFrom, artifactOf] at persisted
    cases text : canonicalJsonText fragments (decision.artifactFields stage) with
    | none =>
      rw [text] at persisted
      cases persisted
    | some payload =>
      rw [text, map_some, bind_eq_bind, bind_some] at persisted
      obtain ⟨others, more, same⟩ := bind_eq_some_iff.mp persisted
      cases same
      obtain ⟨stages_eq, sequences_eq, each⟩ := ih more
      refine ⟨congrArg (stage :: ·) stages_eq, ?_, ?_⟩
      · rw [map_cons, sequences_eq, length_cons, range'_succ]
        rfl
      intro artifact member
      rcases mem_cons.mp member with rfl | later
      · exact ⟨rfl, rfl, rfl, text, rfl⟩
      · exact each artifact later

theorem kept_of_decisionArtifacts {artifacts : List ResearchArtifact}
    (named : decision.decisionId = expectedDecisionId runId decisionIndex)
    (canonical : ∀ stage ∈ decisionStages, Canonical fragments (decision.artifactFields stage))
    (persisted : decisionArtifacts sha256 runId decisionIndex decision fragments = some artifacts) :
    Kept runId decisionIndex decision (stageArtifacts artifacts) := by
  obtain ⟨stages_eq, -, each⟩ := artifactsFrom_spec persisted
  refine ⟨named, ?_⟩
  intro stage member
  rw [← stages_eq] at member
  obtain ⟨artifact, inside, rfl, found⟩ := stageArtifacts_of_mem member
  have row := each artifact inside
  refine ⟨artifact, found, row.runId, row.decisionId, ?_⟩
  rw [← canonicalJsonText_eq_dumps (canonical artifact.stage (stages_eq ▸ member))]
  exact row.payload

theorem withDecisionId_eq {raw : DecisionBundle}
    (given : withDecisionId runId decisionIndex raw = some decision) :
    decision = { raw with decisionId := expectedDecisionId runId decisionIndex } := by
  unfold withDecisionId at given
  split_ifs at given
  exact (some.inj given).symm

theorem canonical_nil (payload : List (String × Json)) : Canonical [] payload := nofun

theorem exists_artifactsFrom {stages : List ResearchRunStage}
    (finite : ∀ stage ∈ stages, Json.fieldsFinite (decision.artifactFields stage) = true)
    (offset : ℕ) (parents : List String) :
    ∃ artifacts, artifactsFrom sha256 runId decisionIndex decision [] offset parents stages =
      some artifacts := by
  induction stages generalizing offset parents with
  | nil => exact ⟨[], rfl⟩
  | cons stage stages ih =>
    obtain ⟨others, more⟩ := ih (fun stage member => finite stage (mem_cons_of_mem _ member))
      (offset + 1) [traceId sha256 decisionIndex stage]
    have text := canonicalJsonText_eq_dumps (canonical_nil (decision.artifactFields stage))
    rw [Json.dumps, Json.isFinite, finite stage mem_cons_self, if_pos rfl] at text
    rw [artifactsFrom, artifactOf, text, map_some, bind_eq_bind, bind_some]
    simp only [more]
    exact ⟨_, rfl⟩

/-- A decision without infinite or undefined floats is persisted. -/
theorem exists_decisionArtifacts
    (finite : ∀ stage ∈ decisionStages, Json.fieldsFinite (decision.artifactFields stage) = true) :
    ∃ artifacts, decisionArtifacts sha256 runId decisionIndex decision [] = some artifacts :=
  exists_artifactsFrom finite 0 []

end Persisted

namespace Purchase

theorem january : 1 ≤ 1 ∧ 1 ≤ 12 := by decide

def date : Date where
  year := 2024
  month := 1
  day := 2
  yearBound := by decide
  monthBound := january
  dayBound := by decide

def decidedAt : DateTime where
  date := date
  clock := .zero
  offset := { negative := false, size := .zero, signed := nofun }

def amount (n : ℕ) : Decimal := .finite false n 0

def zero : PyFloat := .finite false { coefficient := 0, exponent := 0, shortest := by decide }

def percent : PyFloat := .finite false { coefficient := 1, exponent := -2, shortest := by decide }

def target : TargetPosition where
  symbol := "600000.SH"
  weight := percent
  positionSide := .long
  signed := by decide +kernel

def tier (name : String) (capital : ℕ) (valid : name ≠ "" ∧ capital ≠ 0) : CapitalTierOutcome where
  tier := name
  capital := amount capital
  feasible := true
  cashUtilization := percent
  trackingError := zero
  unfillableSymbols := []
  capacityPressure := zero
  marginRequired := amount 0
  estimatedCosts := amount 0
  reasons := ["feasible"]
  inputChecksum := "inputs"
  valid := ⟨⟨valid.1, by decide, by decide⟩, ⟨rfl, valid.2⟩, ⟨by decide, by decide⟩,
    by decide +kernel, by decide +kernel, by decide +kernel⟩

def instruction : RebalanceInstruction where
  instructionId := "RR-I1"
  symbol := "600000.SH"
  action := .openLong
  targetQuantity := amount 100
  currentQuantity := amount 0
  deltaQuantity := amount 100
  lotSize := 100
  estimatedValue := amount 1000
  reason := "target"
  valid := by decide

def order (status : ResearchOrderStatus) (accepted : status ≠ .rejected) : ResearchOrder where
  researchOrderId := "RR-O1"
  instructionId := "RR-I1"
  symbol := "600000.SH"
  action := .openLong
  quantity := amount 100
  status := status
  rejectReason := none
  valid := ⟨by decide, by decide, fun rejected => absurd rejected accepted⟩

def fill : ResearchFill where
  researchFillId := "RR-F1"
  researchOrderId := "RR-O1"
  symbol := "600000.SH"
  action := .openLong
  quantity := amount 100
  price := amount 10
  commission := amount 0
  tax := amount 0
  slippage := amount 0
  filledAt := decidedAt
  valid := by decide

def position : ResearchPosition where
  symbol := "600000.SH"
  positionSide := .long
  quantity := amount 100
  averagePrice := amount 10
  marketPrice := amount 10
  marketValue := amount 1000
  realizedPnl := amount 0
  unrealizedPnl := amount 0
  marginUsed := amount 0
  valid := by decide

/-- Hundred shares are bought for ten each; the order has a status. -/
def decision (status : ResearchOrderStatus) (accepted : status ≠ .rejected)
    (evidence : Option ResearchPipelineEvidence) : DecisionBundle where
  businessDate := date
  decisionAt := decidedAt
  candidates :=
    [ { symbol := "600000.SH", included := true, reasons := ["liquid"], assetClass := "stock"
        market := "CN", explained := by decide } ]
  features := []
  signals :=
    [ { symbol := "600000.SH", score := percent, action := "buy", ruleId := "momentum"
        factorSnapshotId := none, rationale := "rising", valid := by decide } ]
  targetsBeforeConstraints := [target]
  constraints :=
    [ { constraint := "max_weight", passed := true, beforeValue := some percent
        afterValue := some percent, limit := none, reason := "within", hard := true, symbol := none
        explained := by decide } ]
  targetsAfterConstraints := [target]
  riskExits := []
  targetsAfterRisk := [target]
  riskState :=
    { cooldownUntil := .ofEntries [], openedOn := .ofEntries [("600000.SH", date)]
      highWaterPrices := .ofEntries [], portfolioEquityHighWater := amount 100000
      portfolioDrawdown := zero, portfolioPaused := false, stateVersion := "v1"
      valid := by decide +kernel }
  capitalFeasibility :=
    [ tier "100k" 100000 (by decide), tier "200k" 200000 (by decide),
      tier "500k" 500000 (by decide) ]
  rebalancePlan := [instruction]
  orders := [order status accepted]
  fills := [fill]
  positions := [position]
  ledger :=
    { cash := amount 99000, marketValue := amount 1000, marginUsed := amount 0
      realizedPnl := amount 0, unrealizedPnl := amount 0, equity := amount 100000
      feesPaid := amount 0, taxPaid := amount 0, slippagePaid := amount 0
      fillShortfall := amount 0, valid := by decide +kernel }
  pipelineEvidence := evidence
  decisionId := ""
  valid := ⟨by decide, cons_ne_nil _ _, nodup_singleton _, nodup_singleton _,
    nodup_singleton _, nodup_singleton _, by decide⟩

end Purchase

end FinDashboard.Research
