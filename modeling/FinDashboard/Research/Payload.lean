import FinDashboard.Research.Contracts
import FinDashboard.Text.Json

/-!
# The payloads of a decision

`to_json_value` of the records, field by field in the order of their declaration, and the payloads
of the stages. The symbol of a constraint outcome is left out where there is none.
-/

namespace FinDashboard.Research

open FinDashboard.Text (Date DateTime Decimal Json PyFloat)

namespace Encode

def string (value : String) : Json := .str value

def bool (value : Bool) : Json := .bool value

def int (value : ℤ) : Json := .int value

def float (value : PyFloat) : Json := .float value

def decimal (value : Decimal) : Json := .str (String.ofList value.str)

def date (value : Date) : Json := .str (String.ofList value.isoformat)

def datetime (value : DateTime) : Json := .str (String.ofList value.isoformat)

def optional {α : Type} (encode : α → Json) : Option α → Json
  | none => .null
  | some value => encode value

def list {α : Type} (encode : α → Json) (items : List α) : Json := .arr (items.map encode)

def dict {α : Type} (encode : α → Json) (items : TextDict α) : Json :=
  .obj (items.entries.map fun entry => (entry.1, encode entry.2))

end Encode

namespace ResearchRunStage

def value : ResearchRunStage → String
  | .universe => "universe"
  | .features => "features"
  | .signals => "signals"
  | .targetsBeforeConstraints => "targets_before_constraints"
  | .constraints => "constraints"
  | .targetsAfterConstraints => "targets_after_constraints"
  | .riskExits => "risk_exits"
  | .targetsAfterRisk => "targets_after_risk"
  | .capitalFeasibility => "capital_feasibility"
  | .rebalancePlan => "rebalance_plan"
  | .orders => "orders"
  | .fills => "fills"
  | .ledger => "ledger"
  | .report => "report"

end ResearchRunStage

def ResearchOrderStatus.value : ResearchOrderStatus → String
  | .created => "created"
  | .rejected => "rejected"
  | .partiallyFilled => "partially_filled"
  | .filled => "filled"
  | .cancelled => "cancelled"
  | .expired => "expired"

def ResearchPositionSide.value : ResearchPositionSide → String
  | .long => "long"
  | .short => "short"

def ResearchFillAction.value : ResearchFillAction → String
  | .openLong => "open_long"
  | .closeLong => "close_long"
  | .openShort => "open_short"
  | .closeShort => "close_short"

open Encode

def UniverseCandidate.toJson (item : UniverseCandidate) : Json :=
  .obj
    [ ("symbol", string item.symbol),
      ("included", bool item.included),
      ("reasons", list string item.reasons),
      ("asset_class", string item.assetClass),
      ("market", string item.market) ]

def FeatureValue.toJson (item : FeatureValue) : Json :=
  .obj
    [ ("symbol", string item.symbol),
      ("feature_id", string item.featureId),
      ("value", optional float item.value),
      ("source_artifact_ids", list string item.sourceArtifactIds),
      ("available_at", datetime item.availableAt) ]

def NormalizedSignal.toJson (item : NormalizedSignal) : Json :=
  .obj
    [ ("symbol", string item.symbol),
      ("score", float item.score),
      ("action", string item.action),
      ("rule_id", string item.ruleId),
      ("factor_snapshot_id", optional string item.factorSnapshotId),
      ("rationale", string item.rationale) ]

def TargetPosition.toJson (item : TargetPosition) : Json :=
  .obj
    [ ("symbol", string item.symbol),
      ("weight", float item.weight),
      ("position_side", string item.positionSide.value) ]

def ConstraintOutcome.toJson (item : ConstraintOutcome) : Json :=
  .obj ([ ("constraint", string item.constraint), ("passed", bool item.passed),
      ("before_value", optional float item.beforeValue),
      ("after_value", optional float item.afterValue),
      ("limit", optional float item.limit),
      ("reason", string item.reason),
      ("hard", bool item.hard) ] ++
    match item.symbol with
    | none => []
    | some symbol => [("symbol", string symbol)])

def RiskExitOutcome.toJson (item : RiskExitOutcome) : Json :=
  .obj
    [ ("rule_type", string item.ruleType),
      ("symbol", optional string item.symbol),
      ("triggered", bool item.triggered),
      ("metric", optional float item.metric),
      ("threshold", optional float item.threshold),
      ("before_weight", float item.beforeWeight),
      ("after_weight", float item.afterWeight),
      ("reason", string item.reason) ]

def ResearchRiskState.toJson (item : ResearchRiskState) : Json :=
  .obj
    [ ("cooldown_until", dict date item.cooldownUntil),
      ("opened_on", dict date item.openedOn),
      ("high_water_prices", dict float item.highWaterPrices),
      ("portfolio_equity_high_water", decimal item.portfolioEquityHighWater),
      ("portfolio_drawdown", float item.portfolioDrawdown),
      ("portfolio_paused", bool item.portfolioPaused),
      ("state_version", string item.stateVersion) ]

def CapitalTierOutcome.toJson (item : CapitalTierOutcome) : Json :=
  .obj
    [ ("tier", string item.tier),
      ("capital", decimal item.capital),
      ("feasible", bool item.feasible),
      ("cash_utilization", float item.cashUtilization),
      ("tracking_error", float item.trackingError),
      ("unfillable_symbols", list string item.unfillableSymbols),
      ("capacity_pressure", float item.capacityPressure),
      ("margin_required", decimal item.marginRequired),
      ("estimated_costs", decimal item.estimatedCosts),
      ("reasons", list string item.reasons),
      ("input_checksum", string item.inputChecksum) ]

def ResearchPipelineEvidence.toJson (item : ResearchPipelineEvidence) : Json :=
  .obj
    [ ("manifest_input_checksum", string item.manifestInputChecksum),
      ("input_checksum", string item.inputChecksum),
      ("output_checksum", string item.outputChecksum),
      ("hard_constraints_passed", bool item.hardConstraintsPassed),
      ("pipeline_version", string item.pipelineVersion) ]

def RebalanceInstruction.toJson (item : RebalanceInstruction) : Json :=
  .obj
    [ ("instruction_id", string item.instructionId),
      ("symbol", string item.symbol),
      ("action", string item.action.value),
      ("target_quantity", decimal item.targetQuantity),
      ("current_quantity", decimal item.currentQuantity),
      ("delta_quantity", decimal item.deltaQuantity),
      ("lot_size", int item.lotSize),
      ("estimated_value", decimal item.estimatedValue),
      ("reason", string item.reason) ]

def ResearchOrder.toJson (item : ResearchOrder) : Json :=
  .obj
    [ ("research_order_id", string item.researchOrderId),
      ("instruction_id", string item.instructionId),
      ("symbol", string item.symbol),
      ("action", string item.action.value),
      ("quantity", decimal item.quantity),
      ("status", string item.status.value),
      ("reject_reason", optional string item.rejectReason) ]

def ResearchFill.toJson (item : ResearchFill) : Json :=
  .obj
    [ ("research_fill_id", string item.researchFillId),
      ("research_order_id", string item.researchOrderId),
      ("symbol", string item.symbol),
      ("action", string item.action.value),
      ("quantity", decimal item.quantity),
      ("price", decimal item.price),
      ("commission", decimal item.commission),
      ("tax", decimal item.tax),
      ("slippage", decimal item.slippage),
      ("filled_at", datetime item.filledAt) ]

def ResearchPosition.toJson (item : ResearchPosition) : Json :=
  .obj
    [ ("symbol", string item.symbol),
      ("position_side", string item.positionSide.value),
      ("quantity", decimal item.quantity),
      ("average_price", decimal item.averagePrice),
      ("market_price", decimal item.marketPrice),
      ("market_value", decimal item.marketValue),
      ("realized_pnl", decimal item.realizedPnl),
      ("unrealized_pnl", decimal item.unrealizedPnl),
      ("margin_used", decimal item.marginUsed) ]

def LedgerSnapshot.toJson (item : LedgerSnapshot) : Json :=
  .obj
    [ ("cash", decimal item.cash),
      ("market_value", decimal item.marketValue),
      ("margin_used", decimal item.marginUsed),
      ("realized_pnl", decimal item.realizedPnl),
      ("unrealized_pnl", decimal item.unrealizedPnl),
      ("equity", decimal item.equity),
      ("fees_paid", decimal item.feesPaid),
      ("tax_paid", decimal item.taxPaid),
      ("slippage_paid", decimal item.slippagePaid),
      ("fill_shortfall", decimal item.fillShortfall) ]

namespace DecisionBundle

variable (decision : DecisionBundle)

/-- What `_decision_stage_payloads` keeps of a stage. -/
def stagePayload : ResearchRunStage → List (String × Json)
  | .universe => [("candidates", list UniverseCandidate.toJson decision.candidates)]
  | .features => [("features", list FeatureValue.toJson decision.features)]
  | .signals => [("signals", list NormalizedSignal.toJson decision.signals)]
  | .targetsBeforeConstraints =>
    [("targets", list TargetPosition.toJson decision.targetsBeforeConstraints)]
  | .constraints => [("constraints", list ConstraintOutcome.toJson decision.constraints)]
  | .targetsAfterConstraints =>
    [("targets", list TargetPosition.toJson decision.targetsAfterConstraints)]
  | .riskExits =>
    [ ("outcomes", list RiskExitOutcome.toJson decision.riskExits),
      ("state", decision.riskState.toJson) ]
  | .targetsAfterRisk => [("targets", list TargetPosition.toJson decision.targetsAfterRisk)]
  | .capitalFeasibility =>
    [("tiers", list CapitalTierOutcome.toJson decision.capitalFeasibility)]
  | .rebalancePlan => [("instructions", list RebalanceInstruction.toJson decision.rebalancePlan)]
  | .orders => [("orders", list ResearchOrder.toJson decision.orders)]
  | .fills => [("fills", list ResearchFill.toJson decision.fills)]
  | .ledger =>
    [ ("positions", list ResearchPosition.toJson decision.positions),
      ("ledger", decision.ledger.toJson),
      ("pipeline_evidence",
        optional ResearchPipelineEvidence.toJson decision.pipelineEvidence) ]
  | .report => []

def artifactFields (stage : ResearchRunStage) : List (String × Json) :=
  ("business_date", date decision.businessDate) ::
    ("decision_at", datetime decision.decisionAt) :: decision.stagePayload stage

/-- What `pipeline_output_checksum` covers: the outputs, without the evidence itself. -/
def pipelineOutput : Json :=
  .obj
    [ ("signals", list NormalizedSignal.toJson decision.signals),
      ("targets_before_constraints",
        list TargetPosition.toJson decision.targetsBeforeConstraints),
      ("constraints", list ConstraintOutcome.toJson decision.constraints),
      ("targets_after_constraints",
        list TargetPosition.toJson decision.targetsAfterConstraints),
      ("risk_exits", list RiskExitOutcome.toJson decision.riskExits),
      ("targets_after_risk", list TargetPosition.toJson decision.targetsAfterRisk),
      ("risk_state", decision.riskState.toJson),
      ("capital_feasibility", list CapitalTierOutcome.toJson decision.capitalFeasibility),
      ("rebalance_plan", list RebalanceInstruction.toJson decision.rebalancePlan),
      ("orders", list ResearchOrder.toJson decision.orders),
      ("fills", list ResearchFill.toJson decision.fills),
      ("positions", list ResearchPosition.toJson decision.positions),
      ("ledger", decision.ledger.toJson) ]

end DecisionBundle

/-- The checksum of the canonical text of a value; a value without a text raises. -/
def stableChecksum (sha256 : List Char → String) (value : Json) : Option String :=
  value.dumps.map sha256

end FinDashboard.Research
