import FinDashboard.Research.Payload
import FinDashboard.Research.TextDict

/-!
# Rebuilding a decision from its payloads

The inverse of the payloads, written field by field: a missing field, a value of another kind and a
record its constructor refuses end the rebuilding with an error that names the place.
-/

namespace FinDashboard.Research

open FinDashboard.Text (Date DateTime Decimal Json PyFloat)

inductive RebuildError
  | notMapping (label : String)
  | missingField (label key : String)
  | notString (label : String)
  | notBool (label : String)
  | notInt (label : String)
  | notNumber (label : String)
  | notList (label : String)
  | notDecimal
  | notDate
  | notDatetime (label : String)
  | unknownValue (value : String)
  | refused
  | missingStage (stage : ResearchRunStage)
  | foreignRun (label : String)
  | unreadable (stage : ResearchRunStage)
deriving DecidableEq, Repr

abbrev Rebuilt (α : Type) := Except RebuildError α

namespace Decode

def mapping (label : String) : Json → Rebuilt (List (String × Json))
  | .obj fields => .ok fields
  | _ => .error (.notMapping label)

def field (label key : String) (fields : List (String × Json)) : Rebuilt Json :=
  match Ledger.find key fields with
  | some value => .ok value
  | none => .error (.missingField label key)

def string (label : String) : Json → Rebuilt String
  | .str value => .ok value
  | _ => .error (.notString label)

def optional {α : Type} (decode : Json → Rebuilt α) : Json → Rebuilt (Option α)
  | .null => .ok none
  | value => (decode value).map some

def bool (label : String) : Json → Rebuilt Bool
  | .bool value => .ok value
  | _ => .error (.notBool label)

def int (label : String) : Json → Rebuilt ℤ
  | .int value => .ok value
  | _ => .error (.notInt label)

/-- The float of an integer that has one exactly. -/
def floatOfInt (label : String) (value : ℤ) : Rebuilt PyFloat :=
  if value.natAbs ≤ 2 ^ 53 then
    match PyFloat.ofLiteral (value < 0)
      { whole := Text.digits value.natAbs, fraction := [], exponent := 0 } with
    | some value => .ok value
    | none => .error (.notNumber label)
  else .error (.notNumber label)

def float (label : String) : Json → Rebuilt PyFloat
  | .float value => .ok value
  | .int value => floatOfInt label value
  | _ => .error (.notNumber label)

def readText {α : Type} (reader : List Char → Option α) (error : RebuildError) (text : String) :
    Rebuilt α :=
  match reader text.toList with
  | some value => .ok value
  | none => .error error

def decimal (label : String) (value : Json) : Rebuilt Decimal := do
  readText Decimal.read .notDecimal (← string label value)

def date (label : String) (value : Json) : Rebuilt Date := do
  readText Date.fromisoformat .notDate (← string label value)

def datetime (label : String) (value : Json) : Rebuilt DateTime := do
  readText DateTime.fromisoformat (.notDatetime label) (← string label value)

def list (label : String) : Json → Rebuilt (List Json)
  | .arr items => .ok items
  | _ => .error (.notList label)

def items {α : Type} (decode : String → Json → Rebuilt α) (label : String) :
    (position : ℕ) → List Json → Rebuilt (List α)
  | _, [] => .ok []
  | position, item :: rest => do
    let first ← decode (label ++ "[" ++ toString position ++ "]") item
    let others ← items decode label (position + 1) rest
    .ok (first :: others)

def strings (label : String) (value : Json) : Rebuilt (List String) := do
  items (fun _ => string label) label 0 (← list label value)

def entries {α : Type} (decode : String → Json → Rebuilt α) (label : String) :
    List (String × Json) → Rebuilt (List (String × α))
  | [] => .ok []
  | (key, value) :: rest => do
    let first ← decode (label ++ "[" ++ key ++ "]") value
    let others ← entries decode label rest
    .ok ((key, first) :: others)

def dict {α : Type} (decode : String → Json → Rebuilt α) (label : String) (value : Json) :
    Rebuilt (TextDict α) := do
  let found ← entries decode label (← mapping label value)
  .ok (.ofEntries found)

def member {α : Type} (value : α → String) (members : List α) (text : String) : Rebuilt α :=
  match members.find? fun item => value item = text with
  | some item => .ok item
  | none => .error (.unknownValue text)

end Decode

open Decode

section Records

variable (label : String)

def positionSide (value : Json) : Rebuilt ResearchPositionSide := do
  member ResearchPositionSide.value [.long, .short] (← string label value)

def fillAction (value : Json) : Rebuilt ResearchFillAction := do
  member ResearchFillAction.value [.openLong, .closeLong, .openShort, .closeShort]
    (← string label value)

def orderStatus (value : Json) : Rebuilt ResearchOrderStatus := do
  member ResearchOrderStatus.value
    [.created, .rejected, .partiallyFilled, .filled, .cancelled, .expired] (← string label value)

def rebuildCandidate (value : Json) : Rebuilt UniverseCandidate := do
  let item ← mapping label value
  let symbol ← string s!"{label}.symbol" (← field label "symbol" item)
  let included ← bool s!"{label}.included" (← field label "included" item)
  let reasons ← strings s!"{label}.reasons" (← field label "reasons" item)
  let assetClass ← string s!"{label}.asset_class" (← field label "asset_class" item)
  let market ← string s!"{label}.market" (← field label "market" item)
  if explained : symbol ≠ "" ∧ reasons ≠ [] then
    .ok
      { symbol := symbol, included := included, reasons := reasons, assetClass := assetClass
        market := market, explained := explained }
  else .error .refused

def rebuildFeature (value : Json) : Rebuilt FeatureValue := do
  let item ← mapping label value
  let raw ← field label "value" item
  let symbol ← string s!"{label}.symbol" (← field label "symbol" item)
  let featureId ← string s!"{label}.feature_id" (← field label "feature_id" item)
  let value ← optional (float s!"{label}.value") raw
  let sourceArtifactIds ←
    strings s!"{label}.source_artifact_ids" (← field label "source_artifact_ids" item)
  let availableAt ← datetime s!"{label}.available_at" (← field label "available_at" item)
  if valid : (∀ v ∈ value, v.isFinite = true) ∧ sourceArtifactIds ≠ [] then
    .ok
      { symbol := symbol, featureId := featureId, value := value
        sourceArtifactIds := sourceArtifactIds, availableAt := availableAt, valid := valid }
  else .error .refused

def rebuildSignal (value : Json) : Rebuilt NormalizedSignal := do
  let item ← mapping label value
  let symbol ← string s!"{label}.symbol" (← field label "symbol" item)
  let score ← float s!"{label}.score" (← field label "score" item)
  let action ← string s!"{label}.action" (← field label "action" item)
  let ruleId ← string s!"{label}.rule_id" (← field label "rule_id" item)
  let factorSnapshotId ← optional (string s!"{label}.factor_snapshot_id")
    (← field label "factor_snapshot_id" item)
  let rationale ← string s!"{label}.rationale" (← field label "rationale" item)
  if valid : score.isFinite = true ∧ ruleId ≠ "" ∧ rationale ≠ "" then
    .ok
      { symbol := symbol, score := score, action := action, ruleId := ruleId
        factorSnapshotId := factorSnapshotId, rationale := rationale, valid := valid }
  else .error .refused

def TargetPosition.ofFields (symbol : String) (weight : PyFloat) :
    ResearchPositionSide → Rebuilt TargetPosition
  | .long =>
    if signed : weight.Within (0 ≤ ·) then
      .ok { symbol := symbol, weight := weight, positionSide := .long, signed := signed }
    else .error .refused
  | .short =>
    if signed : weight.Within (· ≤ 0) then
      .ok { symbol := symbol, weight := weight, positionSide := .short, signed := signed }
    else .error .refused

def rebuildTarget (value : Json) : Rebuilt TargetPosition := do
  let item ← mapping label value
  let symbol ← string s!"{label}.symbol" (← field label "symbol" item)
  let weight ← float s!"{label}.weight" (← field label "weight" item)
  let side ← positionSide s!"{label}.position_side" (← field label "position_side" item)
  TargetPosition.ofFields symbol weight side

def rebuildTargets (value : Json) : Rebuilt (List TargetPosition) := do
  items rebuildTarget s!"{label}.targets" 0 (← list label value)

/-- An outcome without a symbol has no such field. -/
def rebuildConstraint (value : Json) : Rebuilt ConstraintOutcome := do
  let item ← mapping label value
  let constraint ← string s!"{label}.constraint" (← field label "constraint" item)
  let passed ← bool s!"{label}.passed" (← field label "passed" item)
  let beforeValue ← optional (float s!"{label}.before_value") (← field label "before_value" item)
  let afterValue ← optional (float s!"{label}.after_value") (← field label "after_value" item)
  let limit ← optional (float s!"{label}.limit") (← field label "limit" item)
  let reason ← string s!"{label}.reason" (← field label "reason" item)
  let hard ← bool s!"{label}.hard" (← field label "hard" item)
  let symbol ← optional (string s!"{label}.symbol") ((Ledger.find "symbol" item).getD .null)
  if explained : constraint ≠ "" ∧ reason ≠ "" then
    .ok
      { constraint := constraint, passed := passed, beforeValue := beforeValue
        afterValue := afterValue, limit := limit, reason := reason, hard := hard
        symbol := symbol, explained := explained }
  else .error .refused

def rebuildRiskExit (value : Json) : Rebuilt RiskExitOutcome := do
  let item ← mapping label value
  let ruleType ← string s!"{label}.rule_type" (← field label "rule_type" item)
  let symbol ← optional (string s!"{label}.symbol") (← field label "symbol" item)
  let triggered ← bool s!"{label}.triggered" (← field label "triggered" item)
  let metric ← optional (float s!"{label}.metric") (← field label "metric" item)
  let threshold ← optional (float s!"{label}.threshold") (← field label "threshold" item)
  let beforeWeight ← float s!"{label}.before_weight" (← field label "before_weight" item)
  let afterWeight ← float s!"{label}.after_weight" (← field label "after_weight" item)
  let reason ← string s!"{label}.reason" (← field label "reason" item)
  if valid : (ruleType ≠ "" ∧ reason ≠ "") ∧
      (∀ v ∈ metric, v.isFinite = true) ∧ (∀ v ∈ threshold, v.isFinite = true) ∧
        beforeWeight.isFinite = true ∧ afterWeight.isFinite = true then
    .ok
      { ruleType := ruleType, symbol := symbol, triggered := triggered, metric := metric
        threshold := threshold, beforeWeight := beforeWeight, afterWeight := afterWeight
        reason := reason, valid := valid }
  else .error .refused

def rebuildRiskState (value : Json) : Rebuilt ResearchRiskState := do
  let item ← mapping label value
  let cooldownUntil ← dict date s!"{label}.cooldown_until" (← field label "cooldown_until" item)
  let openedOn ← dict date s!"{label}.opened_on" (← field label "opened_on" item)
  let highWaterPrices ←
    dict float s!"{label}.high_water_prices" (← field label "high_water_prices" item)
  let portfolioEquityHighWater ← decimal s!"{label}.portfolio_equity_high_water"
    (← field label "portfolio_equity_high_water" item)
  let portfolioDrawdown ←
    float s!"{label}.portfolio_drawdown" (← field label "portfolio_drawdown" item)
  let portfolioPaused ← bool s!"{label}.portfolio_paused" (← field label "portfolio_paused" item)
  let stateVersion ← string s!"{label}.state_version" (← field label "state_version" item)
  if valid : stateVersion ≠ "" ∧ portfolioEquityHighWater.Nonnegative ∧
      portfolioDrawdown.Within (fun d => 0 ≤ d ∧ d ≤ 1) ∧
        ∀ entry ∈ highWaterPrices.entries, entry.2.Within (0 < ·) then
    .ok
      { cooldownUntil := cooldownUntil, openedOn := openedOn, highWaterPrices := highWaterPrices
        portfolioEquityHighWater := portfolioEquityHighWater
        portfolioDrawdown := portfolioDrawdown, portfolioPaused := portfolioPaused
        stateVersion := stateVersion, valid := valid }
  else .error .refused

def rebuildTier (value : Json) : Rebuilt CapitalTierOutcome := do
  let item ← mapping label value
  let tier ← string s!"{label}.tier" (← field label "tier" item)
  let capital ← decimal s!"{label}.capital" (← field label "capital" item)
  let feasible ← bool s!"{label}.feasible" (← field label "feasible" item)
  let cashUtilization ←
    float s!"{label}.cash_utilization" (← field label "cash_utilization" item)
  let trackingError ← float s!"{label}.tracking_error" (← field label "tracking_error" item)
  let unfillableSymbols ←
    strings s!"{label}.unfillable_symbols" (← field label "unfillable_symbols" item)
  let capacityPressure ←
    float s!"{label}.capacity_pressure" (← field label "capacity_pressure" item)
  let marginRequired ← decimal s!"{label}.margin_required" (← field label "margin_required" item)
  let estimatedCosts ← decimal s!"{label}.estimated_costs" (← field label "estimated_costs" item)
  let reasons ← strings s!"{label}.reasons" (← field label "reasons" item)
  let inputChecksum ← string s!"{label}.input_checksum" (← field label "input_checksum" item)
  if valid : (tier ≠ "" ∧ inputChecksum ≠ "" ∧ reasons ≠ []) ∧ capital.Positive ∧
      (marginRequired.Nonnegative ∧ estimatedCosts.Nonnegative) ∧
        cashUtilization.Within (0 ≤ ·) ∧ trackingError.Within (0 ≤ ·) ∧
          capacityPressure.Within (0 ≤ ·) then
    .ok
      { tier := tier, capital := capital, feasible := feasible
        cashUtilization := cashUtilization, trackingError := trackingError
        unfillableSymbols := unfillableSymbols, capacityPressure := capacityPressure
        marginRequired := marginRequired, estimatedCosts := estimatedCosts, reasons := reasons
        inputChecksum := inputChecksum, valid := valid }
  else .error .refused

def rebuildInstruction (value : Json) : Rebuilt RebalanceInstruction := do
  let item ← mapping label value
  let instructionId ← string s!"{label}.instruction_id" (← field label "instruction_id" item)
  let symbol ← string s!"{label}.symbol" (← field label "symbol" item)
  let action ← fillAction s!"{label}.action" (← field label "action" item)
  let targetQuantity ← decimal s!"{label}.target_quantity" (← field label "target_quantity" item)
  let currentQuantity ←
    decimal s!"{label}.current_quantity" (← field label "current_quantity" item)
  let deltaQuantity ← decimal s!"{label}.delta_quantity" (← field label "delta_quantity" item)
  let lotSize ← int s!"{label}.lot_size" (← field label "lot_size" item)
  let estimatedValue ← decimal s!"{label}.estimated_value" (← field label "estimated_value" item)
  let reason ← string s!"{label}.reason" (← field label "reason" item)
  if valid : InNamespace instructionId ∧ 0 < lotSize ∧
      (targetQuantity.Nonnegative ∧ currentQuantity.Nonnegative) ∧ deltaQuantity.Nonzero then
    .ok
      { instructionId := instructionId, symbol := symbol, action := action
        targetQuantity := targetQuantity, currentQuantity := currentQuantity
        deltaQuantity := deltaQuantity, lotSize := lotSize, estimatedValue := estimatedValue
        reason := reason, valid := valid }
  else .error .refused

def rebuildOrder (value : Json) : Rebuilt ResearchOrder := do
  let item ← mapping label value
  let researchOrderId ←
    string s!"{label}.research_order_id" (← field label "research_order_id" item)
  let instructionId ← string s!"{label}.instruction_id" (← field label "instruction_id" item)
  let symbol ← string s!"{label}.symbol" (← field label "symbol" item)
  let action ← fillAction s!"{label}.action" (← field label "action" item)
  let quantity ← decimal s!"{label}.quantity" (← field label "quantity" item)
  let status ← orderStatus s!"{label}.status" (← field label "status" item)
  let rejectReason ← optional (string s!"{label}.reject_reason")
    (← field label "reject_reason" item)
  if valid : InNamespace researchOrderId ∧ quantity.Positive ∧
      (status = .rejected → rejectReason.getD "" ≠ "") then
    .ok
      { researchOrderId := researchOrderId, instructionId := instructionId, symbol := symbol
        action := action, quantity := quantity, status := status, rejectReason := rejectReason
        valid := valid }
  else .error .refused

def rebuildFill (value : Json) : Rebuilt ResearchFill := do
  let item ← mapping label value
  let researchFillId ← string s!"{label}.research_fill_id" (← field label "research_fill_id" item)
  let researchOrderId ←
    string s!"{label}.research_order_id" (← field label "research_order_id" item)
  let symbol ← string s!"{label}.symbol" (← field label "symbol" item)
  let action ← fillAction s!"{label}.action" (← field label "action" item)
  let quantity ← decimal s!"{label}.quantity" (← field label "quantity" item)
  let price ← decimal s!"{label}.price" (← field label "price" item)
  let commission ← decimal s!"{label}.commission" (← field label "commission" item)
  let tax ← decimal s!"{label}.tax" (← field label "tax" item)
  let slippage ← decimal s!"{label}.slippage" (← field label "slippage" item)
  let filledAt ← datetime s!"{label}.filled_at" (← field label "filled_at" item)
  if valid : InNamespace researchFillId ∧ (quantity.Positive ∧ price.Positive) ∧
      commission.Nonnegative ∧ tax.Nonnegative ∧ slippage.Nonnegative then
    .ok
      { researchFillId := researchFillId, researchOrderId := researchOrderId, symbol := symbol
        action := action, quantity := quantity, price := price, commission := commission
        tax := tax, slippage := slippage, filledAt := filledAt, valid := valid }
  else .error .refused

def rebuildPosition (value : Json) : Rebuilt ResearchPosition := do
  let item ← mapping label value
  let symbol ← string s!"{label}.symbol" (← field label "symbol" item)
  let side ← positionSide s!"{label}.position_side" (← field label "position_side" item)
  let quantity ← decimal s!"{label}.quantity" (← field label "quantity" item)
  let averagePrice ← decimal s!"{label}.average_price" (← field label "average_price" item)
  let marketPrice ← decimal s!"{label}.market_price" (← field label "market_price" item)
  let marketValue ← decimal s!"{label}.market_value" (← field label "market_value" item)
  let realizedPnl ← decimal s!"{label}.realized_pnl" (← field label "realized_pnl" item)
  let unrealizedPnl ← decimal s!"{label}.unrealized_pnl" (← field label "unrealized_pnl" item)
  let marginUsed ← decimal s!"{label}.margin_used" (← field label "margin_used" item)
  if valid : quantity.Nonnegative ∧ averagePrice.Nonnegative ∧ marketPrice.Nonnegative ∧
      marginUsed.Nonnegative then
    .ok
      { symbol := symbol, positionSide := side, quantity := quantity
        averagePrice := averagePrice, marketPrice := marketPrice, marketValue := marketValue
        realizedPnl := realizedPnl, unrealizedPnl := unrealizedPnl, marginUsed := marginUsed
        valid := valid }
  else .error .refused

def rebuildLedger (value : Json) : Rebuilt LedgerSnapshot := do
  let item ← mapping label value
  let cash ← decimal s!"{label}.cash" (← field label "cash" item)
  let marketValue ← decimal s!"{label}.market_value" (← field label "market_value" item)
  let marginUsed ← decimal s!"{label}.margin_used" (← field label "margin_used" item)
  let realizedPnl ← decimal s!"{label}.realized_pnl" (← field label "realized_pnl" item)
  let unrealizedPnl ← decimal s!"{label}.unrealized_pnl" (← field label "unrealized_pnl" item)
  let equity ← decimal s!"{label}.equity" (← field label "equity" item)
  let feesPaid ← decimal s!"{label}.fees_paid" (← field label "fees_paid" item)
  let taxPaid ← decimal s!"{label}.tax_paid" (← field label "tax_paid" item)
  let slippagePaid ← decimal s!"{label}.slippage_paid" (← field label "slippage_paid" item)
  let fillShortfall ← decimal s!"{label}.fill_shortfall" (← field label "fill_shortfall" item)
  if valid : (marginUsed.Nonnegative ∧ feesPaid.Nonnegative ∧ taxPaid.Nonnegative ∧
      slippagePaid.Nonnegative ∧ fillShortfall.Nonnegative) ∧
        EquityIdentity cash marketValue equity then
    .ok
      { cash := cash, marketValue := marketValue, marginUsed := marginUsed
        realizedPnl := realizedPnl, unrealizedPnl := unrealizedPnl, equity := equity
        feesPaid := feesPaid, taxPaid := taxPaid, slippagePaid := slippagePaid
        fillShortfall := fillShortfall, valid := valid }
  else .error .refused

def rebuildEvidence (value : Json) : Rebuilt ResearchPipelineEvidence := do
  let item ← mapping label value
  let manifestInputChecksum ←
    string s!"{label}.manifest_input_checksum" (← field label "manifest_input_checksum" item)
  let inputChecksum ← string s!"{label}.input_checksum" (← field label "input_checksum" item)
  let outputChecksum ← string s!"{label}.output_checksum" (← field label "output_checksum" item)
  let hardConstraintsPassed ←
    bool s!"{label}.hard_constraints_passed" (← field label "hard_constraints_passed" item)
  let pipelineVersion ← string s!"{label}.pipeline_version" (← field label "pipeline_version" item)
  if named : manifestInputChecksum ≠ "" ∧ inputChecksum ≠ "" ∧ outputChecksum ≠ "" ∧
      pipelineVersion ≠ "" then
    .ok
      { manifestInputChecksum := manifestInputChecksum, inputChecksum := inputChecksum
        outputChecksum := outputChecksum, hardConstraintsPassed := hardConstraintsPassed
        pipelineVersion := pipelineVersion, named := named }
  else .error .refused

end Records

end FinDashboard.Research
