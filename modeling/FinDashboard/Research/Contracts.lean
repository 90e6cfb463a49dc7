import FinDashboard.Text.Numbers
import FinDashboard.Text.Timestamps

/-!
# The records of a research decision

What a research run records of one decision, stage by stage. Every record carries what its
constructor checks; a comparison with an undefined decimal raises, so that no such decimal passes
one.
-/

namespace FinDashboard.Research

open FinDashboard.Text (Date DateTime Decimal PyFloat)

inductive ResearchRunStage
  | universe
  | features
  | signals
  | targetsBeforeConstraints
  | constraints
  | targetsAfterConstraints
  | riskExits
  | targetsAfterRisk
  | capitalFeasibility
  | rebalancePlan
  | orders
  | fills
  | ledger
  | report
deriving DecidableEq, Repr

inductive ResearchOrderStatus
  | created
  | rejected
  | partiallyFilled
  | filled
  | cancelled
  | expired
deriving DecidableEq, Repr

inductive ResearchPositionSide
  | long
  | short
deriving DecidableEq, Repr

inductive ResearchFillAction
  | openLong
  | closeLong
  | openShort
  | closeShort
deriving DecidableEq, Repr

structure UniverseCandidate where
  symbol : String
  included : Bool
  reasons : List String
  assetClass : String
  market : String
  explained : symbol ≠ "" ∧ reasons ≠ []
deriving DecidableEq

structure FeatureValue where
  symbol : String
  featureId : String
  value : Option PyFloat
  sourceArtifactIds : List String
  availableAt : DateTime
  valid : (∀ v ∈ value, v.isFinite = true) ∧ sourceArtifactIds ≠ []
deriving DecidableEq

structure NormalizedSignal where
  symbol : String
  score : PyFloat
  action : String
  ruleId : String
  factorSnapshotId : Option String
  rationale : String
  valid : score.isFinite = true ∧ ruleId ≠ "" ∧ rationale ≠ ""
deriving DecidableEq

/-- The sign of a weight follows the side of its position. -/
structure TargetPosition where
  symbol : String
  weight : PyFloat
  positionSide : ResearchPositionSide
  signed : match positionSide with
    | .long => weight.Within (0 ≤ ·)
    | .short => weight.Within (· ≤ 0)

structure ConstraintOutcome where
  constraint : String
  passed : Bool
  beforeValue : Option PyFloat
  afterValue : Option PyFloat
  limit : Option PyFloat
  reason : String
  hard : Bool
  symbol : Option String
  explained : constraint ≠ "" ∧ reason ≠ ""
deriving DecidableEq

structure RiskExitOutcome where
  ruleType : String
  symbol : Option String
  triggered : Bool
  metric : Option PyFloat
  threshold : Option PyFloat
  beforeWeight : PyFloat
  afterWeight : PyFloat
  reason : String
  valid : (ruleType ≠ "" ∧ reason ≠ "") ∧
    (∀ v ∈ metric, v.isFinite = true) ∧ (∀ v ∈ threshold, v.isFinite = true) ∧
      beforeWeight.isFinite = true ∧ afterWeight.isFinite = true
deriving DecidableEq

/-- A dictionary with text keys; the order of its entries does not matter, so they are kept in the
order of their keys. -/
structure TextDict (α : Type) where
  entries : List (String × α)
  ordered : (entries.map (·.1)).Pairwise (· < ·)

structure ResearchRiskState where
  cooldownUntil : TextDict Date
  openedOn : TextDict Date
  highWaterPrices : TextDict PyFloat
  portfolioEquityHighWater : Decimal
  portfolioDrawdown : PyFloat
  portfolioPaused : Bool
  stateVersion : String
  valid : stateVersion ≠ "" ∧ portfolioEquityHighWater.Nonnegative ∧
    portfolioDrawdown.Within (fun d => 0 ≤ d ∧ d ≤ 1) ∧
      ∀ entry ∈ highWaterPrices.entries, entry.2.Within (0 < ·)

structure CapitalTierOutcome where
  tier : String
  capital : Decimal
  feasible : Bool
  cashUtilization : PyFloat
  trackingError : PyFloat
  unfillableSymbols : List String
  capacityPressure : PyFloat
  marginRequired : Decimal
  estimatedCosts : Decimal
  reasons : List String
  inputChecksum : String
  valid : (tier ≠ "" ∧ inputChecksum ≠ "" ∧ reasons ≠ []) ∧ capital.Positive ∧
    (marginRequired.Nonnegative ∧ estimatedCosts.Nonnegative) ∧
      cashUtilization.Within (0 ≤ ·) ∧ trackingError.Within (0 ≤ ·) ∧
        capacityPressure.Within (0 ≤ ·)

structure ResearchPipelineEvidence where
  manifestInputChecksum : String
  inputChecksum : String
  outputChecksum : String
  hardConstraintsPassed : Bool
  pipelineVersion : String
  named : manifestInputChecksum ≠ "" ∧ inputChecksum ≠ "" ∧ outputChecksum ≠ "" ∧
    pipelineVersion ≠ ""
deriving DecidableEq

/-- The namespace of research ids. -/
def InNamespace (id : String) : Prop := "RR-".toList <+: id.toList

instance (id : String) : Decidable (InNamespace id) :=
  inferInstanceAs (Decidable (_ <+: _))

structure RebalanceInstruction where
  instructionId : String
  symbol : String
  action : ResearchFillAction
  targetQuantity : Decimal
  currentQuantity : Decimal
  deltaQuantity : Decimal
  lotSize : ℤ
  estimatedValue : Decimal
  reason : String
  valid : InNamespace instructionId ∧ 0 < lotSize ∧
    (targetQuantity.Nonnegative ∧ currentQuantity.Nonnegative) ∧ deltaQuantity.Nonzero
deriving DecidableEq

structure ResearchOrder where
  researchOrderId : String
  instructionId : String
  symbol : String
  action : ResearchFillAction
  quantity : Decimal
  status : ResearchOrderStatus
  rejectReason : Option String
  valid : InNamespace researchOrderId ∧ quantity.Positive ∧
    (status = .rejected → rejectReason.getD "" ≠ "")
deriving DecidableEq

structure ResearchFill where
  researchFillId : String
  researchOrderId : String
  symbol : String
  action : ResearchFillAction
  quantity : Decimal
  price : Decimal
  commission : Decimal
  tax : Decimal
  slippage : Decimal
  filledAt : DateTime
  valid : InNamespace researchFillId ∧ (quantity.Positive ∧ price.Positive) ∧
    commission.Nonnegative ∧ tax.Nonnegative ∧ slippage.Nonnegative
deriving DecidableEq

structure ResearchPosition where
  symbol : String
  positionSide : ResearchPositionSide
  quantity : Decimal
  averagePrice : Decimal
  marketPrice : Decimal
  marketValue : Decimal
  realizedPnl : Decimal
  unrealizedPnl : Decimal
  marginUsed : Decimal
  valid : quantity.Nonnegative ∧ averagePrice.Nonnegative ∧ marketPrice.Nonnegative ∧
    marginUsed.Nonnegative
deriving DecidableEq

def moneyEpsilon : ℚ := 1 / 100

/-- The equity is the cash and the market value; the three are finite. -/
def EquityIdentity (cash marketValue equity : Decimal) : Prop :=
  ∃ c ∈ cash.value?, ∃ m ∈ marketValue.value?, ∃ e ∈ equity.value?, |c + m - e| ≤ moneyEpsilon

instance (cash marketValue equity : Decimal) : Decidable (EquityIdentity cash marketValue equity) :=
  match foundCash : cash.value?, foundMarket : marketValue.value?, foundEquity : equity.value? with
  | some c, some m, some e =>
    decidable_of_iff (|c + m - e| ≤ moneyEpsilon)
      (by simp [EquityIdentity, foundCash, foundMarket, foundEquity])
  | none, _, _ => .isFalse (by simp [EquityIdentity, foundCash])
  | some _, none, _ => .isFalse (by simp [EquityIdentity, foundMarket])
  | some _, some _, none => .isFalse (by simp [EquityIdentity, foundEquity])

structure LedgerSnapshot where
  cash : Decimal
  marketValue : Decimal
  marginUsed : Decimal
  realizedPnl : Decimal
  unrealizedPnl : Decimal
  equity : Decimal
  feesPaid : Decimal
  taxPaid : Decimal
  slippagePaid : Decimal
  fillShortfall : Decimal
  valid : (marginUsed.Nonnegative ∧ feesPaid.Nonnegative ∧ taxPaid.Nonnegative ∧
    slippagePaid.Nonnegative ∧ fillShortfall.Nonnegative) ∧ EquityIdentity cash marketValue equity

/-- A decision as its constructor accepts it. -/
structure DecisionBundle where
  businessDate : Date
  decisionAt : DateTime
  candidates : List UniverseCandidate
  features : List FeatureValue
  signals : List NormalizedSignal
  targetsBeforeConstraints : List TargetPosition
  constraints : List ConstraintOutcome
  targetsAfterConstraints : List TargetPosition
  riskExits : List RiskExitOutcome
  targetsAfterRisk : List TargetPosition
  riskState : ResearchRiskState
  capitalFeasibility : List CapitalTierOutcome
  rebalancePlan : List RebalanceInstruction
  orders : List ResearchOrder
  fills : List ResearchFill
  positions : List ResearchPosition
  ledger : LedgerSnapshot
  pipelineEvidence : Option ResearchPipelineEvidence
  decisionId : String
  valid : businessDate.ordinalKey ≤ decisionAt.date.ordinalKey ∧ candidates ≠ [] ∧
    (candidates.map (·.symbol)).Nodup ∧ (orders.map (·.researchOrderId)).Nodup ∧
      (fills.map (·.researchFillId)).Nodup ∧
        (positions.map fun position => (position.symbol, position.positionSide)).Nodup ∧
          (capitalFeasibility.map (·.tier)).Nodup

end FinDashboard.Research
