import FinDashboard.Ledger.Dictionary
import FinDashboard.Research.TextDict
import FinDashboard.Shared.Arithmetic

/-!
# The records of the portfolio pipeline

Prices and rates are floats, money is decimal, and quantities are whole numbers. The records are stated
over any two kinds of numbers with the operations the pipeline uses. Dates and times are numbered.
-/

namespace FinDashboard.Portfolio

open Research (ResearchFillAction ResearchOrderStatus TextDict)

/-- The operations on decimals. -/
class DecimalArithmetic (K : Type) extends Zero K, One K, Add K, Sub K, Neg K, Mul K, Div K, NatCast K,
    IntCast K, LT K, LE K, BEq K where
  decidableLT : DecidableLT K
  decidableLE : DecidableLE K

/-- The operations on floats. -/
class FloatArithmetic (F : Type) extends Zero F, One F, Neg F, Mul F, IntCast F, LT F, LE F, BEq F where
  decidableLT : DecidableLT F
  decidableLE : DecidableLE F

attribute [reducible, instance] DecimalArithmetic.decidableLT DecimalArithmetic.decidableLE
  FloatArithmetic.decidableLT FloatArithmetic.decidableLE

/-- The trading unit of a symbol, and the rates it has of its own. -/
structure AssetLotInfo (F : Type) [FloatArithmetic F] where
  lotSize : ℤ
  multiplier : F
  commissionRate : Option F
  commissionMin : Option F
  stampTaxRate : Option F
  slippageBps : F
  lotSize_pos : 0 < lotSize
  multiplier_pos : 0 < multiplier
  nonneg : (∀ rate ∈ commissionRate, 0 ≤ rate) ∧ (∀ rate ∈ commissionMin, 0 ≤ rate) ∧
    (∀ rate ∈ stampTaxRate, 0 ≤ rate) ∧ 0 ≤ slippageBps

/-- The rates of a run where a symbol has none of its own. -/
structure ExecutionModel (F : Type) where
  commissionRate : F
  minimumCommission : F
  sellTaxRate : F
  slippageBps : F

/-- The frozen input of one decision; `rest` is what only the stages before the orders read. -/
structure PortfolioDecisionInput (α F : Type) [FloatArithmetic F] where
  businessDate : ℤ
  decisionAt : ℤ
  executionAt : ℤ
  prices : List (String × F)
  executionPrices : List (String × F)
  lotInfo : List (String × AssetLotInfo F)
  realizedVolatility : List (String × F)
  atr : List (String × F)
  fillRatioBySymbol : List (String × F)
  rejectedSymbols : List String
  suspendedSymbols : List String
  rest : α
  later : decisionAt < executionAt
  prices_pos : ∀ entry ∈ prices, 0 < entry.2
  executionPrices_pos : ∀ entry ∈ executionPrices, 0 < entry.2
  fillRatio_unit : ∀ entry ∈ fillRatioBySymbol, 0 ≤ entry.2 ∧ entry.2 ≤ 1

/-- What resuming reads of an input. -/
structure ResumeReplayStub (F : Type) [FloatArithmetic F] where
  businessDate : ℤ
  decisionAt : ℤ
  lotInfo : List (String × AssetLotInfo F)
  prices : List (String × F)
  executionPrices : List (String × F)

structure BookPosition (K : Type) [DecimalArithmetic K] where
  quantity : ℤ := 0
  averagePrice : K := 0
  realizedPnl : K := 0
  openedOn : Option ℤ := none
  highWaterPrice : K := 0

/-- The positions are in the order in which their symbols were first filled. -/
structure PipelineState (K : Type) [DecimalArithmetic K] where
  cash : K
  positions : List (String × BookPosition K) := []
  feesPaid : K := 0
  taxPaid : K := 0
  slippagePaid : K := 0
  fillShortfall : K := 0
  cooldownUntil : TextDict ℤ := TextDict.ofEntries []
  equityHighWater : K := 0
  portfolioPaused : Bool := false

structure PositionSnapshot (F : Type) where
  code : String
  shares : ℤ
  marketValue : F

structure ExitPositionSnapshot (F : Type) where
  symbol : String
  filledQuantity : F
  averagePrice : F
  currentPrice : F
  openedOn : ℤ
  highWaterPrice : F
  realizedVolatility : Option F
  atr : Option F

structure RebalanceTrade (F : Type) where
  symbol : String
  deltaShares : ℤ
  targetShares : ℤ
  currentShares : ℤ
  deltaValue : F
  unfilledShares : ℤ
  nonneg : 0 ≤ targetShares ∧ 0 ≤ currentShares ∧ 0 ≤ unfilledShares

structure RebalanceInstruction (K : Type) where
  instructionId : String
  symbol : String
  action : ResearchFillAction
  targetQuantity : ℤ
  currentQuantity : ℤ
  deltaQuantity : ℤ
  lotSize : ℤ
  estimatedValue : K
  reason : String
  valid : 0 < lotSize ∧ (0 ≤ targetQuantity ∧ 0 ≤ currentQuantity) ∧ deltaQuantity ≠ 0

structure ResearchOrder where
  researchOrderId : String
  instructionId : String
  symbol : String
  action : ResearchFillAction
  quantity : ℤ
  status : ResearchOrderStatus
  rejectReason : Option String
  valid : 0 < quantity ∧ (status = .rejected → rejectReason.getD "" ≠ "")

structure ResearchFill (K : Type) [DecimalArithmetic K] where
  researchFillId : String
  researchOrderId : String
  symbol : String
  action : ResearchFillAction
  quantity : ℤ
  price : K
  commission : K
  tax : K
  slippage : K
  filledAt : ℤ
  quantity_pos : 0 < quantity
  price_pos : 0 < price
  nonneg : 0 ≤ commission ∧ 0 ≤ tax ∧ 0 ≤ slippage

structure ResearchPosition (K : Type) [DecimalArithmetic K] where
  symbol : String
  quantity : ℤ
  averagePrice : K
  marketPrice : K
  marketValue : K
  realizedPnl : K
  unrealizedPnl : K
  nonneg : 0 ≤ quantity ∧ 0 ≤ averagePrice ∧ 0 ≤ marketPrice

/-- `MONEY_EPSILON`, the slack of every comparison of money. -/
def moneyEpsilon {K : Type} [DecimalArithmetic K] : K := 1 / ((100 : ℕ) : K)

structure LedgerSnapshot (K : Type) [DecimalArithmetic K] where
  cash : K
  marketValue : K
  realizedPnl : K
  unrealizedPnl : K
  equity : K
  feesPaid : K
  taxPaid : K
  slippagePaid : K
  fillShortfall : K
  nonneg : 0 ≤ feesPaid ∧ 0 ≤ taxPaid ∧ 0 ≤ slippagePaid ∧ 0 ≤ fillShortfall
  identity : pyAbs (cash + marketValue - equity) ≤ (moneyEpsilon : K)

/-- The dictionaries are in the order of their keys. -/
structure ResearchRiskState (K F : Type) [DecimalArithmetic K] [FloatArithmetic F] where
  cooldownUntil : TextDict ℤ
  openedOn : List (String × ℤ)
  highWaterPrices : List (String × F)
  portfolioEquityHighWater : K
  portfolioDrawdown : F
  portfolioPaused : Bool
  highWater_nonneg : 0 ≤ portfolioEquityHighWater
  drawdown_unit : 0 ≤ portfolioDrawdown ∧ portfolioDrawdown ≤ 1
  highWaters_pos : ∀ entry ∈ highWaterPrices, 0 < entry.2

/-- A decision; `ω` is the type of what the stages before the orders record, the frozen candidates,
features and signals included. -/
structure DecisionBundle (ω K F : Type) [DecimalArithmetic K] [FloatArithmetic F] where
  businessDate : ℤ
  decisionAt : ℤ
  portfolio : ω
  riskExits : ω
  riskState : ResearchRiskState K F
  capitalFeasibility : ω
  rebalancePlan : List (RebalanceInstruction K)
  orders : List ResearchOrder
  fills : List (ResearchFill K)
  positions : List (ResearchPosition K)
  ledger : LedgerSnapshot K
  pipelineEvidence : Option ω

end FinDashboard.Portfolio
