import FinDashboard.Portfolio.Records
import FinDashboard.Runs.Fallible
import FinDashboard.Runs.Outputs
import Mathlib.Data.List.Sort

/-!
# The portfolio pipeline

One decision marks the book at the decision prices, lets the stages choose a portfolio and a plan, fills
the plan at the execution prices, and marks the book again. The stages before the orders are parameters:
they are functions of what they are given, and change nothing.
-/

namespace FinDashboard.Portfolio

open Ledger
open Research (ResearchFillAction ResearchOrderStatus TextDict)

inductive PipelineError
  | stage (message : String)
  | missingKey (symbol : String)
  | missingLotSize (symbol : String)
  | positionNotPriced (symbol : String)
  | equityNotPositive
  | oversold (symbol : String)
  | notLongOnly
  | cashNegative
  | missingMetadata (symbol : String)
  | invalidRecord
deriving DecidableEq, Repr

/-- The conversions between floats and decimals, and what they keep. -/
structure PipelineMath (K F : Type) [DecimalArithmetic K] [FloatArithmetic F] where
  /-- `Decimal(str(value))`. -/
  decimal : F → K
  float : K → F
  /-- `int`, which drops the fraction. -/
  truncate : K → ℤ
  nonneg_of_pos : ∀ value : F, 0 < value → 0 ≤ value
  intCast_nonneg : ∀ n : ℤ, 0 ≤ n → 0 ≤ (n : F)
  mul_nonneg : ∀ value factor : F, 0 ≤ value → 0 ≤ factor → 0 ≤ value * factor
  decimal_nonneg : ∀ value : F, 0 ≤ value → 0 ≤ decimal value
  float_nonneg : ∀ value : K, 0 ≤ value → 0 ≤ float value
  /-- No decimal is undefined, and neither is its float. -/
  decimal_self : ∀ value : K, (value == value) = true
  float_self : ∀ value : K, (float value == float value) = true

structure RiskExitResult (ω : Type) where
  target : ω
  decisions : ω
  cooldownUntil : TextDict ℤ
  portfolioPaused : Bool

/-- The stages of a decision that are not modelled. -/
structure PipelineStages (α ω K F : Type) [DecimalArithmetic K] [FloatArithmetic F] where
  /-- From the current weights and the drawdown, the portfolio and its hard constraints. -/
  buildPortfolio : PortfolioDecisionInput α F → List (String × F) → F → Except String ω
  /-- From the open positions, the day, the drawdown and the cooldowns. -/
  executeRiskExitPolicy : ω → List (ExitPositionSnapshot F) → ℤ → F → TextDict ℤ →
    Except String (RiskExitResult ω)
  evaluateCapitalTiers : PortfolioDecisionInput α F → ω → Except String ω
  /-- From the target, the capital and the current positions. -/
  solveSizing : PortfolioDecisionInput α F → ω → F → List (PositionSnapshot F) →
    Except String (List (RebalanceTrade F))
  /-- The checks of the decision as a whole, and its evidence. -/
  evidence : PortfolioDecisionInput α F → DecisionBundle ω K F → Except String ω

/-- What a run is given besides its inputs. -/
structure PipelineSetup (α ω K F : Type) [DecimalArithmetic K] [FloatArithmetic F] where
  math : PipelineMath K F
  stages : PipelineStages α ω K F
  executionModel : ExecutionModel F
  inputChecksum : String
  initialCapital : K

variable {α ω K F : Type} [DecimalArithmetic K] [FloatArithmetic F]

def stage {β : Type} : Except String β → Except PipelineError β
  | .ok result => .ok result
  | .error message => .error (.stage message)

/-- The account before a decision. -/
structure CurrentBook (K F : Type) [DecimalArithmetic K] where
  positions : List (String × BookPosition K)
  current : List (PositionSnapshot F)
  weights : List (String × F)
  equity : K

/-- A held position is marked at its decision price; next to it, its shares and its value. -/
def markHeld (math : PipelineMath K F) (item : PortfolioDecisionInput α F)
    (entry : String × BookPosition K) :
    Except PipelineError ((String × BookPosition K) × Option (String × ℤ × K)) :=
  if entry.2.quantity ≤ 0 then .ok (entry, none)
  else
    match find entry.1 item.prices, find entry.1 item.lotInfo with
    | some price, some info =>
      let value := (entry.2.quantity : K) * math.decimal price * math.decimal info.multiplier
      .ok ((entry.1, { entry.2 with
          highWaterPrice := pyMax entry.2.highWaterPrice (math.decimal price) }),
        some (entry.1, entry.2.quantity, value))
    | _, _ => .error (.positionNotPriced entry.1)

def markCurrentBook (math : PipelineMath K F) (item : PortfolioDecisionInput α F)
    (state : PipelineState K) : Except PipelineError (CurrentBook K F) := do
  let marks ← collect (markHeld math item) state.positions
  let held := marks.filterMap (·.2)
  let equity := state.cash + held.foldl (fun total mark => total + mark.2.2) 0
  if equity ≤ 0 then .error .equityNotPositive
  else
    .ok
      { positions := marks.map (·.1)
        current := held.map fun mark =>
          { code := mark.1, shares := mark.2.1, marketValue := math.float mark.2.2 }
        weights := held.map fun mark => (mark.1, math.float (mark.2.2 / equity))
        equity }

def drawdown (math : PipelineMath K F) (highWater equity : K) : F :=
  if 0 < highWater then math.float ((highWater - equity) / highWater) else 0

/-- The entries of a book in the order of their symbols. -/
def sortedBook (positions : List (String × BookPosition K)) : List (String × BookPosition K) :=
  positions.insertionSort fun entry other => entry.1 ≤ other.1

/-- The open positions as the exit rules see them; a held position has a decision price. -/
def exitPositions (math : PipelineMath K F) (item : PortfolioDecisionInput α F)
    (positions : List (String × BookPosition K)) : List (ExitPositionSnapshot F) :=
  (sortedBook positions).filterMap fun entry =>
    if 0 < entry.2.quantity then
      match entry.2.openedOn, find entry.1 item.prices with
      | some openedOn, some price => some
        { symbol := entry.1
          filledQuantity := math.float ((entry.2.quantity : ℤ) : K)
          averagePrice := math.float entry.2.averagePrice
          currentPrice := price
          openedOn
          highWaterPrice := math.float entry.2.highWaterPrice
          realizedVolatility := find entry.1 item.realizedVolatility
          atr := find entry.1 item.atr }
      | _, _ => none
    else none

def pipelineNamespace (inputChecksum : String) : String :=
  "RR-PIPE-" ++ String.ofList (inputChecksum.toList.take 20)

/-- The id of the artifact of a kind at a place of a decision. -/
def researchId (runId kind : String) (index offset : ℕ) : String :=
  runId ++ ":" ++ kind ++ ":" ++ String.ofList (Text.padded 8 index) ++ ":" ++
    String.ofList (Text.padded 4 offset)

def instructionReason (unfilledShares : ℤ) : String :=
  if unfilledShares = 0 then "目标权重经组合/风险约束和整数手求解"
  else "目标权重经组合/风险约束和整数手求解" ++ ";容量约束未成交 " ++ toString unfilledShares

/-- `to_research_rebalance_instructions`: a trade that trades nothing is left out. -/
def toResearchRebalanceInstructions (math : PipelineMath K F) (runId : String) (index : ℕ)
    (lotInfo : List (String × AssetLotInfo F)) :
    ℕ → List (RebalanceTrade F) → Except PipelineError (List (RebalanceInstruction K))
  | _, [] => .ok []
  | offset, trade :: rest =>
    if noop : trade.deltaShares = 0 then
      toResearchRebalanceInstructions math runId index lotInfo offset rest
    else
      match find trade.symbol lotInfo with
      | none => .error (.missingLotSize trade.symbol)
      | some info => do
        let later ← toResearchRebalanceInstructions math runId index lotInfo (offset + 1) rest
        .ok ({ instructionId := researchId runId "I" index offset
               symbol := trade.symbol
               action := if 0 < trade.deltaShares then .openLong else .closeLong
               targetQuantity := trade.targetShares
               currentQuantity := trade.currentShares
               deltaQuantity := trade.deltaShares
               lotSize := info.lotSize
               estimatedValue := math.decimal (pyAbs trade.deltaValue)
               reason := instructionReason trade.unfilledShares
               valid := ⟨info.lotSize_pos, ⟨trade.nonneg.1, trade.nonneg.2.1⟩, noop⟩ } :: later)

def notional (math : PipelineMath K F) (quantity : ℤ) (price : F) (info : AssetLotInfo F) : K :=
  (quantity : K) * math.decimal price * math.decimal info.multiplier

/-- A number of basis points as a fraction. -/
def bpsFraction (math : PipelineMath K F) (bps : F) : K := math.decimal bps / ((10000 : ℕ) : K)

/-- `_clip_buy_quantity_to_cash`: by how much a purchase is cut to what the cash can pay. -/
def clipBuyQuantityToCash (math : PipelineMath K F) (fillQuantity : ℤ) (price : K)
    (info : AssetLotInfo F) (availableCash : K) (commissionRate commissionMin slippageBps : F) : ℤ :=
  let factor := 1 + math.decimal commissionRate + bpsFraction math slippageBps
  let costUpperBound :=
    notional math fillQuantity (math.float price) info * factor + math.decimal commissionMin
  if costUpperBound ≤ availableCash then 0
  else
    let unit := price * math.decimal info.multiplier
    if unit ≤ 0 then 0
    else
      let affordableNotional := (availableCash - math.decimal commissionMin) / factor
      if affordableNotional ≤ 0 then fillQuantity
      else
        let affordableShares :=
          math.truncate (affordableNotional / unit) / info.lotSize * info.lotSize
        if fillQuantity ≤ affordableShares then 0 else fillQuantity - affordableShares

/-- A purchase joins a book. -/
def openBook (book : BookPosition K) (fill : ResearchFill K) (businessDate : ℤ) : BookPosition K :=
  let totalQuantity := book.quantity + fill.quantity
  let highWaterPrice := if book.quantity = 0 then fill.price else book.highWaterPrice
  { book with
    averagePrice :=
      (book.averagePrice * (book.quantity : K) + fill.price * (fill.quantity : K)) /
        (totalQuantity : K)
    openedOn := if book.quantity = 0 then some businessDate else book.openedOn
    quantity := totalQuantity
    highWaterPrice := pyMax highWaterPrice fill.price }

/-- A sale leaves a book, which is cleared when nothing is left. -/
def closeBook (book : BookPosition K) (fill : ResearchFill K) (multiplier : K) : BookPosition K :=
  let realizedPnl :=
    book.realizedPnl + (fill.price - book.averagePrice) * (fill.quantity : K) * multiplier
  if book.quantity - fill.quantity = 0 then { quantity := 0, realizedPnl }
  else { book with quantity := book.quantity - fill.quantity, realizedPnl }

def bookOf (positions : List (String × BookPosition K)) (symbol : String) : BookPosition K :=
  (find symbol positions).getD {}

/-- What a fill costs goes to the costs; the account must not go below zero. -/
def payCosts (state : PipelineState K) (fill : ResearchFill K) : Except PipelineError (PipelineState K) :=
  if state.cash < -moneyEpsilon then .error .cashNegative
  else .ok
    { state with
      feesPaid := state.feesPaid + fill.commission
      taxPaid := state.taxPaid + fill.tax
      slippagePaid := state.slippagePaid + fill.slippage }

def applyResearchFill (math : PipelineMath K F) (state : PipelineState K) (fill : ResearchFill K)
    (info : AssetLotInfo F) (businessDate : ℤ) : Except PipelineError (PipelineState K) :=
  let book := bookOf state.positions fill.symbol
  let multiplier := math.decimal info.multiplier
  let amount := (fill.quantity : K) * fill.price * multiplier
  match fill.action with
  | .openLong => payCosts
      { state with
        positions := assign fill.symbol (openBook book fill businessDate) state.positions
        cash := state.cash - (amount + fill.commission + fill.slippage) } fill
  | .closeLong =>
    if book.quantity < fill.quantity then .error (.oversold fill.symbol)
    else payCosts
      { state with
        positions := assign fill.symbol (closeBook book fill multiplier) state.positions
        cash := state.cash + (amount - fill.commission - fill.tax - fill.slippage) } fill
  | _ => .error .notLongOnly

/-- A fill as its constructor accepts it. -/
def newFill (researchFillId researchOrderId symbol : String) (action : ResearchFillAction) (quantity : ℤ)
    (price commission tax slippage : K) (filledAt : ℤ) : Except PipelineError (ResearchFill K) :=
  if valid : 0 < quantity ∧ 0 < price ∧ 0 ≤ commission ∧ 0 ≤ tax ∧ 0 ≤ slippage then .ok
    { researchFillId, researchOrderId, symbol, action, quantity, price, commission, tax, slippage
      filledAt
      quantity_pos := valid.1
      price_pos := valid.2.1
      nonneg := valid.2.2 }
  else .error .invalidRecord

/-- An order as its constructor accepts it. -/
def newOrder (researchOrderId : String) (instruction : RebalanceInstruction K) (quantity : ℤ)
    (status : ResearchOrderStatus) (rejectReason : Option String) : Except PipelineError ResearchOrder :=
  if valid : 0 < quantity ∧ (status = .rejected → rejectReason.getD "" ≠ "") then .ok
    { researchOrderId
      instructionId := instruction.instructionId
      symbol := instruction.symbol
      action := instruction.action
      quantity, status, rejectReason, valid }
  else .error .invalidRecord

/-- Why an order is refused before it is priced. -/
def rejectReason (item : PortfolioDecisionInput α F) (symbol : String) (fillQuantity : ℤ) :
    Option String :=
  if symbol ∈ item.rejectedSymbols then some "冻结研究输入指定拒单"
  else if symbol ∈ item.suspendedSymbols then some "停牌日拒绝成交(execution_suspended)"
  else if fillQuantity ≤ 0 then some "成交比例不足一个合法交易单位"
  else none

/-- What one instruction leaves: the state, its order and its fill. -/
structure Execution (K : Type) [DecimalArithmetic K] where
  state : PipelineState K
  order : ResearchOrder
  fill : Option (ResearchFill K)

/-- A refused order counts as missed in full. -/
def rejectInstruction (math : PipelineMath K F) (state : PipelineState K)
    (instruction : RebalanceInstruction K) (info : AssetLotInfo F) (executionPrice : F)
    (orderId : String) (reason : String) : Except PipelineError (Execution K) := do
  let order ← newOrder orderId instruction |instruction.deltaQuantity| .rejected (some reason)
  let missed := notional math |instruction.deltaQuantity| executionPrice info
  .ok { state := { state with fillShortfall := state.fillShortfall + missed }, order, fill := none }

section Instruction

variable (setup : PipelineSetup α ω K F) (item : PortfolioDecisionInput α F) (index : ℕ)

def fillInstruction (offset : ℕ) (state : PipelineState K) (instruction : RebalanceInstruction K)
    (info : AssetLotInfo F) (executionPrice : F) (commissionRate commissionMin slippageBps : F)
    (filled : ℤ) : Except PipelineError (Execution K) := do
  let math := setup.math
  let runId := pipelineNamespace setup.inputChecksum
  let orderId := researchId runId "O" index offset
  let orderQuantity := |instruction.deltaQuantity|
  let fillPrice := math.decimal executionPrice
  let order ← newOrder orderId instruction orderQuantity
    (if filled = orderQuantity then .filled else .partiallyFilled) none
  let shortfall :=
    if filled < orderQuantity then
      state.fillShortfall + notional math (orderQuantity - filled) (math.float fillPrice) info
    else state.fillShortfall
  let amount := notional math filled (math.float fillPrice) info
  let taxRate := info.stampTaxRate.getD setup.executionModel.sellTaxRate
  let fill ← newFill (researchId runId "F" index offset) orderId instruction.symbol
    instruction.action filled fillPrice
    (pyMax (amount * math.decimal commissionRate) (math.decimal commissionMin))
    (if instruction.action = .closeLong then amount * math.decimal taxRate else 0)
    (amount * math.decimal slippageBps / ((10000 : ℕ) : K)) item.executionAt
  let after ← applyResearchFill math { state with fillShortfall := shortfall } fill info
    item.businessDate
  .ok { state := after, order, fill := some fill }

/-- The loop body of `_execute_research_plan`. -/
def executeInstruction (offset : ℕ) (state : PipelineState K)
    (instruction : RebalanceInstruction K) : Except PipelineError (Execution K) :=
  match find instruction.symbol item.lotInfo, find instruction.symbol item.executionPrices with
  | some info, some executionPrice =>
    let math := setup.math
    let orderId := researchId (pipelineNamespace setup.inputChecksum) "O" index offset
    let ratio := (find instruction.symbol item.fillRatioBySymbol).getD 1
    let raw := math.truncate (((|instruction.deltaQuantity| : ℤ) : K) * math.decimal ratio)
    let fillQuantity := raw / info.lotSize * info.lotSize
    match rejectReason item instruction.symbol fillQuantity with
    | some reason => rejectInstruction math state instruction info executionPrice orderId reason
    | none =>
      let commissionRate := info.commissionRate.getD setup.executionModel.commissionRate
      let commissionMin := info.commissionMin.getD setup.executionModel.minimumCommission
      let slippageBps :=
        if 0 < info.slippageBps then info.slippageBps else setup.executionModel.slippageBps
      -- Only a purchase is cut; what is left of it is filled.
      let clipped :=
        if instruction.action = .openLong then
          clipBuyQuantityToCash math fillQuantity (math.decimal executionPrice) info state.cash
            commissionRate commissionMin slippageBps
        else 0
      let filled := if 0 < clipped then fillQuantity - clipped else fillQuantity
      if filled ≤ 0 then
        rejectInstruction math state instruction info executionPrice orderId
          "可用现金不足一手,末端买入按现金裁剪拒单"
      else
        fillInstruction setup item index offset state instruction info executionPrice
          commissionRate commissionMin slippageBps filled
  | _, _ => .error (.missingKey instruction.symbol)

/-- What a plan leaves: the state, the orders and the fills. -/
structure PlanExecution (K : Type) [DecimalArithmetic K] where
  state : PipelineState K
  orders : List ResearchOrder
  fills : List (ResearchFill K)

def executeInstructions : ℕ → PipelineState K → List (RebalanceInstruction K) →
    Except PipelineError (PlanExecution K)
  | _, state, [] => .ok { state, orders := [], fills := [] }
  | offset, state, instruction :: rest => do
    let done ← executeInstruction setup item index offset state instruction
    let later ← executeInstructions (offset + 1) done.state rest
    .ok
      { state := later.state
        orders := done.order :: later.orders
        fills := done.fill.toList ++ later.fills }

/-- What the sizing could not place counts as missed. -/
def missedTrade (math : PipelineMath K F) (state : PipelineState K) (trade : RebalanceTrade F) :
    Except PipelineError (PipelineState K) :=
  if 0 < trade.unfilledShares then
    match find trade.symbol item.prices, find trade.symbol item.lotInfo with
    | some decisionPrice, some info =>
      let price := (find trade.symbol item.executionPrices).getD decisionPrice
      .ok { state with
        fillShortfall := state.fillShortfall +
          math.decimal ((trade.unfilledShares : F) * price * info.multiplier) }
    | _, _ => .error (.missingKey trade.symbol)
  else .ok state

def executeResearchPlan (state : PipelineState K) (trades : List (RebalanceTrade F))
    (instructions : List (RebalanceInstruction K)) : Except PipelineError (PlanExecution K) := do
  let missed ← trades.foldlM (missedTrade item setup.math) state
  executeInstructions setup item index 0 missed instructions

end Instruction

/-- A position marked at its execution price; it is recorded while it is held or has a profit. -/
structure PositionMark (K : Type) [DecimalArithmetic K] where
  value : K
  realized : K
  unrealized : K
  recorded : Option (ResearchPosition K)

/-- A position as its constructor accepts it. -/
def newPosition (symbol : String) (book : BookPosition K) (marketPrice marketValue unrealizedPnl : K) :
    Except PipelineError (ResearchPosition K) :=
  if nonneg : 0 ≤ book.quantity ∧ 0 ≤ book.averagePrice ∧ 0 ≤ marketPrice then .ok
    { symbol
      quantity := book.quantity
      averagePrice := book.averagePrice
      marketPrice, marketValue
      realizedPnl := book.realizedPnl
      unrealizedPnl, nonneg }
  else .error .invalidRecord

/-- A position is held, or was and left a profit or a loss. -/
def isRecorded (book : BookPosition K) : Bool := 0 < book.quantity || book.realizedPnl != 0

def executionPriceOf (math : PipelineMath K F) (prices : List (String × F)) (symbol : String) : K :=
  math.decimal ((find symbol prices).getD 0)

def markPosition (math : PipelineMath K F) (item : PortfolioDecisionInput α F)
    (entry : String × BookPosition K) : Except PipelineError (PositionMark K) := do
  let book := entry.2
  let price := executionPriceOf math item.executionPrices entry.1
  let info := find entry.1 item.lotInfo
  if info.isNone && isRecorded book then .error (.missingMetadata entry.1)
  else
    let multiplier := math.decimal (info.elim 1 (·.multiplier))
    let value := (book.quantity : K) * price * multiplier
    let unrealized :=
      if 0 < book.quantity then (price - book.averagePrice) * (book.quantity : K) * multiplier else 0
    if isRecorded book then
      let position ← newPosition entry.1 book price value unrealized
      .ok { value, realized := book.realizedPnl, unrealized, recorded := some position }
    else .ok { value, realized := book.realizedPnl, unrealized, recorded := none }

def raiseHighWater (math : PipelineMath K F) (item : PortfolioDecisionInput α F)
    (entry : String × BookPosition K) : String × BookPosition K :=
  if 0 < entry.2.quantity then
    (entry.1, { entry.2 with
      highWaterPrice :=
        pyMax entry.2.highWaterPrice (executionPriceOf math item.executionPrices entry.1) })
  else entry

/-- A ledger as its constructor accepts it. -/
def newLedger (cash marketValue realizedPnl unrealizedPnl equity feesPaid taxPaid slippagePaid
    fillShortfall : K) : Except PipelineError (LedgerSnapshot K) :=
  if valid : (0 ≤ feesPaid ∧ 0 ≤ taxPaid ∧ 0 ≤ slippagePaid ∧ 0 ≤ fillShortfall) ∧
      pyAbs (cash + marketValue - equity) ≤ (moneyEpsilon : K) then .ok
    { cash, marketValue, realizedPnl, unrealizedPnl, equity, feesPaid, taxPaid, slippagePaid
      fillShortfall
      nonneg := valid.1
      identity := valid.2 }
  else .error .invalidRecord

/-- The account after a decision. -/
structure MarkedBook (K : Type) [DecimalArithmetic K] where
  state : PipelineState K
  positions : List (ResearchPosition K)
  ledger : LedgerSnapshot K

def markAfterExecution (math : PipelineMath K F) (item : PortfolioDecisionInput α F)
    (state : PipelineState K) : Except PipelineError (MarkedBook K) := do
  let marks ← collect (markPosition math item) (sortedBook state.positions)
  let marketValue := marks.foldl (fun total mark => total + mark.value) 0
  let realized := marks.foldl (fun total mark => total + mark.realized) 0
  let unrealized := marks.foldl (fun total mark => total + mark.unrealized) 0
  let equity := state.cash + marketValue
  let ledger ← newLedger state.cash marketValue realized unrealized equity state.feesPaid
    state.taxPaid state.slippagePaid state.fillShortfall
  .ok
    { state :=
        { state with
          positions := state.positions.map (raiseHighWater math item)
          equityHighWater := pyMax state.equityHighWater equity }
      positions := marks.filterMap (·.recorded)
      ledger }

/-- `_risk_state`, as its constructor accepts it. -/
def riskStateOf (math : PipelineMath K F) (state : PipelineState K) (ledger : LedgerSnapshot K) :
    Except PipelineError (ResearchRiskState K F) :=
  let openedOn := (sortedBook state.positions).filterMap fun entry =>
    if 0 < entry.2.quantity then entry.2.openedOn.map (entry.1, ·) else none
  let highWaterPrices := (sortedBook state.positions).filterMap fun entry =>
    if 0 < entry.2.quantity then some (entry.1, math.float entry.2.highWaterPrice) else none
  let below := drawdown math state.equityHighWater ledger.equity
  if valid : 0 ≤ state.equityHighWater ∧ (0 ≤ below ∧ below ≤ 1) ∧
      ∀ entry ∈ highWaterPrices, 0 < entry.2 then .ok
    { cooldownUntil := state.cooldownUntil
      openedOn, highWaterPrices
      portfolioEquityHighWater := state.equityHighWater
      portfolioDrawdown := below
      portfolioPaused := state.portfolioPaused
      highWater_nonneg := valid.1
      drawdown_unit := valid.2.1
      highWaters_pos := valid.2.2 }
  else .error .invalidRecord

def buildDecision (setup : PipelineSetup α ω K F) (index : ℕ) (state : PipelineState K)
    (item : PortfolioDecisionInput α F) :
    Except PipelineError (DecisionBundle ω K F × PipelineState K) := do
  let math := setup.math
  let book ← markCurrentBook math item state
  let equityHighWater := pyMax state.equityHighWater book.equity
  let below := drawdown math equityHighWater book.equity
  let portfolio ← stage (setup.stages.buildPortfolio item book.weights below)
  let exits ← stage (setup.stages.executeRiskExitPolicy portfolio
    (exitPositions math item book.positions) item.businessDate below state.cooldownUntil)
  let tiers ← stage (setup.stages.evaluateCapitalTiers item exits.target)
  let trades ← stage (setup.stages.solveSizing item exits.target (math.float book.equity) book.current)
  let instructions ← toResearchRebalanceInstructions math (pipelineNamespace setup.inputChecksum)
    index item.lotInfo 0 trades
  let executed ← executeResearchPlan setup item index
    { state with
      positions := book.positions
      equityHighWater
      cooldownUntil := exits.cooldownUntil
      portfolioPaused := exits.portfolioPaused } trades instructions
  let marked ← markAfterExecution math item executed.state
  let riskState ← riskStateOf math marked.state marked.ledger
  let decision : DecisionBundle ω K F :=
    { businessDate := item.businessDate
      decisionAt := item.decisionAt
      portfolio
      riskExits := exits.decisions
      riskState
      capitalFeasibility := tiers
      rebalancePlan := instructions
      orders := executed.orders
      fills := executed.fills
      positions := marked.positions
      ledger := marked.ledger
      pipelineEvidence := none }
  let evidence ← stage (setup.stages.evidence item decision)
  .ok ({ decision with pipelineEvidence := some evidence }, marked.state)

def initialState (initialCapital : K) : PipelineState K :=
  { cash := initialCapital, equityHighWater := initialCapital }

def freshDecisions (setup : PipelineSetup α ω K F) (inputs : List (PortfolioDecisionInput α F)) :
    List (DecisionBundle ω K F) × Option PipelineError :=
  Runs.outputs (buildDecision setup) 0 (initialState setup.initialCapital) inputs

end FinDashboard.Portfolio
