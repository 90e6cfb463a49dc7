import FinDashboard.Ledger.Table
import FinDashboard.Portfolio.Execution
import Mathlib.Tactic.FieldSimp
import Mathlib.Tactic.LinearCombination
import Mathlib.Tactic.Positivity

/-!
# The ledger adds up

In exact arithmetic the cash is what the run started with, less what the open positions cost, plus what
was realized, less the costs; and the costs only grow.
-/

namespace FinDashboard.Portfolio

open Ledger Runs List

/-- Exact decimals. -/
scoped instance exactDecimals {K : Type} [Field K] [LinearOrder K] : DecimalArithmetic K where
  decidableLT := inferInstance
  decidableLE := inferInstance

/-- Exact floats. -/
scoped instance exactFloats {F : Type} [Field F] [LinearOrder F] : FloatArithmetic F where
  decidableLT := inferInstance
  decidableLE := inferInstance

variable {α ω K F : Type} [Field K] [LinearOrder K] [FloatArithmetic F]

/-- No symbol has two multipliers. -/
def SameMultipliers (inputs : List (PortfolioDecisionInput α F)) : Prop :=
  ∀ item ∈ inputs, ∀ other ∈ inputs, ∀ symbol info otherInfo,
    find symbol item.lotInfo = some info → find symbol other.lotInfo = some otherInfo →
      info.multiplier = otherInfo.multiplier

def multiplierIn (math : PipelineMath K F) (item : PortfolioDecisionInput α F) (symbol : String) : K :=
  math.decimal ((find symbol item.lotInfo).elim 1 (·.multiplier))

def openCost (math : PipelineMath K F) (item : PortfolioDecisionInput α F)
    (decision : DecisionBundle ω K F) : K :=
  total (fun position =>
      position.averagePrice * (position.quantity : K) * multiplierIn math item position.symbol)
    (decision.positions.filter fun position => 0 < position.quantity)

/-- The ledger of a decision adds up from the initial capital. -/
structure LedgerIdentity (math : PipelineMath K F) (initialCapital : K)
    (item : PortfolioDecisionInput α F) (decision : DecisionBundle ω K F) : Prop where
  cash : decision.ledger.cash = initialCapital - openCost math item decision +
    decision.ledger.realizedPnl - decision.ledger.feesPaid - decision.ledger.taxPaid -
      decision.ledger.slippagePaid
  equity : decision.ledger.equity = initialCapital + decision.ledger.realizedPnl +
    decision.ledger.unrealizedPnl - decision.ledger.feesPaid - decision.ledger.taxPaid -
      decision.ledger.slippagePaid

/-- No cumulative cost of a ledger is above that of a later one. -/
structure CostsGrow (earlier later : LedgerSnapshot K) : Prop where
  fees : earlier.feesPaid ≤ later.feesPaid
  tax : earlier.taxPaid ≤ later.taxPaid
  slippage : earlier.slippagePaid ≤ later.slippagePaid
  shortfall : earlier.fillShortfall ≤ later.fillShortfall

section Books

variable {m : String → K} {symbol : String} {book : BookPosition K} {fill : ResearchFill K}

def costOf (m : String → K) (entry : String × BookPosition K) : K :=
  entry.2.averagePrice * (entry.2.quantity : K) * m entry.1

def profitOf (entry : String × BookPosition K) : K := entry.2.realizedPnl

theorem total_of_holdings {weight : String × BookPosition K → K}
    {positions others : List (String × BookPosition K)}
    (same : others.map holding = positions.map holding)
    (blind : ∀ entry, weight (holding entry) = weight entry) :
    total weight others = total weight positions := by
  have read : weight ∘ holding = weight := funext blind
  have weights := congrArg (map weight) same
  rw [map_map, map_map, read] at weights
  exact congrArg sum weights

theorem costOf_new (m : String → K) (symbol : String) : costOf m (symbol, {}) = 0 := by
  have empty : costOf m (symbol, {}) = 0 * ((0 : ℤ) : K) * m symbol := rfl
  rw [empty, zero_mul, zero_mul]

theorem costOf_closeBook (multiplier : K) : costOf m (symbol, closeBook book fill multiplier) =
      costOf m (symbol, book) - book.averagePrice * (fill.quantity : K) * m symbol := by
  unfold closeBook
  dsimp only
  split_ifs with empty
  · have all : book.quantity = fill.quantity := by omega
    rw [costOf, costOf, all]
    have none : (0 : K) * ((0 : ℤ) : K) * m symbol = 0 := by rw [zero_mul, zero_mul]
    have same : book.averagePrice * (fill.quantity : K) * m symbol -
        book.averagePrice * (fill.quantity : K) * m symbol = 0 := sub_self _
    exact none.trans same.symm
  · rw [costOf, costOf]
    dsimp only
    rw [Int.cast_sub]
    ring

theorem profitOf_closeBook (multiplier : K) :
    profitOf (symbol, closeBook book fill multiplier) = profitOf (symbol, book) +
      (fill.price - book.averagePrice) * (fill.quantity : K) * multiplier := by
  unfold closeBook
  dsimp only
  split_ifs <;> rfl

end Books

/-- The cash of an account is the initial capital without what its book cost and what was paid. -/
structure Balanced (m : String → K) (initialCapital : K) (state : PipelineState K) : Prop where
  sound : SoundBook state.positions
  identity : state.cash = initialCapital - total (costOf m) state.positions +
    total profitOf state.positions - state.feesPaid - state.taxPaid - state.slippagePaid

section Balance

variable {m : String → K} {initialCapital : K} {state : PipelineState K}

theorem Balanced.missed (balanced : Balanced m initialCapital state) (shortfall : K) :
    Balanced m initialCapital { state with fillShortfall := shortfall } :=
  ⟨balanced.sound, balanced.identity⟩

theorem Balanced.of_holdings {other : PipelineState K} (balanced : Balanced m initialCapital state)
    (same : other.positions.map holding = state.positions.map holding) (cash : other.cash = state.cash)
    (fees : other.feesPaid = state.feesPaid) (tax : other.taxPaid = state.taxPaid)
    (slippage : other.slippagePaid = state.slippagePaid) : Balanced m initialCapital other := by
  refine ⟨balanced.sound.of_holdings same, ?_⟩
  rw [cash, fees, tax, slippage, total_of_holdings same fun _ => rfl, total_of_holdings same fun _ => rfl]
  exact balanced.identity

theorem balanced_initial (m : String → K) (initialCapital : K) :
    Balanced m initialCapital (initialState initialCapital) := by
  refine ⟨⟨nodup_nil, nofun, nofun⟩, ?_⟩
  have start : initialCapital = initialCapital - 0 + 0 - 0 - 0 - 0 := by ring
  exact start

end Balance

section Marks

variable {m : String → K} {math : PipelineMath K F} {item : PortfolioDecisionInput α F}
  {entry : String × BookPosition K} {mark : PositionMark K}

/-- The multipliers of an input are those of the run. -/
def AgreesWith (math : PipelineMath K F) (m : String → K) (item : PortfolioDecisionInput α F) : Prop :=
  ∀ symbol info, find symbol item.lotInfo = some info → math.decimal info.multiplier = m symbol

def recordedCost (math : PipelineMath K F) (item : PortfolioDecisionInput α F)
    (position : ResearchPosition K) : K :=
  position.averagePrice * (position.quantity : K) * multiplierIn math item position.symbol

/-- A mark shows the profit of its position; its value without its gain is the cost, and so is what is
recorded of it while it is open. -/
theorem markPosition_ok (agrees : AgreesWith math m item) (nonneg : 0 ≤ entry.2.quantity)
    (marked : markPosition math item entry = .ok mark) :
    mark.realized = profitOf entry ∧ mark.value - mark.unrealized = costOf m entry ∧
      mark.recorded.elim 0 (fun position =>
        if 0 < position.quantity then recordedCost math item position else 0) = costOf m entry := by
  unfold markPosition at marked
  dsimp only at marked
  by_cases missing : ((find entry.1 item.lotInfo).isNone && isRecorded entry.2) = true
  · rw [if_pos missing] at marked
    cases marked
  · rw [if_neg missing] at marked
    by_cases held : 0 < entry.2.quantity
    · have shown : isRecorded entry.2 = true := by simp [isRecorded, held]
      have known : multiplierIn math item entry.1 = m entry.1 := by
        cases found : find entry.1 item.lotInfo with
        | none => simp [found, shown] at missing
        | some info =>
          unfold multiplierIn
          rw [found]
          exact agrees _ _ found
      rw [if_pos shown, if_pos held] at marked
      obtain ⟨position, made, marked⟩ := bind_eq_ok.mp marked
      cases marked
      obtain ⟨symbol, quantity, average, -⟩ := newPosition_ok made
      refine ⟨rfl, ?_, ?_⟩
      · change _ * _ * multiplierIn math item entry.1 - _ * _ * multiplierIn math item entry.1 = _
        rw [known, costOf]
        ring
      · change (if 0 < position.quantity then recordedCost math item position else 0) = _
        rw [if_pos (quantity ▸ held), recordedCost, symbol, quantity, average, known, costOf]
    · have empty : entry.2.quantity = 0 := by omega
      have free : costOf m entry = 0 := by rw [costOf, empty, Int.cast_zero, mul_zero, zero_mul]
      rw [if_neg held] at marked
      split_ifs at marked with shown
      · obtain ⟨position, made, marked⟩ := bind_eq_ok.mp marked
        cases marked
        obtain ⟨-, quantity, -⟩ := newPosition_ok made
        refine ⟨rfl, ?_, ?_⟩
        · change ((entry.2.quantity : ℤ) : K) * _ * _ - 0 = _
          rw [empty, Int.cast_zero, zero_mul, zero_mul, sub_zero, free]
        · change (if 0 < position.quantity then recordedCost math item position else 0) = _
          rw [if_neg (quantity ▸ held), free]
      · cases marked
        refine ⟨rfl, ?_, free.symm⟩
        change ((entry.2.quantity : ℤ) : K) * _ * _ - 0 = _
        rw [empty, Int.cast_zero, zero_mul, zero_mul, sub_zero, free]

end Marks

variable [IsStrictOrderedRing K]

section Fills

variable {m : String → K} {symbol : String} {book : BookPosition K} {initialCapital : K}
  {math : PipelineMath K F} {state after : PipelineState K} {fill : ResearchFill K}
  {info : AssetLotInfo F} {day : ℤ}

theorem costOf_openBook (day : ℤ) (nonneg : 0 ≤ book.quantity) :
    costOf m (symbol, openBook book fill day) =
      costOf m (symbol, book) + fill.price * (fill.quantity : K) * m symbol := by
  have positive : (0 : ℤ) < book.quantity + fill.quantity := by
    have := fill.quantity_pos
    omega
  have apart : ((book.quantity + fill.quantity : ℤ) : K) ≠ 0 := Int.cast_ne_zero.mpr (by omega)
  have cost : costOf m (symbol, openBook book fill day) =
      (book.averagePrice * (book.quantity : K) + fill.price * (fill.quantity : K)) /
        ((book.quantity + fill.quantity : ℤ) : K) * ((book.quantity + fill.quantity : ℤ) : K) *
          m symbol := rfl
  rw [cost, div_mul_cancel₀ _ apart, costOf, add_mul]

/-- An opened position costs what it takes from the cash, and a closed one returns it with its profit. -/
theorem Applied.balanced (applied : Applied math state fill info day after)
    (known : math.decimal info.multiplier = m fill.symbol)
    (untaxed : fill.action = .openLong → fill.tax = 0) (balanced : Balanced m initialCapital state) :
    Balanced m initialCapital after := by
  refine ⟨applied.sound balanced.sound, ?_⟩
  have identity := balanced.identity
  have nonneg := (balanced.sound.bookOf fill.symbol).1
  have light := costOf_new m fill.symbol
  cases applied with
  | opened action =>
    have costs : total (costOf m) (assign fill.symbol
        (openBook (bookOf state.positions fill.symbol) fill day) state.positions) =
          total (costOf m) state.positions + fill.price * (fill.quantity : K) * m fill.symbol := by
      rw [total_assign {} light, costOf_openBook day nonneg]
      unfold bookOf
      ring
    have profits : total profitOf (assign fill.symbol
        (openBook (bookOf state.positions fill.symbol) fill day) state.positions) =
          total profitOf state.positions := by
      rw [total_assign {} rfl]
      exact add_sub_cancel_right _ _
    dsimp only
    rw [costs, profits, untaxed action, known, identity]
    ring
  | closed action covered =>
    have costs : total (costOf m) (assign fill.symbol
        (closeBook (bookOf state.positions fill.symbol) fill (math.decimal info.multiplier))
          state.positions) = total (costOf m) state.positions -
            (bookOf state.positions fill.symbol).averagePrice * (fill.quantity : K) *
              m fill.symbol := by
      rw [total_assign {} light, costOf_closeBook]
      unfold bookOf
      ring
    have profits : total profitOf (assign fill.symbol
        (closeBook (bookOf state.positions fill.symbol) fill (math.decimal info.multiplier))
          state.positions) = total profitOf state.positions +
            (fill.price - (bookOf state.positions fill.symbol).averagePrice) *
              (fill.quantity : K) * m fill.symbol := by
      rw [total_assign {} rfl, profitOf_closeBook, known]
      unfold bookOf
      ring
    dsimp only
    rw [costs, profits, known, identity]
    ring

end Fills

section Decisions

variable {m : String → K} {setup : PipelineSetup α ω K F} {item : PortfolioDecisionInput α F}
  {index : ℕ} {state next : PipelineState K} {decision : DecisionBundle ω K F}

/-- The book a decision marks last is balanced, and the ledger shows it. -/
theorem Decided.identity (decided : Decided setup index state item decision next)
    (agrees : AgreesWith setup.math m item) (balanced : Balanced m setup.initialCapital state) :
    Balanced m setup.initialCapital next ∧
      LedgerIdentity setup.math setup.initialCapital item decision := by
  cases decided with
  | intro book exits trades instructions executed marked current planned after risk times fills
      positions ledger =>
    have marking : Balanced m setup.initialCapital
        { state with
          positions := book.positions
          equityHighWater := pyMax state.equityHighWater book.equity
          cooldownUntil := exits.cooldownUntil
          portfolioPaused := exits.portfolioPaused } :=
      balanced.of_holdings (holdings_markCurrentBook current) rfl rfl rfl rfl
    have trading : Balanced m setup.initialCapital executed.state := by
      refine executeResearchPlan_invariant ?_ ?_ planned marking
      · exact fun _ shortfall held _ => held.missed shortfall
      · exact fun _ fill info _ held known untaxed applied =>
          applied.balanced (agrees _ _ known) untaxed held
    obtain ⟨marks, account⟩ := markAfterExecution_ok after
    have sorted : (sortedBook executed.state.positions).Perm executed.state.positions :=
      perm_insertionSort _ _
    have nonneg := fun entry member => trading.sound.nonneg entry (sorted.mem_iff.mp member)
    have each := fun entry member mark (done : markPosition setup.math item entry = .ok mark) =>
      markPosition_ok agrees (nonneg entry member) done
    have realized : total PositionMark.realized marks = total profitOf executed.state.positions := by
      rw [← total_perm sorted]
      exact congrArg sum
        (collect_map account.collected fun entry member mark done => (each entry member mark done).1)
    have value : total (fun mark => mark.value - mark.unrealized) marks =
        total (costOf m) executed.state.positions := by
      rw [← total_perm sorted]
      exact congrArg sum
        (collect_map account.collected fun entry member mark done => (each entry member mark done).2.1)
    have recorded : openCost setup.math item decision = total (costOf m) executed.state.positions := by
      rw [openCost, total_filter, positions, account.positions_eq, total_filterMap, ← total_perm sorted]
      refine congrArg sum (collect_map account.collected fun entry member mark done => ?_)
      have shown := (each entry member mark done).2.2
      simpa [recordedCost] using shown
    rw [total_sub] at value
    have profit := account.realized_eq.trans (foldl_total _ _ _)
    have gain := account.unrealized_eq.trans (foldl_total _ _ _)
    have equity := account.equity_eq
    obtain ⟨fees, tax, slippage, -⟩ := account.costs_eq
    have identity := trading.identity
    refine ⟨?_, ?_, ?_⟩
    · rw [account.state_eq]
      exact trading.of_holdings (holdings_raiseHighWater _) rfl rfl rfl rfl
    · rw [ledger, account.cash_eq, recorded, fees, tax, slippage, profit, realized, identity]
      ring
    · rw [ledger, equity, fees, tax, slippage, profit, gain, foldl_total, realized, identity]
      linear_combination value

theorem MissedMore.le {math : PipelineMath K F} {before shortfall : K}
    (missed : MissedMore math before shortfall) : before ≤ shortfall := by
  cases missed with
  | nothing => exact le_refl before
  | priced quantity price info some nonneg =>
    have shares : (0 : K) ≤ (quantity : K) := Int.cast_nonneg some
    have prices := math.decimal_nonneg price nonneg
    have multiplier := math.decimal_nonneg _ (math.nonneg_of_pos _ info.multiplier_pos)
    exact le_add_of_nonneg_right (mul_nonneg (mul_nonneg shares prices) multiplier)
  | valued value nonneg => exact le_add_of_nonneg_right (math.decimal_nonneg value nonneg)

/-- The cumulative costs of an account. -/
def costsOf (state : PipelineState K) : K × K × K × K :=
  (state.feesPaid, state.taxPaid, state.slippagePaid, state.fillShortfall)

def ledgerCosts (ledger : LedgerSnapshot K) : K × K × K × K :=
  (ledger.feesPaid, ledger.taxPaid, ledger.slippagePaid, ledger.fillShortfall)

theorem Applied.costs_le {math : PipelineMath K F} {after : PipelineState K} {fill : ResearchFill K}
    {info : AssetLotInfo F} {day : ℤ} (applied : Applied math state fill info day after) :
    costsOf state ≤ costsOf after := by
  obtain ⟨commission, tax, slippage⟩ := fill.nonneg
  have fees : state.feesPaid ≤ state.feesPaid + fill.commission := le_add_of_nonneg_right commission
  have taxes : state.taxPaid ≤ state.taxPaid + fill.tax := le_add_of_nonneg_right tax
  have slips : state.slippagePaid ≤ state.slippagePaid + fill.slippage :=
    le_add_of_nonneg_right slippage
  cases applied <;> exact ⟨fees, taxes, slips, le_refl _⟩

/-- A decision lowers no cost, and its ledger shows them. -/
theorem Decided.costs_le (decided : Decided setup index state item decision next) :
    costsOf state ≤ ledgerCosts decision.ledger ∧ ledgerCosts decision.ledger = costsOf next := by
  cases decided with
  | intro book exits trades instructions executed marked current planned after risk times fills
      positions ledger =>
    have trading : costsOf state ≤ costsOf executed.state := by
      refine executeResearchPlan_invariant (P := fun reached => costsOf state ≤ costsOf reached) ?_ ?_
        planned (le_refl (costsOf state))
      · intro reached shortfall held missed
        obtain ⟨fees, tax, slippage, before⟩ := held
        exact ⟨fees, tax, slippage, le_trans before missed.le⟩
      · intro reached fill info further held _ _ applied
        exact le_trans held applied.costs_le
    obtain ⟨marks, account⟩ := markAfterExecution_ok after
    obtain ⟨fees, tax, slippage, shortfall⟩ := account.costs_eq
    have shown : ledgerCosts decision.ledger = costsOf executed.state := by
      rw [ledger, ledgerCosts, costsOf, fees, tax, slippage, shortfall]
    refine ⟨shown ▸ trading, ?_⟩
    rw [account.state_eq]
    exact shown

end Decisions

def agreedMultiplier (math : PipelineMath K F) (inputs : List (PortfolioDecisionInput α F))
    (symbol : String) : K :=
  math.decimal ((inputs.findSome? fun item => find symbol item.lotInfo).elim 1 (·.multiplier))

omit [IsStrictOrderedRing K] in
theorem SameMultipliers.agrees (math : PipelineMath K F) {inputs : List (PortfolioDecisionInput α F)}
    {item : PortfolioDecisionInput α F} (same : SameMultipliers inputs) (member : item ∈ inputs) :
    AgreesWith math (agreedMultiplier math inputs) item := by
  intro symbol info known
  unfold agreedMultiplier
  cases found : inputs.findSome? fun item => find symbol item.lotInfo with
  | none =>
    have absent := findSome?_eq_none_iff.mp found item member
    rw [known] at absent
    cases absent
  | some first =>
    obtain ⟨other, there, knows⟩ := exists_of_findSome?_eq_some found
    rw [Option.elim_some, same item member other there symbol info first known knows]

/-- After every decision of a run the ledger adds up from the initial capital, and from one decision to
a later one no cumulative cost falls. -/
theorem ledger_identity (setup : PipelineSetup α ω K F) (inputs : List (PortfolioDecisionInput α F))
    (same : SameMultipliers inputs) :
    (∀ (i : ℕ) decision, (freshDecisions setup inputs).1[i]? = some decision →
      ∃ item, inputs[i]? = some item ∧ LedgerIdentity setup.math setup.initialCapital item decision) ∧
      (freshDecisions setup inputs).1.Pairwise fun earlier later =>
        CostsGrow earlier.ledger later.ledger := by
  constructor
  · intro i decision found
    have start := balanced_initial (agreedMultiplier setup.math inputs) setup.initialCapital
    obtain ⟨state, item, next, balanced, there, built⟩ := outputs_getElem start
      (fun item member => same.agrees setup.math member)
      (fun place s item decision next held agrees built =>
        ((buildDecision_decided built).identity agrees held).1) found
    have agrees := same.agrees setup.math (mem_of_getElem? there)
    exact ⟨item, there, ((buildDecision_decided built).identity agrees balanced).2⟩
  · have ordered : (freshDecisions setup inputs).1.Pairwise fun earlier later =>
        ledgerCosts earlier.ledger ≤ ledgerCosts later.ledger :=
      (outputs_pairwise fun place state item decision next built =>
        (buildDecision_decided built).costs_le).1
    refine ordered.imp fun grows => ?_
    obtain ⟨fees, tax, slippage, shortfall⟩ := grows
    exact ⟨fees, tax, slippage, shortfall⟩

section Sample

/-- Exact conversions. -/
def rationalMath : PipelineMath ℚ ℚ where
  decimal := id
  float := id
  truncate value := if value < 0 then -(-value).floor else value.floor
  nonneg_of_pos _ := le_of_lt
  intCast_nonneg _ := Int.cast_nonneg
  mul_nonneg _ _ := mul_nonneg
  decimal_nonneg _ := id
  float_nonneg _ := id
  decimal_self _ := BEq.rfl
  float_self _ := BEq.rfl

def sampleStages : PipelineStages (List (RebalanceTrade ℚ)) Unit ℚ ℚ where
  buildPortfolio _ _ _ := .ok ()
  executeRiskExitPolicy _ _ _ _ cooldowns := .ok
    { target := (), decisions := (), cooldownUntil := cooldowns, portfolioPaused := false }
  evaluateCapitalTiers _ _ := .ok ()
  solveSizing item _ _ _ := .ok item.rest
  evidence _ _ := .ok ()

def sampleSetup : PipelineSetup (List (RebalanceTrade ℚ)) Unit ℚ ℚ where
  math := rationalMath
  stages := sampleStages
  executionModel :=
    { commissionRate := 3 / 10000, minimumCommission := 5, sellTaxRate := 1 / 2000, slippageBps := 5 }
  inputChecksum := "00000000000000000000"
  initialCapital := 100000

/-- A day on which so many shares of one symbol are traded at a price. -/
def sampleInput (day delta : ℤ) (price : ℚ) (positive : 0 < price) :
    PortfolioDecisionInput (List (RebalanceTrade ℚ)) ℚ where
  businessDate := day
  decisionAt := 10 * day
  executionAt := 10 * day + 5
  prices := [("000001.SZ", price)]
  executionPrices := [("000001.SZ", price)]
  lotInfo := [("000001.SZ",
    { lotSize := 100, multiplier := 1, commissionRate := none, commissionMin := none
      stampTaxRate := none, slippageBps := 0, lotSize_pos := by decide, multiplier_pos := one_pos
      nonneg := ⟨nofun, nofun, nofun, le_refl 0⟩ })]
  realizedVolatility := []
  atr := []
  fillRatioBySymbol := []
  rejectedSymbols := []
  suspendedSymbols := []
  rest :=
    [{ symbol := "000001.SZ", deltaShares := delta, targetShares := 0, currentShares := 0
       deltaValue := 0, unfilledShares := 0, nonneg := by decide }]
  later := by omega
  prices_pos := by simpa using positive
  executionPrices_pos := by simpa using positive
  fillRatio_unit := nofun

theorem firstPrice_pos : (0 : ℚ) < 10 := by norm_num

theorem laterPrice_pos : (0 : ℚ) < 12 := by norm_num

/-- Buying one day and selling at a higher price on the next. -/
def sampleInputs : List (PortfolioDecisionInput (List (RebalanceTrade ℚ)) ℚ) :=
  [sampleInput 1 200 10 firstPrice_pos, sampleInput 2 (-100) 12 laterPrice_pos]

theorem ledger_identity_sample : (freshDecisions sampleSetup sampleInputs).1.length = 2 ∧
      (∀ (i : ℕ) decision, (freshDecisions sampleSetup sampleInputs).1[i]? = some decision →
        ∃ item, sampleInputs[i]? = some item ∧
          LedgerIdentity sampleSetup.math sampleSetup.initialCapital item decision) ∧
        (freshDecisions sampleSetup sampleInputs).1.Pairwise fun earlier later =>
          CostsGrow earlier.ledger later.ledger := by
  refine ⟨by decide +kernel, ledger_identity sampleSetup sampleInputs ?_⟩
  have lots : ∀ item ∈ sampleInputs, item.lotInfo = (sampleInput 1 200 10 firstPrice_pos).lotInfo := by
    intro item member
    simp only [sampleInputs, mem_cons, not_mem_nil, or_false] at member
    rcases member with rfl | rfl <;> rfl
  intro item member other there symbol info otherInfo known knows
  rw [lots item member, ← lots other there, knows] at known
  rw [Option.some.inj known]

end Sample

end FinDashboard.Portfolio
