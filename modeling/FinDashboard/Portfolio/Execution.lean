import FinDashboard.Portfolio.Pipeline

/-!
# What a decision does to the book

Marking changes high waters only, and an instruction is refused or leads to one fill. Nothing here uses a
law of the arithmetic.
-/

namespace FinDashboard.Portfolio

open Ledger List

variable {α ω K F : Type} [DecimalArithmetic K] [FloatArithmetic F]

def holding (entry : String × BookPosition K) : String × BookPosition K :=
  (entry.1, { entry.2 with highWaterPrice := 0 })

/-- Symbols are booked once, no quantity is negative, and only an open position has an opening day. -/
structure SoundBook (positions : List (String × BookPosition K)) : Prop where
  nodup : (positions.map (·.1)).Nodup
  nonneg : ∀ entry ∈ positions, 0 ≤ entry.2.quantity
  closed : ∀ entry ∈ positions, entry.2.quantity = 0 → entry.2.openedOn = none

theorem keys_of_holdings {positions others : List (String × BookPosition K)}
    (same : positions.map holding = others.map holding) : positions.map (·.1) = others.map (·.1) := by
  have keys := congrArg (map (·.1)) same
  rw [map_map, map_map] at keys
  exact keys

theorem SoundBook.of_holdings {positions others : List (String × BookPosition K)}
    (sound : SoundBook positions) (same : others.map holding = positions.map holding) :
    SoundBook others := by
  have there : ∀ entry ∈ others, ∃ old ∈ positions, holding old = holding entry := by
    intro entry member
    have held := mem_map_of_mem (f := holding) member
    rw [same] at held
    exact mem_map.mp held
  refine ⟨keys_of_holdings same ▸ sound.nodup, ?_, ?_⟩
  · intro entry member
    obtain ⟨old, known, alike⟩ := there entry member
    have quantities := congrArg (·.2.quantity) alike
    exact quantities ▸ sound.nonneg old known
  · intro entry member empty
    obtain ⟨old, known, alike⟩ := there entry member
    have quantities := congrArg (·.2.quantity) alike
    have days := congrArg (·.2.openedOn) alike
    exact days ▸ sound.closed old known (quantities.trans empty)

theorem SoundBook.bookOf {positions : List (String × BookPosition K)} (sound : SoundBook positions)
    (symbol : String) : 0 ≤ (bookOf positions symbol).quantity ∧
      ((bookOf positions symbol).quantity = 0 → (bookOf positions symbol).openedOn = none) := by
  unfold Portfolio.bookOf
  cases found : find symbol positions with
  | none => exact ⟨Int.le_refl 0, fun _ => rfl⟩
  | some book =>
    have member := mem_of_find found
    exact ⟨sound.nonneg _ member, sound.closed _ member⟩

variable {symbol : String}

theorem SoundBook.assign {positions : List (String × BookPosition K)}
    {book : BookPosition K} (sound : SoundBook positions) (nonneg : 0 ≤ book.quantity)
    (closed : book.quantity = 0 → book.openedOn = none) : SoundBook (assign symbol book positions) := by
  refine ⟨nodup_keys_assign sound.nodup, ?_, ?_⟩
  · intro entry member
    rcases mem_assign member with rfl | old
    · exact nonneg
    · exact sound.nonneg entry old
  · intro entry member
    rcases mem_assign member with rfl | old
    · exact closed
    · exact sound.closed entry old

section Marking

variable {math : PipelineMath K F} {item : PortfolioDecisionInput α F} {state : PipelineState K}

theorem holding_markHeld {entry after : String × BookPosition K} {held : Option (String × ℤ × K)}
    (marked : markHeld math item entry = .ok (after, held)) : holding after = holding entry := by
  unfold markHeld at marked
  by_cases empty : entry.2.quantity ≤ 0
  · rw [if_pos empty] at marked
    cases marked
    rfl
  · rw [if_neg empty] at marked
    cases price : find entry.1 item.prices with
    | none =>
      rw [price] at marked
      cases marked
    | some price =>
      cases info : find entry.1 item.lotInfo with
      | none => simp [*] at marked
      | some info =>
        simp only [*] at marked
        cases marked
        rfl

theorem holdings_markCurrentBook {book : CurrentBook K F}
    (marked : markCurrentBook math item state = .ok book) :
    book.positions.map holding = state.positions.map holding := by
  obtain ⟨marks, collected, marked⟩ := bind_eq_ok.mp marked
  dsimp only at marked
  split_ifs at marked
  cases marked
  dsimp only
  rw [map_map]
  exact collect_map collected fun entry _ mark done => holding_markHeld done

theorem holding_raiseHighWater (entry : String × BookPosition K) :
    holding (raiseHighWater math item entry) = holding entry := by
  unfold raiseHighWater
  split_ifs <;> rfl

theorem holdings_raiseHighWater (positions : List (String × BookPosition K)) :
    (positions.map (raiseHighWater math item)).map holding = positions.map holding := by
  rw [map_map]
  exact map_congr_left fun entry _ => holding_raiseHighWater entry

end Marking

section Fills

variable {math : PipelineMath K F} {item : PortfolioDecisionInput α F}
  {state after : PipelineState K} {fill : ResearchFill K} {info : AssetLotInfo F} {businessDate : ℤ}

theorem payCosts_ok (paid : payCosts state fill = .ok after) :
    after = { state with
      feesPaid := state.feesPaid + fill.commission
      taxPaid := state.taxPaid + fill.tax
      slippagePaid := state.slippagePaid + fill.slippage } := by
  unfold payCosts at paid
  split_ifs at paid
  cases paid
  rfl

/-- The two fills a long-only account takes. -/
inductive Applied (math : PipelineMath K F) (state : PipelineState K) (fill : ResearchFill K)
    (info : AssetLotInfo F) (businessDate : ℤ) : PipelineState K → Prop
  | opened (action : fill.action = .openLong) : Applied math state fill info businessDate
      { state with
        positions := assign fill.symbol (openBook (bookOf state.positions fill.symbol) fill businessDate)
          state.positions
        cash := state.cash - ((fill.quantity : K) * fill.price * math.decimal info.multiplier +
          fill.commission + fill.slippage)
        feesPaid := state.feesPaid + fill.commission
        taxPaid := state.taxPaid + fill.tax
        slippagePaid := state.slippagePaid + fill.slippage }
  | closed (action : fill.action = .closeLong)
      (covered : fill.quantity ≤ (bookOf state.positions fill.symbol).quantity) :
      Applied math state fill info businessDate
      { state with
        positions := assign fill.symbol
          (closeBook (bookOf state.positions fill.symbol) fill (math.decimal info.multiplier))
          state.positions
        cash := state.cash + ((fill.quantity : K) * fill.price * math.decimal info.multiplier -
          fill.commission - fill.tax - fill.slippage)
        feesPaid := state.feesPaid + fill.commission
        taxPaid := state.taxPaid + fill.tax
        slippagePaid := state.slippagePaid + fill.slippage }

theorem applyResearchFill_applied
    (done : applyResearchFill math state fill info businessDate = .ok after) :
    Applied math state fill info businessDate after := by
  unfold applyResearchFill at done
  dsimp only at done
  cases action : fill.action with
  | openLong =>
    rw [action] at done
    rw [payCosts_ok done]
    exact .opened action
  | closeLong =>
    rw [action] at done
    dsimp only at done
    split_ifs at done with oversold
    rw [payCosts_ok done]
    exact .closed action (Int.not_lt.mp oversold)
  | openShort =>
    rw [action] at done
    cases done
  | closeShort =>
    rw [action] at done
    cases done

theorem Applied.sound (applied : Applied math state fill info businessDate after)
    (sound : SoundBook state.positions) : SoundBook after.positions := by
  obtain ⟨nonneg, closed⟩ := sound.bookOf fill.symbol
  have positive := fill.quantity_pos
  cases applied with
  | opened action =>
    apply sound.assign
    · show 0 ≤ _ + _
      omega
    · intro empty
      have : (bookOf state.positions fill.symbol).quantity + fill.quantity = 0 := empty
      omega
  | closed action covered =>
    apply sound.assign
    · unfold closeBook
      dsimp only
      split_ifs
      · exact Int.le_refl 0
      · show 0 ≤ _ - _
        omega
    · unfold closeBook
      dsimp only
      split_ifs with empty
      · exact fun _ => rfl
      · exact fun same => absurd same empty

theorem newFill_ok {fillId orderId symbol : String} {action : Research.ResearchFillAction}
    {quantity : ℤ} {price commission tax slippage : K} {filledAt : ℤ}
    (made : newFill fillId orderId symbol action quantity price commission tax slippage filledAt =
      .ok fill) : fill.symbol = symbol ∧ fill.action = action ∧ fill.tax = tax := by
  unfold newFill at made
  split_ifs at made
  cases made
  exact ⟨rfl, rfl, rfl⟩

theorem newFill_amounts {fillId orderId symbol : String} {action : Research.ResearchFillAction}
    {quantity : ℤ} {price commission tax slippage : K} {filledAt : ℤ}
    (made : newFill fillId orderId symbol action quantity price commission tax slippage filledAt = .ok fill) :
    fill.quantity = quantity ∧ fill.price = price ∧ fill.commission = commission ∧ fill.slippage = slippage := by
  unfold newFill at made
  split_ifs at made
  cases made
  exact ⟨rfl, rfl, rfl, rfl⟩

/-- What is missed is worth something. -/
inductive MissedMore (math : PipelineMath K F) (before : K) : K → Prop
  | nothing : MissedMore math before before
  | priced (quantity : ℤ) (price : F) (info : AssetLotInfo F) (some : 0 ≤ quantity)
      (nonneg : 0 ≤ price) : MissedMore math before (before + notional math quantity price info)
  | valued (value : F) (nonneg : 0 ≤ value) : MissedMore math before (before + math.decimal value)

/-- An instruction is refused, or leads to one fill. -/
inductive Executed (math : PipelineMath K F) (item : PortfolioDecisionInput α F)
    (state : PipelineState K) : Execution K → Prop
  | refused (order : ResearchOrder) (shortfall : K)
      (missed : MissedMore math state.fillShortfall shortfall) :
      Executed math item state
        { state := { state with fillShortfall := shortfall }, order, fill := none }
  | filled (order : ResearchOrder) (shortfall : K) (fill : ResearchFill K) (info : AssetLotInfo F)
      (after : PipelineState K) (missed : MissedMore math state.fillShortfall shortfall)
      (known : find fill.symbol item.lotInfo = some info)
      (untaxed : fill.action = .openLong → fill.tax = 0)
      (applied : Applied math { state with fillShortfall := shortfall } fill info item.businessDate
        after) :
      Executed math item state { state := after, order, fill := some fill }

end Fills

section Instructions

variable {setup : PipelineSetup α ω K F} {item : PortfolioDecisionInput α F} {index offset : ℕ}
  {state : PipelineState K} {instruction : RebalanceInstruction K} {done : Execution K}
  {info : AssetLotInfo F} {executionPrice : F}

theorem rejectInstruction_executed {orderId reason : String} (nonneg : 0 ≤ executionPrice)
    (ran : rejectInstruction setup.math state instruction info executionPrice orderId reason = .ok done) :
    Executed setup.math item state done := by
  obtain ⟨order, -, ran⟩ := bind_eq_ok.mp ran
  cases ran
  exact .refused order _ (.priced _ executionPrice info (abs_nonneg _) nonneg)

theorem fillInstruction_executed {commissionRate commissionMin slippageBps : F} {filled : ℤ}
    (nonneg : 0 ≤ executionPrice) (known : find instruction.symbol item.lotInfo = some info)
    (ran : fillInstruction setup item index offset state instruction info executionPrice
      commissionRate commissionMin slippageBps filled = .ok done) :
    Executed setup.math item state done := by
  obtain ⟨order, -, ran⟩ := bind_eq_ok.mp ran
  obtain ⟨fill, made, ran⟩ := bind_eq_ok.mp ran
  obtain ⟨after, applied, ran⟩ := bind_eq_ok.mp ran
  cases ran
  have floated := setup.math.float_nonneg _ (setup.math.decimal_nonneg _ nonneg)
  have missed : MissedMore setup.math state.fillShortfall
      (if filled < |instruction.deltaQuantity| then
        state.fillShortfall + notional setup.math (|instruction.deltaQuantity| - filled)
          (setup.math.float (setup.math.decimal executionPrice)) info
      else state.fillShortfall) := by
    split_ifs with fewer
    · exact .priced _ _ info (by omega) floated
    · exact .nothing
  obtain ⟨symbol, action, tax⟩ := newFill_ok made
  refine .filled order _ fill info after missed (symbol ▸ known) ?_ (applyResearchFill_applied applied)
  intro opens
  have purchase := action.symm.trans opens
  simp [tax, purchase]

theorem fillInstruction_fill {commissionRate commissionMin slippageBps : F} {filled : ℤ} {fill : ResearchFill K}
    (ran : fillInstruction setup item index offset state instruction info executionPrice commissionRate
      commissionMin slippageBps filled = .ok done) (recorded : done.fill = some fill) :
    fill.quantity = filled ∧ fill.action = instruction.action ∧ fill.symbol = instruction.symbol := by
  obtain ⟨order, -, ran⟩ := exists_of_bind_eq_ok ran
  obtain ⟨made, built, ran⟩ := exists_of_bind_eq_ok ran
  obtain ⟨after, -, ran⟩ := exists_of_bind_eq_ok ran
  cases ran
  obtain rfl := Option.some.inj recorded
  obtain ⟨symbol, action, _⟩ := newFill_ok built
  exact ⟨(newFill_amounts built).1, action, symbol⟩

theorem executionPrice_nonneg (math : PipelineMath K F)
    (found : find symbol item.executionPrices = some executionPrice) : 0 ≤ executionPrice :=
  math.nonneg_of_pos _ (item.executionPrices_pos _ (mem_of_find found))

theorem executeInstruction_executed
    (ran : executeInstruction setup item index offset state instruction = .ok done) :
    Executed setup.math item state done := by
  unfold executeInstruction at ran
  cases known : find instruction.symbol item.lotInfo with
  | none => simp [known] at ran
  | some info =>
    cases found : find instruction.symbol item.executionPrices with
    | none => simp [known, found] at ran
    | some executionPrice =>
      have nonneg := executionPrice_nonneg setup.math found
      simp only [known, found] at ran
      split at ran
      · exact rejectInstruction_executed nonneg ran
      · split_ifs at ran
        all_goals first
          | exact rejectInstruction_executed nonneg ran
          | exact fillInstruction_executed nonneg known ran

/-- A trade that could not be placed adds to what is missed, and changes nothing else. -/
theorem missedTrade_ok {math : PipelineMath K F} {trade : RebalanceTrade F} {after : PipelineState K}
    (ran : missedTrade item math state trade = .ok after) :
    ∃ shortfall, MissedMore math state.fillShortfall shortfall ∧
      after = { state with fillShortfall := shortfall } := by
  unfold missedTrade at ran
  split_ifs at ran
  · cases found : find trade.symbol item.prices with
    | none => simp [found] at ran
    | some decisionPrice =>
      cases known : find trade.symbol item.lotInfo with
      | none => simp [found, known] at ran
      | some info =>
        simp only [found, known] at ran
        cases ran
        have price : 0 ≤ (find trade.symbol item.executionPrices).getD decisionPrice := by
          cases priced : find trade.symbol item.executionPrices with
          | none => exact math.nonneg_of_pos _ (item.prices_pos _ (mem_of_find found))
          | some executionPrice => exact executionPrice_nonneg math priced
        have shares := math.intCast_nonneg _ trade.nonneg.2.2
        have multiplier := math.nonneg_of_pos _ info.multiplier_pos
        have value := math.mul_nonneg _ _ (math.mul_nonneg _ _ shares price) multiplier
        exact ⟨_, .valued _ value, rfl⟩
  · cases ran
    exact ⟨_, .nothing, rfl⟩

section Rules

variable {P : PipelineState K → Prop}

theorem executeInstructions_invariant {instructions : List (RebalanceInstruction K)}
    {plan : PlanExecution K}
    (keeps : ∀ state done, P state → Executed setup.math item state done → P done.state)
    (ran : executeInstructions setup item index offset state instructions = .ok plan)
    (start : P state) : P plan.state := by
  induction instructions generalizing offset state plan with
  | nil =>
    cases ran
    exact start
  | cons instruction rest ih =>
    obtain ⟨done, first, ran⟩ := bind_eq_ok.mp ran
    obtain ⟨later, remaining, ran⟩ := bind_eq_ok.mp ran
    cases ran
    have kept := ih remaining (keeps state done start (executeInstruction_executed first))
    exact kept

theorem missedTrades_invariant {trades : List (RebalanceTrade F)} {after : PipelineState K}
    (keeps : ∀ state shortfall, P state → MissedMore setup.math state.fillShortfall shortfall →
      P { state with fillShortfall := shortfall })
    (ran : trades.foldlM (missedTrade item setup.math) state = .ok after) (start : P state) :
    P after := by
  induction trades generalizing state with
  | nil =>
    cases ran
    exact start
  | cons trade rest ih =>
    rw [foldlM_cons] at ran
    obtain ⟨mid, first, ran⟩ := bind_eq_ok.mp ran
    obtain ⟨shortfall, missed, rfl⟩ := missedTrade_ok first
    exact ih ran (keeps state shortfall start missed)

theorem executeResearchPlan_invariant {trades : List (RebalanceTrade F)}
    {instructions : List (RebalanceInstruction K)} {plan : PlanExecution K}
    (missed : ∀ state shortfall, P state → MissedMore setup.math state.fillShortfall shortfall →
      P { state with fillShortfall := shortfall })
    (filled : ∀ state fill info after, P state → find fill.symbol item.lotInfo = some info →
      (fill.action = .openLong → fill.tax = 0) →
      Applied setup.math state fill info item.businessDate after → P after)
    (ran : executeResearchPlan setup item index state trades instructions = .ok plan)
    (start : P state) : P plan.state := by
  obtain ⟨before, first, ran⟩ := bind_eq_ok.mp ran
  apply executeInstructions_invariant _ ran (missedTrades_invariant missed first start)
  intro state done held executed
  cases executed with
  | refused order shortfall more => exact missed state shortfall held more
  | filled order shortfall fill info after more known untaxed applied =>
    exact filled _ fill info after (missed state shortfall held more) known untaxed applied

end Rules

end Instructions

section After

variable {math : PipelineMath K F} {item : PortfolioDecisionInput α F}
  {state : PipelineState K} {marked : MarkedBook K}

theorem newLedger_ok {cash marketValue realized unrealized equity fees tax slippage shortfall : K}
    {ledger : LedgerSnapshot K}
    (made : newLedger cash marketValue realized unrealized equity fees tax slippage shortfall =
      .ok ledger) :
    (ledger.cash = cash ∧ ledger.realizedPnl = realized ∧ ledger.unrealizedPnl = unrealized ∧
      ledger.equity = equity) ∧
      ledger.feesPaid = fees ∧ ledger.taxPaid = tax ∧ ledger.slippagePaid = slippage ∧
        ledger.fillShortfall = shortfall := by
  unfold newLedger at made
  split_ifs at made
  cases made
  exact ⟨⟨rfl, rfl, rfl, rfl⟩, rfl, rfl, rfl, rfl⟩

/-- What `_mark_after_execution` returns, with the marks of the positions in their order. -/
structure AfterExecution (math : PipelineMath K F) (item : PortfolioDecisionInput α F)
    (state : PipelineState K) (marks : List (PositionMark K)) (marked : MarkedBook K) : Prop where
  collected : collect (markPosition math item) (sortedBook state.positions) = .ok marks
  state_eq : marked.state =
    { state with
      positions := state.positions.map (raiseHighWater math item)
      equityHighWater := pyMax state.equityHighWater marked.ledger.equity }
  positions_eq : marked.positions = marks.filterMap (·.recorded)
  cash_eq : marked.ledger.cash = state.cash
  realized_eq : marked.ledger.realizedPnl = marks.foldl (fun total mark => total + mark.realized) 0
  unrealized_eq : marked.ledger.unrealizedPnl =
    marks.foldl (fun total mark => total + mark.unrealized) 0
  equity_eq : marked.ledger.equity = state.cash + marks.foldl (fun total mark => total + mark.value) 0
  costs_eq : marked.ledger.feesPaid = state.feesPaid ∧ marked.ledger.taxPaid = state.taxPaid ∧
    marked.ledger.slippagePaid = state.slippagePaid ∧
      marked.ledger.fillShortfall = state.fillShortfall

theorem markAfterExecution_ok (ran : markAfterExecution math item state = .ok marked) :
    ∃ marks, AfterExecution math item state marks marked := by
  obtain ⟨marks, collected, ran⟩ := bind_eq_ok.mp ran
  obtain ⟨ledger, made, ran⟩ := bind_eq_ok.mp ran
  cases ran
  obtain ⟨⟨cash, realized, unrealized, equity⟩, costs⟩ := newLedger_ok made
  refine ⟨marks, ⟨collected, ?_, rfl, cash, realized, unrealized, equity, costs⟩⟩
  dsimp only
  rw [equity]

theorem newPosition_ok {book : BookPosition K} {price value unrealized : K}
    {position : ResearchPosition K}
    (made : newPosition symbol book price value unrealized = .ok position) :
    position.symbol = symbol ∧ position.quantity = book.quantity ∧
      position.averagePrice = book.averagePrice ∧ position.realizedPnl = book.realizedPnl := by
  unfold newPosition at made
  split_ifs at made
  cases made
  exact ⟨rfl, rfl, rfl, rfl⟩

def openedOnOf (positions : List (String × BookPosition K)) : List (String × ℤ) :=
  (sortedBook positions).filterMap fun entry =>
    if 0 < entry.2.quantity then entry.2.openedOn.map (entry.1, ·) else none

def highWatersOf (math : PipelineMath K F) (positions : List (String × BookPosition K)) :
    List (String × F) :=
  (sortedBook positions).filterMap fun entry =>
    if 0 < entry.2.quantity then some (entry.1, math.float entry.2.highWaterPrice) else none

theorem riskStateOf_ok {ledger : LedgerSnapshot K} {riskState : ResearchRiskState K F}
    (made : riskStateOf math state ledger = .ok riskState) :
    riskState.cooldownUntil = state.cooldownUntil ∧ riskState.openedOn = openedOnOf state.positions ∧
        riskState.highWaterPrices = highWatersOf math state.positions ∧
          riskState.portfolioEquityHighWater = state.equityHighWater ∧
            riskState.portfolioPaused = state.portfolioPaused := by
  unfold riskStateOf at made
  dsimp only at made
  split_ifs at made
  cases made
  exact ⟨rfl, rfl, rfl, rfl, rfl⟩

end After

section Decisions

variable {setup : PipelineSetup α ω K F} {item : PortfolioDecisionInput α F} {index : ℕ}
  {state next : PipelineState K} {decision : DecisionBundle ω K F}

/-- The parts of a decision that change the book, and what it records of them. -/
inductive Decided (setup : PipelineSetup α ω K F) (index : ℕ) (state : PipelineState K)
    (item : PortfolioDecisionInput α F) (decision : DecisionBundle ω K F) : PipelineState K → Prop
  | intro (book : CurrentBook K F) (exits : RiskExitResult ω) (trades : List (RebalanceTrade F))
      (instructions : List (RebalanceInstruction K)) (executed : PlanExecution K)
      (marked : MarkedBook K)
      (current : markCurrentBook setup.math item state = .ok book)
      (planned : executeResearchPlan setup item index { state with
          positions := book.positions
          equityHighWater := pyMax state.equityHighWater book.equity
          cooldownUntil := exits.cooldownUntil
          portfolioPaused := exits.portfolioPaused } trades instructions = .ok executed)
      (after : markAfterExecution setup.math item executed.state = .ok marked)
      (risk : riskStateOf setup.math marked.state marked.ledger = .ok decision.riskState)
      (times : decision.businessDate = item.businessDate ∧ decision.decisionAt = item.decisionAt)
      (fills : decision.fills = executed.fills)
      (positions : decision.positions = marked.positions)
      (ledger : decision.ledger = marked.ledger) :
      Decided setup index state item decision marked.state

theorem buildDecision_decided (built : buildDecision setup index state item = .ok (decision, next)) :
    Decided setup index state item decision next := by
  unfold buildDecision at built
  obtain ⟨book, current, built⟩ := bind_eq_ok.mp built
  obtain ⟨portfolio, -, built⟩ := bind_eq_ok.mp built
  obtain ⟨exits, -, built⟩ := bind_eq_ok.mp built
  obtain ⟨tiers, -, built⟩ := bind_eq_ok.mp built
  obtain ⟨trades, -, built⟩ := bind_eq_ok.mp built
  obtain ⟨instructions, -, built⟩ := bind_eq_ok.mp built
  obtain ⟨executed, planned, built⟩ := bind_eq_ok.mp built
  obtain ⟨marked, after, built⟩ := bind_eq_ok.mp built
  obtain ⟨riskState, risk, built⟩ := bind_eq_ok.mp built
  obtain ⟨evidence, -, built⟩ := bind_eq_ok.mp built
  cases built
  exact .intro book exits trades instructions executed marked current planned after risk ⟨rfl, rfl⟩
    rfl rfl rfl

theorem Decided.sound (decided : Decided setup index state item decision next)
    (sound : SoundBook state.positions) : SoundBook next.positions := by
  cases decided with
  | intro book exits trades instructions executed marked current planned after risk times fills
      positions ledger =>
    have marking := sound.of_holdings (holdings_markCurrentBook current)
    have trading : SoundBook executed.state.positions := by
      refine executeResearchPlan_invariant (P := fun state => SoundBook state.positions) ?_ ?_ planned
        marking
      · exact fun _ _ held _ => held
      · exact fun _ _ _ _ held _ _ applied => applied.sound held
    obtain ⟨marks, account⟩ := markAfterExecution_ok after
    rw [account.state_eq]
    exact trading.of_holdings (holdings_raiseHighWater _)

end Decisions

end FinDashboard.Portfolio
