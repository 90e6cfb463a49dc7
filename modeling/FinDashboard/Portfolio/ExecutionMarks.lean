import FinDashboard.Portfolio.ResumeSeed

/-!
# Marks after the execution

A position is marked at its execution price, and at zero where the input has none. Only symbols with an
execution price are traded, so it is the positions held before that tell whether a decision marks one at zero.
-/

namespace FinDashboard.Portfolio

open Ledger List

variable {α ω K F : Type} [DecimalArithmetic K] [FloatArithmetic F]

/-- Every position that is held is marked at an execution price of the input. -/
def HeldMarked (math : PipelineMath K F) (item : PortfolioDecisionInput α F)
    (decision : DecisionBundle ω K F) : Prop :=
  ∀ position ∈ decision.positions, 0 < position.quantity →
    ∃ price info, find position.symbol item.executionPrices = some price ∧ 0 < price ∧
      find position.symbol item.lotInfo = some info ∧ position.marketPrice = math.decimal price ∧
        position.marketValue = (position.quantity : K) * math.decimal price * math.decimal info.multiplier

/-- Every position held in a book has an execution price. -/
def HeldPriced (item : PortfolioDecisionInput α F) (positions : List (String × BookPosition K)) : Prop :=
  ∀ entry ∈ positions, 0 < entry.2.quantity → ∃ price, find entry.1 item.executionPrices = some price

variable {instructions : List (RebalanceInstruction K)} {plan : PlanExecution K}

section Trades

variable {setup : PipelineSetup α ω K F} {item : PortfolioDecisionInput α F} {index offset : ℕ}
  {state : PipelineState K} {instruction : RebalanceInstruction K} {done : Execution K}
  {info : AssetLotInfo F} {executionPrice : F}

theorem rejectInstruction_positions {orderId reason : String}
    (ran : rejectInstruction setup.math state instruction info executionPrice orderId reason = .ok done) :
    done.state.positions = state.positions := by
  obtain ⟨order, -, ran⟩ := exists_of_bind_eq_ok ran
  cases ran
  rfl

theorem fillInstruction_positions {commissionRate commissionMin slippageBps : F} {filled : ℤ}
    (ran : fillInstruction setup item index offset state instruction info executionPrice
      commissionRate commissionMin slippageBps filled = .ok done) :
    ∃ book, done.state.positions = assign instruction.symbol book state.positions := by
  obtain ⟨order, -, ran⟩ := exists_of_bind_eq_ok ran
  obtain ⟨fill, made, ran⟩ := exists_of_bind_eq_ok ran
  obtain ⟨after, applied, ran⟩ := exists_of_bind_eq_ok ran
  cases ran
  rw [← (newFill_ok made).1]
  cases applyResearchFill_applied applied with
  | opened action => exact ⟨_, rfl⟩
  | closed action covered => exact ⟨_, rfl⟩

theorem executeInstruction_positions
    (ran : executeInstruction setup item index offset state instruction = .ok done) :
    (∃ price, find instruction.symbol item.executionPrices = some price) ∧
      (done.state.positions = state.positions ∨
        ∃ book, done.state.positions = assign instruction.symbol book state.positions) := by
  unfold executeInstruction at ran
  cases known : find instruction.symbol item.lotInfo with
  | none => simp [known] at ran
  | some info =>
    cases found : find instruction.symbol item.executionPrices with
    | none => simp [known, found] at ran
    | some executionPrice =>
      simp only [known, found] at ran
      refine ⟨⟨executionPrice, rfl⟩, ?_⟩
      split at ran
      · exact Or.inl (rejectInstruction_positions ran)
      · split_ifs at ran
        all_goals first
          | exact Or.inl (rejectInstruction_positions ran)
          | exact Or.inr (fillInstruction_positions ran)

variable {P : List (String × BookPosition K) → Prop}

theorem executeInstructions_positions
    (keeps : ∀ positions symbol book price, P positions → find symbol item.executionPrices = some price →
      P (assign symbol book positions))
    (ran : executeInstructions setup item index offset state instructions = .ok plan)
    (start : P state.positions) : P plan.state.positions := by
  induction instructions generalizing offset state plan with
  | nil =>
    cases ran
    exact start
  | cons instruction rest ih =>
    obtain ⟨done, first, ran⟩ := exists_of_bind_eq_ok ran
    obtain ⟨later, remaining, ran⟩ := exists_of_bind_eq_ok ran
    cases ran
    have next : P done.state.positions := by
      obtain ⟨⟨price, priced⟩, same | ⟨book, assigned⟩⟩ := executeInstruction_positions first
      · exact same ▸ start
      · rw [assigned]
        exact keeps _ _ _ price start priced
    have kept := ih remaining next
    exact kept

theorem executeResearchPlan_positions {trades : List (RebalanceTrade F)}
    (keeps : ∀ positions symbol book price, P positions → find symbol item.executionPrices = some price →
      P (assign symbol book positions))
    (ran : executeResearchPlan setup item index state trades instructions = .ok plan)
    (start : P state.positions) : P plan.state.positions := by
  obtain ⟨before, first, ran⟩ := exists_of_bind_eq_ok ran
  refine executeInstructions_positions keeps ran ?_
  exact missedTrades_invariant (P := fun state => P state.positions) (fun _ _ held _ => held) first start

end Trades

section Marks

variable {math : PipelineMath K F} {item : PortfolioDecisionInput α F} {entry : String × BookPosition K}
  {mark : PositionMark K} {position : ResearchPosition K}

theorem newPosition_market {symbol : String} {book : BookPosition K} {price value unrealized : K}
    (made : newPosition symbol book price value unrealized = .ok position) :
    position.marketPrice = price ∧ position.marketValue = value := by
  unfold newPosition at made
  split_ifs at made
  cases made
  exact ⟨rfl, rfl⟩

theorem markPosition_held (marked : markPosition math item entry = .ok mark) (held : 0 < entry.2.quantity) :
    ∃ position info, mark.recorded = some position ∧ find entry.1 item.lotInfo = some info ∧
      position.symbol = entry.1 ∧ position.quantity = entry.2.quantity ∧
        position.marketPrice = executionPriceOf math item.executionPrices entry.1 ∧
          position.marketValue = (entry.2.quantity : K) * executionPriceOf math item.executionPrices entry.1 *
            math.decimal info.multiplier := by
  have recorded : isRecorded entry.2 = true := by simp [isRecorded, held]
  unfold markPosition at marked
  dsimp only at marked
  obtain ⟨known, marked⟩ := ok_of_guard marked
  rw [recorded, Bool.and_true, Option.isNone_iff_eq_none] at known
  obtain ⟨info, found⟩ := Option.ne_none_iff_exists'.mp known
  rw [if_pos recorded] at marked
  obtain ⟨position, made, marked⟩ := exists_of_bind_eq_ok marked
  obtain ⟨symbol, quantity, _⟩ := newPosition_ok made
  obtain ⟨price, value⟩ := newPosition_market made
  cases marked
  refine ⟨position, info, rfl, found, symbol, quantity, price, ?_⟩
  rw [value, found]
  rfl

theorem position_of_recorded (marked : markPosition math item entry = .ok mark)
    (recorded : mark.recorded = some position) :
    position.symbol = entry.1 ∧ position.quantity = entry.2.quantity := by
  have shown := markPosition_recorded marked
  rw [recorded, Option.map_some] at shown
  obtain ⟨record, found, same⟩ := Option.map_eq_some_iff.mp shown.symm
  unfold recordOf at found
  split_ifs at found
  obtain rfl := Option.some.inj found
  exact ⟨(congrArg (fun shown : String × ℤ × K × K => shown.1) same).symm,
    (congrArg (fun shown : String × ℤ × K × K => shown.2.1) same).symm⟩

theorem markAfterExecution_held {state : PipelineState K} {marked : MarkedBook K}
    (ran : markAfterExecution math item state = .ok marked) :
    (∀ position ∈ marked.positions, 0 < position.quantity →
      ∃ price info, find position.symbol item.executionPrices = some price ∧ 0 < price ∧
        find position.symbol item.lotInfo = some info ∧ position.marketPrice = math.decimal price ∧
          position.marketValue = (position.quantity : K) * math.decimal price * math.decimal info.multiplier) ↔
      HeldPriced item state.positions := by
  obtain ⟨marks, account⟩ := markAfterExecution_ok ran
  rw [account.positions_eq]
  constructor
  · intro all entry member held
    obtain ⟨mark, listed, marking⟩ := exists_of_collect account.collected entry
      ((mem_insertionSort _).mpr member)
    obtain ⟨position, _, recorded, _, symbol, quantity, _⟩ := markPosition_held marking held
    obtain ⟨price, _, found, _⟩ := all position (mem_filterMap.mpr ⟨mark, listed, recorded⟩)
      (quantity ▸ held)
    exact ⟨price, symbol ▸ found⟩
  · intro priced position member held
    obtain ⟨mark, listed, recorded⟩ := mem_filterMap.mp member
    obtain ⟨entry, there, marking⟩ := collect_mem account.collected mark listed
    obtain ⟨symbol, quantity⟩ := position_of_recorded marking recorded
    rw [quantity] at held
    obtain ⟨price, found⟩ := priced entry ((mem_insertionSort _).mp there) held
    obtain ⟨same, info, recordedSame, known, _, _, marketPrice, marketValue⟩ := markPosition_held marking held
    obtain rfl := Option.some.inj (recorded.symm.trans recordedSame)
    have at_price : executionPriceOf math item.executionPrices entry.1 = math.decimal price := by
      rw [executionPriceOf, found]
      rfl
    refine ⟨price, info, symbol ▸ found, item.executionPrices_pos _ (mem_of_find found), symbol ▸ known, ?_, ?_⟩
    · rw [marketPrice, at_price]
    · rw [marketValue, at_price, quantity]

end Marks

section Decisions

variable {setup : PipelineSetup α ω K F} {item : PortfolioDecisionInput α F} {index : ℕ}
  {state next : PipelineState K} {decision : DecisionBundle ω K F}

theorem mem_assign_of_ne {κ β : Type} [DecidableEq κ] {entries : List (κ × β)} {entry : κ × β} {key : κ} {value : β}
    (member : entry ∈ entries) (other : entry.1 ≠ key) : entry ∈ assign key value entries := by
  induction entries with
  | nil => cases member
  | cons first rest ih =>
    unfold assign
    by_cases here : first.1 = key
    · rw [if_pos here]
      obtain rfl | later := mem_cons.mp member
      · exact absurd here other
      · exact mem_cons_of_mem _ later
    · rw [if_neg here]
      obtain rfl | later := mem_cons.mp member
      · exact mem_cons_self
      · exact mem_cons_of_mem _ (ih later)

/-- Trading leaves priced what is priced, and unpriced what is not. -/
theorem heldPriced_of_executed {trades : List (RebalanceTrade F)}
    (ran : executeResearchPlan setup item index state trades instructions = .ok plan) :
    HeldPriced item plan.state.positions ↔ HeldPriced item state.positions := by
  constructor
  · intro priced entry member held
    by_contra unpriced
    have stays : entry ∈ plan.state.positions := by
      refine executeResearchPlan_positions (P := fun positions => entry ∈ positions) ?_ ran member
      intro positions symbol book price there found
      refine mem_assign_of_ne there fun same => unpriced ⟨price, ?_⟩
      rw [same]
      exact found
    exact unpriced (priced entry stays held)
  · intro priced
    refine executeResearchPlan_positions (P := HeldPriced item) ?_ ran priced
    intro positions symbol book price all found entry member held
    rcases mem_assign member with rfl | old
    · exact ⟨price, found⟩
    · exact all entry old held

theorem heldPriced_of_holdings {positions others : List (String × BookPosition K)}
    (same : others.map holding = positions.map holding) (priced : HeldPriced item positions) :
    HeldPriced item others := by
  intro entry member held
  have mapped := mem_map_of_mem (f := holding) member
  rw [same] at mapped
  obtain ⟨old, there, alike⟩ := mem_map.mp mapped
  have quantity := congrArg (·.2.quantity) alike
  have symbol := congrArg (·.1) alike
  exact symbol ▸ priced old there (quantity ▸ held)

/-- A decision marks what is held at execution prices exactly if everything held before it has one. -/
theorem heldMarked_iff_heldPriced (built : buildDecision setup index state item = .ok (decision, next)) :
    HeldMarked setup.math item decision ↔ HeldPriced item state.positions := by
  cases buildDecision_decided built with
  | intro book exits trades instructions executed marked current planned after risk times fills positions ledger =>
    have same := holdings_markCurrentBook current
    have marks := markAfterExecution_held after
    have trading := heldPriced_of_executed planned
    unfold HeldMarked
    rw [positions, marks, trading]
    exact ⟨heldPriced_of_holdings same.symm, heldPriced_of_holdings same⟩

/-- A decision that is made marks every held position at an execution price of its input exactly if every
position held before it has one. -/
theorem buildDecision_heldMarked_iff (setup : PipelineSetup α ω K F) (index : ℕ) (state : PipelineState K)
    (item : PortfolioDecisionInput α F) (decision : DecisionBundle ω K F) (next : PipelineState K)
    (built : buildDecision setup index state item = .ok (decision, next)) :
    HeldMarked setup.math item decision ↔ HeldPriced item state.positions :=
  heldMarked_iff_heldPriced built

end Decisions

section Sample

theorem risenPrice_pos : (0 : ℚ) < 11 := by norm_num

theorem boardLot_pos : (0 : ℤ) < 100 := by decide

theorem boardMultiplier_pos : (0 : ℚ) < 1 := one_pos

theorem noRate_nonneg : (∀ rate ∈ (none : Option ℚ), 0 ≤ rate) ∧ (∀ rate ∈ (none : Option ℚ), 0 ≤ rate) ∧
    (∀ rate ∈ (none : Option ℚ), 0 ≤ rate) ∧ (0 : ℚ) ≤ 0 := by
  have rates : ∀ rate ∈ (none : Option ℚ), 0 ≤ rate := fun rate given => absurd given (Option.not_mem_none rate)
  exact ⟨rates, rates, rates, le_refl 0⟩

theorem noFillRatio_unit : ∀ entry ∈ ([] : List (String × ℚ)), 0 ≤ entry.2 ∧ entry.2 ≤ 1 :=
  forall_mem_nil _

/-- A position without a signal, within the rebalance band: it is not traded. -/
def heldState : PipelineState ℚ where
  cash := 99000
  positions := [("000001.SZ",
    { quantity := 100, averagePrice := 10, openedOn := some 1, highWaterPrice := 10 })]
  equityHighWater := 100000

def boardLot : AssetLotInfo ℚ where
  lotSize := 100
  multiplier := 1
  commissionRate := none
  commissionMin := none
  stampTaxRate := none
  slippageBps := 0
  lotSize_pos := boardLot_pos
  multiplier_pos := boardMultiplier_pos
  nonneg := noRate_nonneg

/-- A day on which the signalled symbol has an execution price, and the held one the prices given. -/
def heldInput (executionPrices : List (String × ℚ)) (positive : ∀ entry ∈ executionPrices, 0 < entry.2) :
    PortfolioDecisionInput (List (RebalanceTrade ℚ)) ℚ where
  businessDate := 2
  decisionAt := 20
  executionAt := 25
  prices := [("000001.SZ", 10), ("600000.SH", 8)]
  executionPrices := ("600000.SH", 8) :: executionPrices
  lotInfo := [("000001.SZ", boardLot), ("600000.SH", boardLot)]
  realizedVolatility := []
  atr := []
  fillRatioBySymbol := []
  rejectedSymbols := []
  suspendedSymbols := []
  rest := []
  later := by decide
  prices_pos := by
    intro entry member
    rcases mem_cons.mp member with rfl | member
    · norm_num
    · rcases mem_singleton.mp member with rfl
      norm_num
  executionPrices_pos := by
    intro entry member
    rcases mem_cons.mp member with rfl | member
    · norm_num
    · exact positive entry member
  fillRatio_unit := noFillRatio_unit

def unpricedInput : PortfolioDecisionInput (List (RebalanceTrade ℚ)) ℚ := heldInput [] nofun

def pricedInput : PortfolioDecisionInput (List (RebalanceTrade ℚ)) ℚ :=
  heldInput [("000001.SZ", 11)] (forall_mem_singleton.mpr risenPrice_pos)

/-- What a decision says of the equity, and of the quantities and market prices of its positions. -/
def shownMarks (state : PipelineState ℚ) (item : PortfolioDecisionInput (List (RebalanceTrade ℚ)) ℚ) :
    Option (ℚ × List (String × ℤ × ℚ)) :=
  (buildDecision sampleSetup 0 state item).toOption.map fun result =>
    (result.1.ledger.equity,
      result.1.positions.map fun position => (position.symbol, position.quantity, position.marketPrice))

theorem exists_decision (state : PipelineState ℚ) (item : PortfolioDecisionInput (List (RebalanceTrade ℚ)) ℚ)
    (equity : ℚ) (marks : List (String × ℤ × ℚ)) (shown : shownMarks state item = some (equity, marks)) :
    ∃ decision next, buildDecision sampleSetup 0 state item = .ok (decision, next) ∧
      decision.ledger.equity = equity ∧
        (decision.positions.map fun position => (position.symbol, position.quantity, position.marketPrice)) = marks := by
  unfold shownMarks at shown
  cases built : buildDecision sampleSetup 0 state item with
  | error error => rw [built] at shown; cases shown
  | ok result =>
    rw [built] at shown
    have same := Option.some.inj shown
    exact ⟨result.1, result.2, rfl, congrArg Prod.fst same, congrArg Prod.snd same⟩

/-- A hundred shares worth a thousand vanish from the equity of a hundred thousand. -/
theorem heldMarked_fails :
    ∃ decision next, buildDecision sampleSetup 0 heldState unpricedInput = .ok (decision, next) ∧
      decision.ledger.equity = 99000 ∧
        (decision.positions.map fun position => (position.symbol, position.quantity, position.marketPrice)) =
            [("000001.SZ", 100, 0)] ∧
          ¬ HeldMarked sampleSetup.math unpricedInput decision := by
  obtain ⟨decision, next, built, equity, marks⟩ := exists_decision heldState unpricedInput 99000
    [("000001.SZ", 100, 0)] (by decide +kernel)
  refine ⟨decision, next, built, equity, marks, fun marked => ?_⟩
  have priced := (heldMarked_iff_heldPriced built).mp marked
  obtain ⟨price, found⟩ := priced ("000001.SZ",
    { quantity := 100, averagePrice := 10, openedOn := some 1, highWaterPrice := 10 }) mem_cons_self (by decide)
  cases found

theorem buildDecision_heldMarked_iff_priced :
    ∃ decision next, buildDecision sampleSetup 0 heldState pricedInput = .ok (decision, next) ∧
      (decision.positions.map fun position => (position.symbol, position.quantity, position.marketPrice)) =
          [("000001.SZ", 100, 11)] ∧
        (HeldMarked sampleSetup.math pricedInput decision ↔ HeldPriced pricedInput heldState.positions) := by
  obtain ⟨decision, next, built, _, marks⟩ := exists_decision heldState pricedInput 100100
    [("000001.SZ", 100, 11)] (by decide +kernel)
  exact ⟨decision, next, built, marks, buildDecision_heldMarked_iff sampleSetup 0 heldState pricedInput decision next built⟩

end Sample

end FinDashboard.Portfolio
