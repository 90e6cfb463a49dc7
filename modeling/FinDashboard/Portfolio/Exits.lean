import FinDashboard.Portfolio.Constraints
import FinDashboard.Shared.Calendar

/-!
# The exit policy

The enabled rules take positions off the target: a position whose stop, profit or holding rule triggers,
a symbol that is cooling down, and, on a drawdown, a part of every weight. No rule adds to a weight.
-/

namespace FinDashboard.Portfolio.Exits

open List Except

open Ledger (assign find)

inductive RiskExitType
  | priceStopLoss
  | volatilityStop
  | takeProfit
  | maxHoldingDays
  | portfolioDrawdownDerisk
  | cooldown
deriving DecidableEq, Repr

def RiskExitType.value : RiskExitType → String
  | priceStopLoss => "price_stop_loss"
  | volatilityStop => "volatility_stop"
  | takeProfit => "take_profit"
  | maxHoldingDays => "max_holding_days"
  | portfolioDrawdownDerisk => "portfolio_drawdown_derisk"
  | cooldown => "cooldown"

def thresholdRules : List RiskExitType :=
  [.priceStopLoss, .volatilityStop, .takeProfit, .portfolioDrawdownDerisk]

def dayRules : List RiskExitType := [.maxHoldingDays, .cooldown]

section Model

variable {K : Type} [Field K] [LinearOrder K]

structure RiskExitRule (K : Type) [Field K] [LinearOrder K] where
  ruleType : RiskExitType
  enabled : Bool := false
  threshold : Option K := none
  days : Option ℕ := none
  targetGrossExposure : Option K := none
  rationale : String
  threshold_pos : ∀ value ∈ threshold, 0 < value
  days_le : ∀ count ∈ days, count ≤ 10000
  targetGross_bounds : ∀ gross ∈ targetGrossExposure, 0 ≤ gross ∧ gross ≤ 10
  threshold_given : enabled = true → ruleType ∈ thresholdRules → threshold ≠ none
  days_given : enabled = true → ruleType ∈ dayRules → days ≠ none
  targetGross_given : enabled = true → ruleType = .portfolioDrawdownDerisk → targetGrossExposure ≠ none

structure RiskExitPolicy (K : Type) [Field K] [LinearOrder K] where
  rules : List (RiskExitRule K)
  nodup : (rules.map (·.ruleType)).Nodup

def RiskExitPolicy.active (policy : RiskExitPolicy K) (ruleType : RiskExitType) : Option (RiskExitRule K) :=
  policy.rules.find? fun rule => rule.enabled && decide (rule.ruleType = ruleType)

/-- `ExitPositionSnapshot`; dates by their ordinals. -/
structure ExitPositionSnapshot (K : Type) [Field K] [LinearOrder K] where
  symbol : String
  filledQuantity : K
  averagePrice : K
  currentPrice : K
  openedOn : ℤ
  realizedVolatility : Option K := none
  atr : Option K := none
  symbol_given : symbol ≠ ""
  filled_nonneg : 0 ≤ filledQuantity
  prices_pos : 0 < averagePrice ∧ 0 < currentPrice
  volatility_nonneg : ∀ volatility ∈ realizedVolatility, 0 ≤ volatility
  atr_nonneg : ∀ range ∈ atr, 0 ≤ range

structure ExitDecision (K : Type) where
  ruleType : RiskExitType
  symbol : Option String
  triggered : Bool
  metric : Option K
  threshold : Option K
  beforeWeight : K
  afterWeight : K
  reason : String
deriving DecidableEq

structure RiskExitResult (K : Type) [Field K] [LinearOrder K] where
  target : TargetWeight K
  decisions : List (ExitDecision K)
  cooldownUntil : List (String × ℤ)
  portfolioPaused : Bool

inductive ExitError
  | drawdown
  /-- The end of a cooldown is no date. -/
  | dateOverflow
  | target (error : TargetError)
deriving DecidableEq, Repr

/-- How numbers and dates are written. -/
structure Texts (K : Type) where
  number : Option K → String
  date : ℤ → String

/-- `_asset_metric`: the metric of a rule, and whether it triggers. -/
def assetMetric (rule : RiskExitRule K) (position : ExitPositionSnapshot K) (asOf : ℤ) : Option K × Bool :=
  match rule.ruleType with
  | .priceStopLoss =>
      let metric := (position.currentPrice - position.averagePrice) / position.averagePrice
      (some metric, rule.threshold.any fun threshold => decide (metric ≤ -threshold))
  | .takeProfit =>
      let metric := (position.currentPrice - position.averagePrice) / position.averagePrice
      (some metric, rule.threshold.any fun threshold => decide (threshold ≤ metric))
  | .volatilityStop =>
      let metric := match position.atr with
        | some atr => some (atr / position.currentPrice)
        | none => position.realizedVolatility
      (metric, metric.any fun metric => rule.threshold.any fun threshold => decide (threshold ≤ metric))
  | .maxHoldingDays =>
      let held := asOf - position.openedOn
      (some (held : K), rule.days.any fun days => decide ((days : ℤ) ≤ held))
  | _ => (none, false)

def assetRuleTypes : List RiskExitType := [.priceStopLoss, .volatilityStop, .takeProfit, .maxHoldingDays]

def assetDecision (rule : RiskExitRule K) (position : ExitPositionSnapshot K) (asOf : ℤ) (before : K) :
    ExitDecision K where
  ruleType := rule.ruleType
  symbol := some position.symbol
  triggered := (assetMetric rule position asOf).2
  metric := (assetMetric rule position asOf).1
  threshold := if rule.ruleType = .maxHoldingDays ∧ rule.days.isSome then rule.days.map fun days => (days : K)
    else rule.threshold
  beforeWeight := before
  afterWeight := if (assetMetric rule position asOf).2 then 0 else before
  reason := rule.rationale

def unfilledDecision (position : ExitPositionSnapshot K) (before : K) : ExitDecision K where
  ruleType := .maxHoldingDays
  symbol := some position.symbol
  triggered := false
  metric := some 0
  threshold := none
  beforeWeight := before
  afterWeight := before
  reason := "实际成交数量为零,不把未成交目标当成持仓"

/-- The weights, the decisions and the cooldowns so far. -/
structure ExitState (K : Type) where
  weights : Weights K
  decisions : List (ExitDecision K)
  cooldowns : List (String × ℤ)

/-- A position whose rule triggered leaves the target, and cools down if a rule says so. -/
def closePosition (policy : RiskExitPolicy K) (texts : Texts K) (asOf : ℤ) (before : K)
    (triggered : ExitDecision K) (symbol : String) (state : ExitState K) : Except ExitError (ExitState K) :=
  match (policy.active .cooldown).bind (·.days) with
  | none => .ok { state with weights := state.weights.remove symbol }
  | some days =>
      if maxOrdinal < asOf + days then .error .dateOverflow
      else .ok {
        weights := state.weights.remove symbol
        decisions := state.decisions ++ [{
          ruleType := .cooldown
          symbol := some symbol
          triggered := true
          metric := some (days : K)
          threshold := some (days : K)
          beforeWeight := before
          afterWeight := 0
          reason := triggered.ruleType.value ++ " 触发后进入冷却期;metric=" ++ texts.number triggered.metric }]
        cooldowns := assign symbol (asOf + days) state.cooldowns }

/-- The body of the loop over the positions. -/
def positionTurn (policy : RiskExitPolicy K) (texts : Texts K) (asOf : ℤ) (state : ExitState K)
    (position : ExitPositionSnapshot K) : Except ExitError (ExitState K) :=
  let before := state.weights.get position.symbol
  if position.filledQuantity ≤ maxWeightEpsilon then
    .ok { state with decisions := state.decisions ++ [unfilledDecision position before] }
  else
    let checked := (assetRuleTypes.filterMap policy.active).map fun rule =>
      assetDecision rule position asOf before
    let next := { state with decisions := state.decisions ++ checked }
    match checked.find? (·.triggered) with
    | none => .ok next
    | some triggered => closePosition policy texts asOf before triggered position.symbol next

def positionTurns (policy : RiskExitPolicy K) (texts : Texts K) (asOf : ℤ) :
    List (ExitPositionSnapshot K) → ExitState K → Except ExitError (ExitState K)
  | [], state => .ok state
  | position :: rest, state =>
      (positionTurn policy texts asOf state position).bind (positionTurns policy texts asOf rest)

/-- The body of the loop over the cooldowns. -/
def cooldownTurn (texts : Texts K) (asOf : ℤ) (state : ExitState K) (cooldown : String × ℤ) : ExitState K :=
  let before := state.weights.get cooldown.1
  if asOf ≤ cooldown.2 ∧ maxWeightEpsilon < |before| then
    { state with
      weights := state.weights.remove cooldown.1
      decisions := state.decisions ++ [{
        ruleType := .cooldown
        symbol := some cooldown.1
        triggered := true
        metric := some ((cooldown.2 - asOf : ℤ) : K)
        threshold := some 0
        beforeWeight := before
        afterWeight := 0
        reason := "冷却期截至 " ++ texts.date cooldown.2 ++ ",禁止重新纳入目标仓位" }] }
  else state

/-- The cooldowns, in the order of their symbols. -/
def cooldownTurns (texts : Texts K) (asOf : ℤ) (state : ExitState K) : ExitState K :=
  (state.cooldowns.insertionSort fun item other => item.1 ≤ other.1).foldl (cooldownTurn texts asOf) state

def drawdownRule (policy : RiskExitPolicy K) (portfolioDrawdown : K) : Option (RiskExitRule K) :=
  (policy.active .portfolioDrawdownDerisk).filter fun rule =>
    rule.threshold.any fun threshold => decide (threshold ≤ portfolioDrawdown)

/-- All weights are scaled to the target gross exposure, and weights of nothing are dropped. -/
def derisked (targetGross : K) (weights : Weights K) : Weights K :=
  if maxWeightEpsilon < weights.gross then
    (weights.update fun _ weight => weight * min 1 (targetGross / weights.gross)).filter fun weight =>
      maxWeightEpsilon < |weight|
  else weights

def drawdownTurn (policy : RiskExitPolicy K) (portfolioDrawdown : K) (state : ExitState K) :
    ExitState K × Bool :=
  match drawdownRule policy portfolioDrawdown with
  | none => (state, false)
  | some rule =>
      let targetGross := rule.targetGrossExposure.getD 0
      let weights := derisked targetGross state.weights
      ({ state with
          weights
          decisions := state.decisions ++ [{
            ruleType := .portfolioDrawdownDerisk
            symbol := none
            triggered := true
            metric := some portfolioDrawdown
            threshold := rule.threshold
            beforeWeight := state.weights.gross
            afterWeight := weights.gross
            reason := rule.rationale }] },
        decide (targetGross ≤ maxWeightEpsilon))

/-- The target with other weights; what leaves an unlevered target becomes cash. -/
def adjustedTarget (target : TargetWeight K) (weights : Weights K) : Except TargetError (TargetWeight K) :=
  let cash := if target.longOnly = true ∧ target.maxLeverage ≤ 1 + maxWeightEpsilon then
      max target.cashBuffer (1 - weights.gross)
    else target.cashBuffer
  TargetWeight.create weights target.origin cash target.maxLeverage target.longOnly

def executeRiskExitPolicy (policy : RiskExitPolicy K) (texts : Texts K) (target : TargetWeight K)
    (positions : List (ExitPositionSnapshot K)) (asOf : ℤ) (portfolioDrawdown : K)
    (cooldownUntil : List (String × ℤ)) : Except ExitError (RiskExitResult K) :=
  if ¬(0 ≤ portfolioDrawdown ∧ portfolioDrawdown ≤ 1) then .error .drawdown
  else
    let sorted := positions.insertionSort fun position other => position.symbol ≤ other.symbol
    (positionTurns policy texts asOf sorted
        { weights := target.weights, decisions := [], cooldowns := cooldownUntil }).bind fun closed =>
      let scaled := drawdownTurn policy portfolioDrawdown (cooldownTurns texts asOf closed)
      (adjustedTarget target scaled.1.weights).mapError .target |>.map fun adjusted =>
        { target := adjusted
          decisions := scaled.1.decisions
          cooldownUntil := scaled.1.cooldowns
          portfolioPaused := scaled.2 }

/-- Every weight is that of the target or nothing, and the symbols of triggered decisions weigh nothing. -/
structure Closing (target : Weights K) (state : ExitState K) : Prop where
  reduced : Reduced target state.weights
  kept : ∀ code, state.weights.get code = target.get code ∨ state.weights.get code = 0
  closed : ∀ decision ∈ state.decisions, decision.triggered = true → ∀ symbol ∈ decision.symbol,
    state.weights.get symbol = 0

namespace Closing

variable {target : Weights K} {state next : ExitState K} {policy : RiskExitPolicy K} {texts : Texts K}
  {asOf : ℤ}

theorem note (closing : Closing target state) {decisions : List (ExitDecision K)}
    (quiet : ∀ decision ∈ decisions, decision.triggered = false) :
    Closing target { state with decisions := state.decisions ++ decisions } := by
  refine ⟨closing.reduced, closing.kept, fun decision member triggered => ?_⟩
  rcases mem_append.mp member with earlier | new
  · exact closing.closed decision earlier triggered
  · rw [quiet decision new] at triggered
    cases triggered

variable [IsStrictOrderedRing K]

theorem remove (closing : Closing target state) (symbol : String) {decisions : List (ExitDecision K)}
    {cooldowns : List (String × ℤ)} (about : ∀ decision ∈ decisions, decision.symbol = some symbol) :
    Closing target { weights := state.weights.remove symbol, decisions := state.decisions ++ decisions
                     cooldowns } := by
  constructor
  · exact closing.reduced.trans (Reduced.remove symbol state.weights)
  · intro code
    rw [Weights.get_remove]
    split
    · exact Or.inr rfl
    · exact closing.kept code
  · intro decision member triggered other named
    rw [Weights.get_remove]
    split
    · rfl
    · rename_i different
      rcases mem_append.mp member with earlier | new
      · exact closing.closed decision earlier triggered other named
      · rw [about decision new] at named
        exact absurd (Option.some.inj named).symm different

theorem closePosition (closing : Closing target state) {before : K} {symbol : String}
    {checked : List (ExitDecision K)} {triggered : ExitDecision K}
    (about : ∀ decision ∈ checked, decision.symbol = some symbol)
    (turned : closePosition policy texts asOf before triggered symbol
      { state with decisions := state.decisions ++ checked } = .ok next) : Closing target next := by
  unfold Exits.closePosition at turned
  cases days : (policy.active .cooldown).bind (·.days) with
  | none =>
    rw [days] at turned
    obtain rfl := ok.inj turned
    exact closing.remove symbol about
  | some count =>
    rw [days] at turned
    simp only at turned
    split at turned
    · cases turned
    · obtain rfl := ok.inj turned
      rw [append_assoc]
      apply closing.remove symbol
      intro decision member
      rcases mem_append.mp member with rule | cooling
      · exact about decision rule
      · rw [mem_singleton.mp cooling]

theorem positionTurn (closing : Closing target state) {position : ExitPositionSnapshot K}
    (turned : positionTurn policy texts asOf state position = .ok next) : Closing target next := by
  unfold Exits.positionTurn at turned
  simp only at turned
  split at turned
  · obtain rfl := ok.inj turned
    apply closing.note
    intro decision member
    rw [mem_singleton.mp member]
    rfl
  · have about : ∀ decision ∈ (assetRuleTypes.filterMap policy.active).map fun rule =>
        assetDecision rule position asOf (state.weights.get position.symbol),
        decision.symbol = some position.symbol := by
      intro decision member
      obtain ⟨rule, -, rfl⟩ := mem_map.mp member
      rfl
    split at turned
    · rename_i quiet
      obtain rfl := ok.inj turned
      apply closing.note
      intro decision member
      simpa using find?_eq_none.mp quiet decision member
    · exact closing.closePosition about turned

theorem positionTurns (closing : Closing target state) {positions : List (ExitPositionSnapshot K)}
    (turned : positionTurns policy texts asOf positions state = .ok next) : Closing target next := by
  induction positions generalizing state with
  | nil =>
    obtain rfl := ok.inj turned
    exact closing
  | cons position rest ih =>
    unfold Exits.positionTurns at turned
    cases first : Exits.positionTurn policy texts asOf state position with
    | error error =>
      rw [first] at turned
      cases turned
    | ok middle =>
      rw [first] at turned
      exact ih (closing.positionTurn first) turned

theorem cooldownTurn (texts : Texts K) (asOf : ℤ) (closing : Closing target state) (cooldown : String × ℤ) :
    Closing target (cooldownTurn texts asOf state cooldown) := by
  unfold Exits.cooldownTurn
  simp only
  split
  · exact closing.remove cooldown.1 (by simp)
  · exact closing

end Closing

variable [IsStrictOrderedRing K]

section Cooling

variable {target : Weights K} {state : ExitState K} {texts : Texts K} {asOf : ℤ}

omit [IsStrictOrderedRing K] in
theorem cooldownTurn_cooldowns (texts : Texts K) (asOf : ℤ) (state : ExitState K) (cooldown : String × ℤ) :
    (cooldownTurn texts asOf state cooldown).cooldowns = state.cooldowns := by
  unfold cooldownTurn
  simp only
  split <;> rfl

/-- A symbol that cools down keeps at most the tolerance. -/
theorem cooldownTurn_cooled {cooldown : String × ℤ} (cooling : asOf ≤ cooldown.2) :
    |(cooldownTurn texts asOf state cooldown).weights.get cooldown.1| ≤ maxWeightEpsilon := by
  unfold cooldownTurn
  simp only
  split
  · rw [Weights.get_remove, if_pos rfl, abs_zero]
    exact maxWeightEpsilon_pos.le
  · rename_i kept
    exact not_lt.mp fun above => kept ⟨cooling, above⟩

/-- The turns close the symbols that cool down, and nothing opens again. -/
theorem foldl_cooldownTurn (texts : Texts K) (asOf : ℤ) (closing : Closing target state) (items : List (String × ℤ)) :
    Closing target (items.foldl (cooldownTurn texts asOf) state) ∧
      (items.foldl (cooldownTurn texts asOf) state).cooldowns = state.cooldowns ∧
      (∀ code, |(items.foldl (cooldownTurn texts asOf) state).weights.get code| ≤ |state.weights.get code|) ∧
      ∀ item ∈ items, asOf ≤ item.2 →
        |(items.foldl (cooldownTurn texts asOf) state).weights.get item.1| ≤ maxWeightEpsilon := by
  induction items generalizing state with
  | nil => exact ⟨closing, rfl, fun _ => le_refl _, by simp⟩
  | cons first rest ih =>
    obtain ⟨closes, same, shrinks, cools⟩ := ih (closing.cooldownTurn texts asOf first)
    have turn : ∀ code, |(cooldownTurn texts asOf state first).weights.get code| ≤
        |state.weights.get code| := by
      intro code
      unfold cooldownTurn
      simp only
      split
      · exact ((Reduced.remove first.1 state.weights).below.weight code).abs_le
      · exact le_refl _
    rw [foldl_cons]
    refine ⟨closes, same.trans (cooldownTurn_cooldowns texts asOf state first),
      fun code => (shrinks code).trans (turn code), ?_⟩
    intro item member cooling
    rcases mem_cons.mp member with rfl | later
    · exact (shrinks item.1).trans (cooldownTurn_cooled cooling)
    · exact cools item later cooling

/-- What cools down and had a weight of its own has none. -/
theorem cooldownTurns_closing (texts : Texts K) (asOf : ℤ) (closing : Closing target state) :
    Closing target (cooldownTurns texts asOf state) ∧
      (cooldownTurns texts asOf state).cooldowns = state.cooldowns ∧
      ∀ item ∈ state.cooldowns, asOf ≤ item.2 → maxWeightEpsilon < |target.get item.1| →
        (cooldownTurns texts asOf state).weights.get item.1 = 0 := by
  obtain ⟨closes, same, -, cools⟩ := foldl_cooldownTurn texts asOf closing
    (state.cooldowns.insertionSort fun item other => item.1 ≤ other.1)
  refine ⟨closes, same, fun item member cooling weighted => ?_⟩
  have cooled := cools item ((perm_insertionSort _ _).mem_iff.mpr member) cooling
  rcases closes.kept item.1 with kept | closed
  · rw [kept] at cooled
    exact absurd cooled (not_le.mpr weighted)
  · exact closed

end Cooling

section Drawdown

variable {weights : Weights K} {targetGross : K}

theorem derisked_reduced (nonneg : 0 ≤ targetGross) (weights : Weights K) :
    Reduced weights (derisked targetGross weights) := by
  unfold derisked
  split
  · rename_i exposed
    have positive := maxWeightEpsilon_pos.trans exposed
    have scale := le_min zero_le_one (div_nonneg nonneg positive.le)
    have shrinks : ∀ (_ : String) weight, Shrunk weight (weight * min 1 (targetGross / weights.gross)) :=
      fun _ weight => Shrunk.scaled scale (min_le_left _ _) weight
    exact (Reduced.update shrinks weights).trans (Reduced.filter _ _)
  · exact Reduced.refl weights

theorem gross_derisked (nonneg : 0 ≤ targetGross) (weights : Weights K) :
    (derisked targetGross weights).gross ≤ targetGross ∨ (derisked targetGross weights).gross ≤ maxWeightEpsilon := by
  unfold derisked
  split
  · rename_i exposed
    have positive := maxWeightEpsilon_pos.trans exposed
    have scale := le_min zero_le_one (div_nonneg nonneg positive.le)
    left
    calc
      _ ≤ (weights.update fun _ weight => weight * min 1 (targetGross / weights.gross)).gross :=
          Weights.exposure_filter_le _ _ _
      _ = weights.gross * min 1 (targetGross / weights.gross) :=
          Weights.exposure_scaled scale (fun _ _ _ => rfl) weights
      _ ≤ weights.gross * (targetGross / weights.gross) :=
          mul_le_mul_of_nonneg_left (min_le_right _ _) positive.le
      _ = targetGross := mul_div_cancel₀ targetGross positive.ne'
  · rename_i small
    exact Or.inr (not_lt.mp small)

end Drawdown

omit [IsStrictOrderedRing K] in
theorem entryError_eq_none_iff {longOnly : Bool} {entries : List (String × K)} :
    entryError longOnly entries = none ↔
      ∀ entry ∈ entries, entry.1 ≠ "" ∧ (longOnly = true → 0 ≤ entry.2) := by
  induction entries with
  | nil => simp [entryError]
  | cons entry rest ih =>
    unfold entryError
    rw [forall_mem_cons]
    split
    · rename_i empty
      simp [empty]
    · rename_i named
      split
      · rename_i negative
        simp [negative.1, negative.2]
      · rename_i allowed
        have nonneg : longOnly = true → 0 ≤ entry.2 := fun long => not_lt.mp fun negative => allowed ⟨long, negative⟩
        rw [ih]
        exact ⟨fun later => ⟨⟨named, nonneg⟩, later⟩, And.right⟩

theorem net_eq_gross {weights : Weights K} (nonneg : ∀ entry ∈ weights.entries, 0 ≤ entry.2) :
    weights.net = weights.gross := by
  unfold Weights.net Weights.gross Weights.exposure
  rw [filter_true]
  apply Ledger.total_congr
  intro entry member
  exact (abs_of_nonneg (nonneg entry member)).symm

omit [IsStrictOrderedRing K] in
theorem entries_of_reduced {target : TargetWeight K} {weights : Weights K}
    (reduced : Reduced target.weights weights) :
    ∀ entry ∈ weights.entries, entry.1 ≠ "" ∧ (target.longOnly = true → 0 ≤ entry.2) := by
  intro entry member
  have sound := entryError_eq_none_iff.mp target.entries_sound
  obtain ⟨original, listed, same⟩ := mem_map.mp (reduced.symbols entry.1 (mem_map_of_mem member))
  obtain ⟨named, nonneg⟩ := sound original listed
  refine ⟨same ▸ named, fun long => ?_⟩
  have shrunk := reduced.below.weight entry.1
  rw [Weights.get_of_mem member, ← same, Weights.get_of_mem listed] at shrunk
  rcases shrunk with ⟨positive, -⟩ | ⟨above, -⟩
  · exact positive
  · exact (nonneg long).trans above

omit [IsStrictOrderedRing K] in
theorem created {weights : Weights K} {origin : TargetOrigin} {cashBuffer maxLeverage : K} {longOnly : Bool}
    (cash_bounds : 0 ≤ cashBuffer ∧ cashBuffer ≤ 1) (one_le_leverage : 1 ≤ maxLeverage)
    (entries_sound : entryError longOnly weights.entries = none)
    (gross_le : weights.gross ≤ maxLeverage + maxWeightEpsilon)
    (funded : longOnly = true → maxLeverage ≤ 1 + maxWeightEpsilon →
      weights.net + cashBuffer ≤ 1 + maxWeightEpsilon) :
    ∃ target, TargetWeight.create weights origin cashBuffer maxLeverage longOnly = .ok target ∧
      target.weights = weights := by
  unfold TargetWeight.create
  rw [dif_pos cash_bounds, dif_pos one_le_leverage]
  split
  · rename_i found
    rw [entries_sound] at found
    cases found
  · rw [dif_pos gross_le, dif_pos funded]
    exact ⟨_, rfl, rfl⟩

theorem adjustedTarget_ok {target : TargetWeight K} {weights : Weights K}
    (reduced : Reduced target.weights weights) :
    ∃ adjusted, adjustedTarget target weights = .ok adjusted ∧ adjusted.weights = weights := by
  have sound := entries_of_reduced reduced
  have gross_nonneg : 0 ≤ weights.gross := weights.exposure_nonneg _
  have gross_le : weights.gross ≤ target.weights.gross := reduced.below.exposure _
  have entries_sound : entryError target.longOnly weights.entries = none := entryError_eq_none_iff.mpr sound
  have cash_bounds : ∀ cash, cash = target.cashBuffer ∨ cash = max target.cashBuffer (1 - weights.gross) →
      0 ≤ cash ∧ cash ≤ 1 := by
    rintro cash (rfl | rfl)
    · exact target.cash_bounds
    · exact ⟨target.cash_bounds.1.trans (le_max_left _ _), max_le target.cash_bounds.2 (by linarith)⟩
  -- an unlevered long target holds its net exposure as gross exposure, so that the cash fills what is left
  have funded : target.longOnly = true → target.maxLeverage ≤ 1 + maxWeightEpsilon →
      weights.net + max target.cashBuffer (1 - weights.gross) ≤ 1 + maxWeightEpsilon := by
    intro long unlevered
    have net : weights.net = weights.gross := net_eq_gross fun entry member => (sound entry member).2 long
    have net_target : target.weights.net = target.weights.gross :=
      net_eq_gross fun entry member => (entryError_eq_none_iff.mp target.entries_sound entry member).2 long
    have within := target.funded long unlevered
    have tolerance : 0 < (maxWeightEpsilon : K) := maxWeightEpsilon_pos
    rw [net, add_comm, max_add]
    apply max_le
    · linarith
    · linarith
  unfold adjustedTarget
  simp only
  split
  · rename_i unlevered
    exact created (cash_bounds _ (Or.inr rfl)) target.one_le_leverage entries_sound
      (gross_le.trans target.gross_le) fun _ _ => funded unlevered.1 unlevered.2
  · rename_i levered
    exact created (cash_bounds _ (Or.inl rfl)) target.one_le_leverage entries_sound
      (gross_le.trans target.gross_le) fun long unlevered => absurd ⟨long, unlevered⟩ levered

/-- The result only takes away from the target. -/
structure Derisked (policy : RiskExitPolicy K) (target : TargetWeight K) (asOf : ℤ) (portfolioDrawdown : K)
    (result : RiskExitResult K) : Prop where
  symbols : ∀ symbol ∈ result.target.weights.entries.map Prod.fst,
    symbol ∈ target.weights.entries.map Prod.fst
  weights : ∀ symbol, Shrunk (target.weights.get symbol) (result.target.weights.get symbol)
  triggered : ∀ decision ∈ result.decisions, decision.triggered = true → ∀ symbol ∈ decision.symbol,
    result.target.weights.get symbol = 0
  cooling : ∀ item ∈ result.cooldownUntil, asOf ≤ item.2 → maxWeightEpsilon < |target.weights.get item.1| →
    result.target.weights.get item.1 = 0
  drawdown : ∀ rule ∈ policy.rules, rule.enabled = true → rule.ruleType = .portfolioDrawdownDerisk →
    ∀ threshold ∈ rule.threshold, threshold ≤ portfolioDrawdown → ∀ gross ∈ rule.targetGrossExposure,
      result.target.weights.gross ≤ gross ∨ result.target.weights.gross ≤ maxWeightEpsilon

omit [IsStrictOrderedRing K] in
theorem active_of_mem {policy : RiskExitPolicy K} {rule : RiskExitRule K} (member : rule ∈ policy.rules)
    (enabled : rule.enabled = true) : policy.active rule.ruleType = some rule := by
  unfold RiskExitPolicy.active
  cases found : policy.rules.find? fun other => other.enabled && decide (other.ruleType = rule.ruleType) with
  | none =>
    have passes := find?_eq_none.mp found rule member
    simp [enabled] at passes
  | some other =>
    have passes := find?_some found
    simp only [Bool.and_eq_true, decide_eq_true_eq] at passes
    have same := inj_on_of_nodup_map policy.nodup (mem_of_find?_eq_some found) member passes.2
    rw [same]

omit [IsStrictOrderedRing K] in
theorem drawdownRule_of_mem {policy : RiskExitPolicy K} {rule : RiskExitRule K} {threshold drawdown : K}
    (member : rule ∈ policy.rules) (enabled : rule.enabled = true)
    (derisks : rule.ruleType = .portfolioDrawdownDerisk) (given : threshold ∈ rule.threshold)
    (reached : threshold ≤ drawdown) : drawdownRule policy drawdown = some rule := by
  have active := active_of_mem member enabled
  rw [derisks] at active
  unfold drawdownRule
  rw [active, Option.filter_some, if_pos]
  rw [Option.mem_def.mp given]
  simpa using reached

theorem drawdownTurn_closing {target : Weights K} {state : ExitState K} (policy : RiskExitPolicy K) (drawdown : K)
    (closing : Closing target state) : Reduced target (drawdownTurn policy drawdown state).1.weights ∧
      Reduced state.weights (drawdownTurn policy drawdown state).1.weights ∧
      (∀ decision ∈ (drawdownTurn policy drawdown state).1.decisions,
        decision ∈ state.decisions ∨ decision.symbol = none) ∧
      (drawdownTurn policy drawdown state).1.cooldowns = state.cooldowns := by
  unfold drawdownTurn
  split
  · exact ⟨closing.reduced, Reduced.refl _, fun _ member => Or.inl member, rfl⟩
  · rename_i rule active
    have nonneg : 0 ≤ rule.targetGrossExposure.getD 0 := by
      cases given : rule.targetGrossExposure with
      | none => exact le_refl _
      | some gross => exact (rule.targetGross_bounds gross given).1
    have reduced := derisked_reduced nonneg state.weights
    refine ⟨closing.reduced.trans reduced, reduced, fun decision member => ?_, rfl⟩
    rcases mem_append.mp member with earlier | new
    · exact Or.inl earlier
    · rw [mem_singleton.mp new]
      exact Or.inr rfl

omit [IsStrictOrderedRing K] in
theorem get_eq_zero_of_reduced {before after : Weights K} {symbol : String} (reduced : Reduced before after)
    (closed : before.get symbol = 0) : after.get symbol = 0 := by
  have shrunk := reduced.below.weight symbol
  rw [closed] at shrunk
  exact shrunk.of_zero

/-- What is scaled after all positions and cooldowns are closed only takes away. -/
theorem derisked_of_closing {policy : RiskExitPolicy K} {texts : Texts K} {target adjusted : TargetWeight K}
    {asOf : ℤ} {drawdown : K} {closed : ExitState K} (closing : Closing target.weights closed)
    (built : adjusted.weights =
      (drawdownTurn policy drawdown (cooldownTurns texts asOf closed)).1.weights) :
    Derisked policy target asOf drawdown
      { target := adjusted
        decisions := (drawdownTurn policy drawdown (cooldownTurns texts asOf closed)).1.decisions
        cooldownUntil := (drawdownTurn policy drawdown (cooldownTurns texts asOf closed)).1.cooldowns
        portfolioPaused := (drawdownTurn policy drawdown (cooldownTurns texts asOf closed)).2 } := by
  obtain ⟨cooled, cooldowns, cools⟩ := cooldownTurns_closing texts asOf closing
  obtain ⟨reduced, scaled, decided, kept⟩ := drawdownTurn_closing policy drawdown cooled
  constructor
  · simpa only [built] using reduced.symbols
  · simpa only [built] using reduced.below.weight
  · intro decision member triggered symbol named
    simp only [built]
    rcases decided decision member with earlier | none
    · exact get_eq_zero_of_reduced scaled (cooled.closed decision earlier triggered symbol named)
    · rw [none] at named
      cases named
  · intro item member cooling weighted
    simp only [kept, cooldowns] at member
    simp only [built]
    exact get_eq_zero_of_reduced scaled (cools item member cooling weighted)
  · intro rule member enabled derisks threshold given reached gross targeted
    have active := drawdownRule_of_mem member enabled derisks given reached
    have exact : rule.targetGrossExposure.getD 0 = gross := by rw [Option.mem_def.mp targeted, Option.getD_some]
    simp only [built, drawdownTurn, active, exact]
    exact gross_derisked (rule.targetGross_bounds gross targeted).1 _

omit [IsStrictOrderedRing K] in
theorem positionTurn_error {policy : RiskExitPolicy K} {texts : Texts K} {asOf : ℤ} {state : ExitState K}
    {position : ExitPositionSnapshot K} {error : ExitError}
    (failed : positionTurn policy texts asOf state position = .error error) : error = .dateOverflow := by
  unfold positionTurn at failed
  simp only at failed
  split at failed
  · cases failed
  · split at failed
    · cases failed
    · unfold closePosition at failed
      split at failed
      · cases failed
      · split at failed
        · exact (Except.error.inj failed).symm
        · cases failed

omit [IsStrictOrderedRing K] in
/-- Closing positions fails on nothing but the end of a cooldown. -/
theorem positionTurns_error {policy : RiskExitPolicy K} {texts : Texts K} {asOf : ℤ} {state : ExitState K}
    {positions : List (ExitPositionSnapshot K)} {error : ExitError}
    (failed : positionTurns policy texts asOf positions state = .error error) : error = .dateOverflow := by
  induction positions generalizing state with
  | nil => cases failed
  | cons position rest ih =>
    unfold positionTurns at failed
    cases first : positionTurn policy texts asOf state position with
    | error earlier =>
      rw [first] at failed
      obtain rfl := Except.error.inj failed
      exact positionTurn_error first
    | ok middle =>
      rw [first] at failed
      exact ih failed

end Model

def twoAssets : TargetWeight ℚ where
  weights := ⟨[("510300.SH", 1 / 2), ("511880.SH", 1 / 10 ^ 10)], by decide⟩
  origin := { asOf := 738000, strategyId := "sample" }
  cashBuffer := 0
  maxLeverage := 1
  longOnly := true
  cash_bounds := no_buffer
  one_le_leverage := unlevered
  entries_sound := by decide +kernel
  gross_le := by decide +kernel
  funded := by decide +kernel

/-- Half of the money is lost: the portfolio is closed. -/
def drawdownPolicy : RiskExitPolicy ℚ where
  rules := [{
    ruleType := .portfolioDrawdownDerisk
    enabled := true
    threshold := some (1 / 2)
    targetGrossExposure := some 0
    rationale := ""
    threshold_pos := by decide +kernel
    days_le := by decide
    targetGross_bounds := by decide +kernel
    threshold_given := by decide
    days_given := by decide
    targetGross_given := by decide }]
  nodup := by decide

def plainTexts : Texts ℚ := ⟨fun _ => "", fun _ => ""⟩

end FinDashboard.Portfolio.Exits
