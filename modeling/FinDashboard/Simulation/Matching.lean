import FinDashboard.Simulation.Contracts
import Mathlib.Algebra.Order.Ring.Star
import Mathlib.Data.Rat.Star

/-!
# Matching one order against one bar

The pure part of the simulation: prices, participation and the outcome of an order on a bar.
Whatever the rule and the configuration, a fill takes a positive part of what is open.
-/

namespace FinDashboard.Simulation

/-- `AssetRule.is_suspended`, which reads nothing of the rule: no volume, and all four prices at the previous close. -/
def isSuspended (bar : Bar) (preClose : Option ℚ) : Bool :=
  if 0 < bar.volume then false
  else match preClose with
    | none => false
    | some close =>
        if close ≤ 0 then false
        else bar.close = close && bar.high = close && bar.low = close && bar.openPrice = close

namespace AssetRule

variable (rule : AssetRule)

/-- `_ceiling` for a limit of `pct`. -/
def ceiling (pct preClose : ℚ) : ℚ := rule.roundToTick (preClose * (1 + pct))

/-- `_floor` for a limit of `pct`. -/
def floor (pct preClose : ℚ) : ℚ := rule.roundToTick (preClose * (1 - pct))

def isAtLimitUp (bar : Bar) (preClose : Option ℚ) : Bool :=
  match rule.priceLimitPct, preClose with
  | some pct, some close =>
      if close ≤ 0 then false
      else rule.ceiling pct close ≤ bar.close && bar.high ≤ rule.ceiling pct close
  | _, _ => false

def isAtLimitDown (bar : Bar) (preClose : Option ℚ) : Bool :=
  match rule.priceLimitPct, preClose with
  | some pct, some close =>
      if close ≤ 0 then false
      else bar.close ≤ rule.floor pct close && rule.floor pct close ≤ bar.low
  | _, _ => false

end AssetRule

/-- The part of an order a bar may fill. -/
def fillQuantityWithinParticipation (requestedQty barVolume maxParticipation : ℚ) : ℚ :=
  if requestedQty ≤ 0 then 0
  else
    let cap := if 0 ≤ maxParticipation then min requestedQty (maxParticipation * barVolume)
      else requestedQty
    if 0 < barVolume then min cap barVolume else cap

/-- The slippage goes against the order. -/
def priceWithSlippage (rawPrice : ℚ) (side : Side) (slippageBps : ℚ) : ℚ :=
  if slippageBps = 0 then rawPrice
  else
    let slip := slippageBps / 10000
    match side with
    | .buy => rawPrice * (1 + slip)
    | .sell => rawPrice * (1 - slip)

/-- The price of a bar an order is filled at, before slippage. -/
def fillPriceFor (rule : AssetRule) (side : Side) (bar : Bar) (fillTiming : FillTiming)
    (limitPrice : Option ℚ) : ℚ :=
  let base := match fillTiming with
    | .nextBarOpen => bar.openPrice
    | .nextBarVwapProxy =>
        if bar.high + bar.low + 2 * bar.close ≤ 0 then bar.close
        else (bar.high + bar.low + 2 * bar.close) / 4
    | .nextBarClose => bar.close
  let price := rule.roundToTick base
  match limitPrice with
  | none => price
  | some limit =>
      match side with
      | .buy => min price limit
      | .sell => max price limit

/-- What `match_order` reads of an order. -/
structure PendingOrder where
  side : Side
  orderType : OrderType
  timeInForce : TimeInForce
  remainingQuantity : ℚ
  limitPrice : Option ℚ
  eligibleAfter : Timestamp

/-- `MatchOutcome`, with the fields each action sets. -/
inductive MatchOutcome
  | wait (reason : Reason)
  | fill (quantity rawPrice fillPrice : ℚ) (cancelRemainder : Bool)
  | reject (reason : Reason)
  | cancel (reason : Reason)
  deriving DecidableEq, Repr

/-- `_raw_price`: no price when a limit is out of the range of the bar. -/
def rawPrice (order : PendingOrder) (bar : Bar) (rule : AssetRule)
    (config : SimulationMatchingConfig) : Option ℚ :=
  if order.orderType = .limit then
    match order.limitPrice with
    | none => none
    | some price =>
        if order.side = .buy ∧ price < bar.low then none
        else if order.side = .sell ∧ bar.high < price then none
        else some (fillPriceFor rule order.side bar config.fillTiming (some price))
  else some (fillPriceFor rule order.side bar config.fillTiming none)

def priceLimitBlocked (side : Side) (bar : Bar) (rule : AssetRule) (previousClose : Option ℚ) : Bool :=
  match side with
  | .buy => rule.isAtLimitUp bar previousClose
  | .sell => rule.isAtLimitDown bar previousClose

def availableQuantity (order : PendingOrder) (bar : Bar) (rule : AssetRule)
    (config : SimulationMatchingConfig) : ℚ :=
  let available := fillQuantityWithinParticipation order.remainingQuantity bar.volume
    config.maxParticipation
  if config.enforceLotRounding then rule.roundToLot available else available

def matchAtPrice (order : PendingOrder) (bar : Bar) (rule : AssetRule)
    (config : SimulationMatchingConfig) (price : ℚ) : MatchOutcome :=
  let available := availableQuantity order bar rule config
  if order.timeInForce = .fok ∧ available < order.remainingQuantity then .cancel .fokNotFillable
  else if available ≤ 0 then
    if order.timeInForce = .ioc then .cancel .iocNoLiquidity else .wait .noLiquidity
  else if config.allowPartialFill = false ∧ available < order.remainingQuantity then
    .wait .partialFillDisabled
  else
    let fillPrice := rule.roundToTick (priceWithSlippage price order.side config.slippageBps)
    if fillPrice ≤ 0 then .reject .invalidFillPrice
    else .fill (min available order.remainingQuantity) price fillPrice (order.timeInForce = .ioc)

def matchOrder (order : PendingOrder) (bar : Bar) (previousClose : Option ℚ) (rule : AssetRule)
    (config : SimulationMatchingConfig) : MatchOutcome :=
  if bar.timestamp.instant ≤ order.eligibleAfter.instant then .wait .nextBarGate
  else if config.enforceSuspension && isSuspended bar previousClose then .reject .suspended
  else if config.enforcePriceLimit && priceLimitBlocked order.side bar rule previousClose then
    .reject .priceLimit
  else match rawPrice order bar rule config with
    | none =>
        if order.timeInForce = .ioc ∨ order.timeInForce = .fok then .cancel .limitNotReached
        else .wait .limitNotReached
    | some price => matchAtPrice order bar rule config price

variable {order : PendingOrder} {bar : Bar} {rule : AssetRule} {config : SimulationMatchingConfig}
  {previousClose : Option ℚ} {quantity raw price : ℚ} {cancelRemainder : Bool}

/-- Nothing is available for an order without an open rest. -/
theorem remaining_pos_of_available (h : 0 < availableQuantity order bar rule config) :
    0 < order.remainingQuantity := by
  by_contra hnot
  have hle : order.remainingQuantity ≤ 0 := not_lt.mp hnot
  have hzero : availableQuantity order bar rule config = 0 := by
    unfold availableQuantity fillQuantityWithinParticipation
    rw [if_pos hle]
    simp [AssetRule.roundToLot]
  rw [hzero] at h
  exact lt_irrefl 0 h

/-- A fill takes a positive part of the open quantity, at a positive price. -/
theorem fill_of_matchAtPrice {base : ℚ}
    (h : matchAtPrice order bar rule config base = .fill quantity raw price cancelRemainder) :
    0 < quantity ∧ quantity ≤ order.remainingQuantity ∧ 0 < price := by
  unfold matchAtPrice at h
  simp only at h
  split_ifs at h with hfok hnone hioc hpart hprice
  have havailable : 0 < availableQuantity order bar rule config := not_le.mp hnone
  injection h with hquantity hraw hfill hcancel
  refine ⟨?_, ?_, ?_⟩
  · rw [← hquantity]
    exact lt_min havailable (remaining_pos_of_available havailable)
  · rw [← hquantity]
    exact min_le_right _ _
  · rw [← hfill]
    exact not_le.mp hprice

theorem fill_of_matchOrder
    (h : matchOrder order bar previousClose rule config = .fill quantity raw price cancelRemainder) :
    0 < quantity ∧ quantity ≤ order.remainingQuantity ∧ 0 < price := by
  unfold matchOrder at h
  cases hraw : rawPrice order bar rule config with
  | none =>
    simp only [hraw] at h
    split_ifs at h
  | some found =>
    simp only [hraw] at h
    split_ifs at h
    exact fill_of_matchAtPrice h

/-- What a fill must keep of its order. -/
structure RespectsOrder (order : PendingOrder) (quantity price : ℚ) : Prop where
  positive : 0 < quantity
  within : quantity ≤ order.remainingQuantity
  limit : order.orderType = .limit → ∀ limit ∈ order.limitPrice,
    (order.side = .buy → price ≤ limit) ∧ (order.side = .sell → limit ≤ price)
  whole : order.timeInForce = .fok → quantity = order.remainingQuantity

/-- Every fill of the order on the bar keeps its terms. -/
def FillsRespect (order : PendingOrder) (bar : Bar) (previousClose : Option ℚ) (rule : AssetRule)
    (config : SimulationMatchingConfig) : Prop :=
  ∀ quantity raw price cancelRemainder,
    matchOrder order bar previousClose rule config = .fill quantity raw price cancelRemainder →
      RespectsOrder order quantity price

/-- A limit order the bar has a quantity for at its limit: no check before the price stops it. -/
structure Fillable (order : PendingOrder) (bar : Bar) (previousClose : Option ℚ)
    (rule : AssetRule) (config : SimulationMatchingConfig) (limit : ℚ) : Prop where
  later : order.eligibleAfter.instant < bar.timestamp.instant
  trading : (config.enforceSuspension && isSuspended bar previousClose) = false
  unblocked : (config.enforcePriceLimit && priceLimitBlocked order.side bar rule previousClose) = false
  reached : (order.side = .buy → bar.low ≤ limit) ∧ (order.side = .sell → limit ≤ bar.high)
  available : 0 < availableQuantity order bar rule config
  whole : order.timeInForce = .fok ∨ config.allowPartialFill = false →
    order.remainingQuantity ≤ availableQuantity order bar rule config

/-- The slippage stays within the tick of the limit: below the next tick above it for a purchase,
not below the first tick from it on for a sale, unless the sale has no price left. -/
def LimitRoom (order : PendingOrder) (bar : Bar) (rule : AssetRule)
    (config : SimulationMatchingConfig) (limit : ℚ) : Prop :=
  let slip := config.slippageBps / 10000
  let barPrice := fillPriceFor rule order.side bar config.fillTiming none
  match order.side with
  | .buy => min barPrice limit * (1 + slip) < (⌊limit / rule.priceTick⌋ + 1) * rule.priceTick
  | .sell => max barPrice limit * (1 - slip) < rule.priceTick ∨
      ⌈limit / rule.priceTick⌉ * rule.priceTick ≤ max barPrice limit * (1 - slip)

namespace AssetRule

variable (rule : AssetRule) {price limit : ℚ}

theorem roundToTick_of_pos (positive : 0 < price) :
    rule.roundToTick price = ⌊price / rule.priceTick⌋ * rule.priceTick :=
  if_neg (not_le.mpr positive)

theorem roundToTick_pos_iff : 0 < rule.roundToTick price ↔ rule.priceTick ≤ price := by
  have tick := rule.priceTick_pos
  rcases le_or_gt price 0 with nothing | positive
  · rw [roundToTick, if_pos nothing]
    exact iff_of_false (lt_irrefl 0) (not_le.mpr (nothing.trans_lt tick))
  · rw [roundToTick_of_pos rule positive, mul_pos_iff_of_pos_right tick]
    rw [Int.cast_pos, Int.lt_iff_add_one_le, Int.le_floor]
    norm_num
    exact one_le_div₀ tick

theorem roundToTick_le_iff (positive : 0 < price) : rule.roundToTick price ≤ limit ↔
    price < (⌊limit / rule.priceTick⌋ + 1) * rule.priceTick := by
  have tick := rule.priceTick_pos
  rw [roundToTick_of_pos rule positive, ← le_div_iff₀ tick, ← Int.le_floor, ← div_lt_iff₀ tick,
    ← Int.lt_add_one_iff, Int.floor_lt]
  norm_num

theorem lt_next_tick : limit < (⌊limit / rule.priceTick⌋ + 1) * rule.priceTick :=
  (div_lt_iff₀ rule.priceTick_pos).mp (Int.lt_floor_add_one _)

theorem neg_of_next_tick_lt
    (below : (⌊limit / rule.priceTick⌋ + 1) * rule.priceTick < rule.priceTick) : limit < 0 := by
  have tick := rule.priceTick_pos
  by_contra positive
  have units := Int.floor_nonneg.mpr (div_nonneg (not_lt.mp positive) tick.le)
  have units' : (0 : ℚ) ≤ ⌊limit / rule.priceTick⌋ := by exact_mod_cast units
  have bound := mul_nonneg units' tick.le
  linarith

theorem le_roundToTick_iff (positive : 0 < price) : limit ≤ rule.roundToTick price ↔
    ⌈limit / rule.priceTick⌉ * rule.priceTick ≤ price := by
  have tick := rule.priceTick_pos
  rw [roundToTick_of_pos rule positive, ← div_le_iff₀ tick, ← Int.ceil_le, ← le_div_iff₀ tick,
    Int.le_floor]

end AssetRule

section Limits

variable {order : PendingOrder} {bar : Bar} {rule : AssetRule} {config : SimulationMatchingConfig}
  {previousClose : Option ℚ} {quantity raw price limit : ℚ} {cancelRemainder : Bool}

theorem priceWithSlippage_eq (side : Side) (bps : ℚ) : priceWithSlippage raw side bps =
    match side with
    | .buy => raw * (1 + bps / 10000)
    | .sell => raw * (1 - bps / 10000) := by
  unfold priceWithSlippage
  split_ifs with nothing
  · cases side <;> simp [nothing]
  · rfl

theorem rawPrice_limit (kind : order.orderType = .limit) (given : order.limitPrice = some limit) :
    rawPrice order bar rule config =
      if (order.side = .buy → bar.low ≤ limit) ∧ (order.side = .sell → limit ≤ bar.high) then
        some (fillPriceFor rule order.side bar config.fillTiming (some limit)) else none := by
  unfold rawPrice
  rw [if_pos kind, given]
  dsimp only
  cases side : order.side with
  | buy =>
    by_cases below : limit < bar.low
    · simp [below]
    · simp [below, not_lt.mp below]
  | sell =>
    by_cases above : bar.high < limit
    · simp [above]
    · simp [above, not_lt.mp above]

theorem matchAtPrice_fill_iff {base : ℚ} :
    matchAtPrice order bar rule config base = .fill quantity raw price cancelRemainder ↔
      0 < availableQuantity order bar rule config ∧
        (order.timeInForce = .fok ∨ config.allowPartialFill = false →
          order.remainingQuantity ≤ availableQuantity order bar rule config) ∧
        0 < rule.roundToTick (priceWithSlippage base order.side config.slippageBps) ∧
        quantity = min (availableQuantity order bar rule config) order.remainingQuantity ∧ raw = base ∧
        price = rule.roundToTick (priceWithSlippage base order.side config.slippageBps) ∧
        cancelRemainder = decide (order.timeInForce = .ioc) := by
  unfold matchAtPrice
  dsimp only
  split_ifs with fok empty ioc partialOff rejected
  · simp only [false_iff]
    rintro ⟨-, whole, -⟩
    exact absurd (whole (Or.inl fok.1)) (not_le.mpr fok.2)
  · simp only [false_iff]
    exact fun filled => absurd filled.1 (not_lt.mpr empty)
  · simp only [false_iff]
    exact fun filled => absurd filled.1 (not_lt.mpr empty)
  · simp only [false_iff]
    rintro ⟨-, whole, -⟩
    exact absurd (whole (Or.inr partialOff.1)) (not_le.mpr partialOff.2)
  · simp only [false_iff]
    exact fun filled => absurd filled.2.2.1 (not_lt.mpr rejected)
  · have whole : order.timeInForce = .fok ∨ config.allowPartialFill = false →
        order.remainingQuantity ≤ availableQuantity order bar rule config := by
      rintro (kind | off)
      · exact not_lt.mp fun short => fok ⟨kind, short⟩
      · exact not_lt.mp fun short => partialOff ⟨off, short⟩
    simp only [MatchOutcome.fill.injEq, not_le.mp empty, not_le.mp rejected, true_and]
    constructor
    · rintro ⟨rfl, rfl, rfl, rfl⟩
      exact ⟨whole, rfl, rfl, rfl, rfl⟩
    · rintro ⟨-, rfl, rfl, rfl, rfl⟩
      exact ⟨rfl, rfl, rfl, rfl⟩

theorem matchOrder_fill_iff :
    matchOrder order bar previousClose rule config = .fill quantity raw price cancelRemainder ↔
      order.eligibleAfter.instant < bar.timestamp.instant ∧
        (config.enforceSuspension && isSuspended bar previousClose) = false ∧
        (config.enforcePriceLimit && priceLimitBlocked order.side bar rule previousClose) = false ∧
        ∃ base, rawPrice order bar rule config = some base ∧ matchAtPrice order bar rule config base =
            .fill quantity raw price cancelRemainder := by
  unfold matchOrder
  by_cases early : bar.timestamp.instant ≤ order.eligibleAfter.instant
  · simp [early, not_lt.mpr early]
  by_cases suspended : (config.enforceSuspension && isSuspended bar previousClose) = true
  · simp [early, suspended]
  by_cases blocked : (config.enforcePriceLimit &&
      priceLimitBlocked order.side bar rule previousClose) = true
  · simp [early, suspended, blocked]
  rw [if_neg early, if_neg suspended, if_neg blocked]
  have open_ := not_le.mp early
  rw [Bool.not_eq_true] at suspended blocked
  cases found : rawPrice order bar rule config with
  | none =>
    dsimp only
    split_ifs <;> simp
  | some base => simp [open_, suspended, blocked]

theorem respects_but_limit (filled : matchOrder order bar previousClose rule config =
      .fill quantity raw price cancelRemainder) : 0 < quantity ∧ quantity ≤ order.remainingQuantity ∧
      (order.timeInForce = .fok → quantity = order.remainingQuantity) := by
  obtain ⟨positive, within, -⟩ := fill_of_matchOrder filled
  refine ⟨positive, within, fun fok => ?_⟩
  obtain ⟨-, -, -, base, -, matched⟩ := matchOrder_fill_iff.mp filled
  obtain ⟨-, whole, -, taken, -⟩ := matchAtPrice_fill_iff.mp matched
  rw [taken, min_eq_right (whole (Or.inl fok))]

theorem limit_filled_iff (kind : order.orderType = .limit) (given : order.limitPrice = some limit) :
    (∃ quantity raw cancelRemainder, matchOrder order bar previousClose rule config =
        .fill quantity raw price cancelRemainder) ↔
      Fillable order bar previousClose rule config limit ∧ 0 < price ∧
        price = rule.roundToTick (priceWithSlippage
          (fillPriceFor rule order.side bar config.fillTiming (some limit)) order.side
          config.slippageBps) := by
  constructor
  · rintro ⟨quantity, raw, cancelRemainder, filled⟩
    obtain ⟨later, trading, unblocked, base, found, matched⟩ := matchOrder_fill_iff.mp filled
    rw [rawPrice_limit kind given] at found
    split_ifs at found with reached
    obtain ⟨available, whole, positive, -, -, rounded, -⟩ := matchAtPrice_fill_iff.mp matched
    rw [← Option.some.inj found] at positive rounded
    exact ⟨⟨later, trading, unblocked, reached, available, whole⟩, rounded ▸ positive, rounded⟩
  · rintro ⟨fillable, positive, rounded⟩
    have found : rawPrice order bar rule config = _ := rawPrice_limit kind given
    rw [if_pos fillable.reached] at found
    refine ⟨_, _, _, matchOrder_fill_iff.mpr ⟨fillable.later, fillable.trading,
      fillable.unblocked, _, found, matchAtPrice_fill_iff.mpr ⟨fillable.available,
        fillable.whole, rounded ▸ positive, rfl, rfl, rounded, rfl⟩⟩⟩

theorem limitRoom_iff : (0 < rule.roundToTick (priceWithSlippage
        (fillPriceFor rule order.side bar config.fillTiming (some limit)) order.side config.slippageBps) →
      (order.side = .buy → rule.roundToTick (priceWithSlippage
        (fillPriceFor rule order.side bar config.fillTiming (some limit)) order.side
        config.slippageBps) ≤ limit) ∧ (order.side = .sell → limit ≤ rule.roundToTick (priceWithSlippage
        (fillPriceFor rule order.side bar config.fillTiming (some limit)) order.side
        config.slippageBps))) ↔ LimitRoom order bar rule config limit := by
  have tick := rule.priceTick_pos
  have slip : 0 ≤ config.slippageBps / 10000 := div_nonneg config.slippageBps_nonneg (by norm_num)
  unfold LimitRoom
  rw [priceWithSlippage_eq, AssetRule.roundToTick_pos_iff]
  dsimp only
  cases side : order.side with
  | buy =>
    dsimp only
    have base : fillPriceFor rule .buy bar config.fillTiming (some limit) =
        min (fillPriceFor rule .buy bar config.fillTiming none) limit := rfl
    have capped : min (fillPriceFor rule .buy bar config.fillTiming none) limit ≤ limit :=
      min_le_right _ _
    rw [base]
    generalize min (fillPriceFor rule .buy bar config.fillTiming none) limit = taken at capped ⊢
    simp only [reduceCtorEq, false_implies, and_true, true_implies]
    constructor
    · intro kept
      by_contra outside
      have beyond := not_lt.mp outside
      by_cases priced : rule.priceTick ≤ taken * (1 + config.slippageBps / 10000)
      · exact outside ((rule.roundToTick_le_iff (tick.trans_le priced)).mp (kept priced))
      · -- the next tick would be below the first one, so the limit and the price are negative
        have negative : limit < 0 :=
          rule.neg_of_next_tick_lt (beyond.trans_lt (not_le.mp priced))
        have next : limit < (⌊limit / rule.priceTick⌋ + 1) * rule.priceTick := rule.lt_next_tick
        have slipped : taken * (config.slippageBps / 10000) ≤ 0 :=
          mul_nonpos_of_nonpos_of_nonneg (capped.trans negative.le) slip
        linarith
    · intro room priced
      exact (rule.roundToTick_le_iff (tick.trans_le priced)).mpr room
  | sell =>
    dsimp only
    have base : fillPriceFor rule .sell bar config.fillTiming (some limit) =
        max (fillPriceFor rule .sell bar config.fillTiming none) limit := rfl
    rw [base]
    generalize max (fillPriceFor rule .sell bar config.fillTiming none) limit = taken
    simp only [reduceCtorEq, false_implies, true_and, true_implies]
    constructor
    · intro kept
      rcases lt_or_ge (taken * (1 - config.slippageBps / 10000)) rule.priceTick with none_ | priced
      · exact Or.inl none_
      · exact Or.inr ((rule.le_roundToTick_iff (tick.trans_le priced)).mp (kept priced))
    · rintro (none_ | room) priced
      · exact absurd priced (not_le.mpr none_)
      · exact (rule.le_roundToTick_iff (tick.trans_le priced)).mpr room

/-- The fills of an order on a bar keep its terms exactly when a limit order the bar can fill has
room for the slippage at its limit. -/
theorem fillsRespect_iff (order : PendingOrder) (bar : Bar) (previousClose : Option ℚ)
    (rule : AssetRule) (config : SimulationMatchingConfig) :
    FillsRespect order bar previousClose rule config ↔
      (order.orderType = .limit → ∀ limit ∈ order.limitPrice,
        Fillable order bar previousClose rule config limit → LimitRoom order bar rule config limit) := by
  constructor
  · intro respect kind limit given fillable
    refine limitRoom_iff.mp fun positive => ?_
    obtain ⟨quantity, raw, cancelRemainder, filled⟩ : ∃ quantity raw cancelRemainder,
        matchOrder order bar previousClose rule config = .fill quantity raw _ cancelRemainder :=
      (limit_filled_iff kind given).mpr ⟨fillable, positive, rfl⟩
    exact (respect _ _ _ _ filled).limit kind limit given
  · intro room quantity raw price cancelRemainder filled
    obtain ⟨positive, within, whole⟩ := respects_but_limit filled
    refine ⟨positive, within, fun kind limit given => ?_, whole⟩
    obtain ⟨fillable, priced, rounded⟩ :=
      (limit_filled_iff kind given).mp ⟨quantity, raw, cancelRemainder, filled⟩
    rw [rounded] at priced ⊢
    exact limitRoom_iff.mpr (room kind limit given fillable) priced

end Limits

def limitedPurchase : PendingOrder where
  side := .buy
  orderType := .limit
  timeInForce := .gfd
  remainingQuantity := 1000
  limitPrice := some 10
  eligibleAfter := ⟨1, 0, 0⟩

def openingAtLimit : Bar where
  symbol := ⟨"600000", .aShare⟩
  timestamp := ⟨2, 0, 0⟩
  openPrice := 10
  high := 10.2
  low := 9.9
  close := 10.1
  volume := 100000

/-- With a slippage of twenty basis points it is filled at 10.02. -/
theorem fillsRespect_fails : ¬ FillsRespect limitedPurchase openingAtLimit (some 10) aShareStock
    { slippageBps := 20 } := by
  intro respect
  have filled : matchOrder limitedPurchase openingAtLimit (some 10) aShareStock
      { slippageBps := 20 } = .fill 1000 10 10.02 false := by decide +kernel
  have kept := ((respect _ _ _ _ filled).limit rfl 10 rfl).1 rfl
  norm_num at kept

end FinDashboard.Simulation
