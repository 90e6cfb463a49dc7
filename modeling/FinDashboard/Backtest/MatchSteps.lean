import FinDashboard.Backtest.Broker

/-!
# What a bar does with a pending order

Trying an order leaves it waiting, rejects it or books one trade; a trade takes a positive part
of what is open and, without short selling, no more than what may be sold. The loops over the
pending orders inherit their invariants from this.
-/

namespace FinDashboard.Backtest

open Ledger List Backtest Option
open Simulation (Bar Date)

variable {config : BrokerConfig} {today : Date} {st st' : State} {state state' : OrderState}
  {order : Order} {bar : Bar} {quantity desired available rawPrice : ℚ} {code : String}

/-- Nothing is executed of an order that is not open. -/
theorem remaining_pos_of_executed {requestedQty barVolume : ℚ} {maxParticipation : Option ℚ}
    (h : 0 < fillQuantityWithinParticipation requestedQty barVolume maxParticipation) :
    0 < requestedQty := by
  by_contra hnot
  have hzero : fillQuantityWithinParticipation requestedQty barVolume maxParticipation = 0 := by
    unfold fillQuantityWithinParticipation
    rw [if_pos (not_lt.mp hnot)]
  rw [hzero] at h
  exact lt_irrefl 0 h

theorem trade_of_liquidity (h : liquidity config state bar = .trade quantity) :
    0 < quantity ∧ quantity ≤ state.remaining := by
  have hopen : ∀ executed : ℚ, executed = fillQuantityWithinParticipation state.remaining bar.volume
      config.matchingModel.maxParticipation →
      ¬(if executed ≤ 0 then state.remaining else executed) ≤ 0 → 0 < state.remaining := by
    intro executed hexecuted hsome
    by_cases hnone : executed ≤ 0
    · rw [if_pos hnone] at hsome
      exact not_le.mp hsome
    · apply remaining_pos_of_executed
      rw [← hexecuted]
      exact not_le.mp hnone
  unfold liquidity at h
  simp only at h
  generalize hexecuted : fillQuantityWithinParticipation state.remaining bar.volume
    config.matchingModel.maxParticipation = executed at h hopen
  by_cases hwait : executed ≤ 0 ∧ config.matchingModel.allowPartialFill = false
  · rw [if_pos hwait] at h
    cases h
  rw [if_neg hwait] at h
  by_cases hsome : (if executed ≤ 0 then state.remaining else executed) ≤ 0
  · rw [if_pos hsome] at h
    cases h
  rw [if_neg hsome] at h
  have hrest := hopen executed rfl hsome
  generalize (if executed ≤ 0 then state.remaining else executed) = tried at h hsome
  cases hround : config.matchingModel.enforceLotRounding with
  | false =>
    simp only [hround, Bool.false_eq_true, if_false, false_and] at h
    injection h with hquantity
    rw [← hquantity]
    exact ⟨lt_min (not_le.mp hsome) hrest, min_le_right _ _⟩
  | true =>
    simp only [hround, if_true, true_and] at h
    split_ifs at h with hless
    injection h with hquantity
    have hlot := state.rule.lotSize_pos.trans_le (not_lt.mp hless)
    rw [← hquantity]
    exact ⟨lt_min hlot hrest, min_le_right _ _⟩

theorem trade_of_deliverable {rule : AssetRule} (hdesired : 0 < desired)
    (h : deliverable config rule code available desired = .trade quantity) :
    0 < quantity ∧ quantity ≤ desired ∧ (rule.allowShort = false → quantity ≤ available) := by
  unfold deliverable at h
  split_ifs at h with hover hnone hround hzero
  all_goals injection h with hquantity
  all_goals rw [← hquantity]
  · have hpos : 0 < available := not_le.mp hnone
    have hrounded := rule.roundToLot_le hpos.le
    exact ⟨not_le.mp hzero, hrounded.trans hover.1.le, fun _ => hrounded⟩
  · exact ⟨not_le.mp hnone, hover.1.le, fun _ => le_refl _⟩
  · refine ⟨hdesired, le_refl _, ?_⟩
    intro hshort
    by_contra hless
    exact hover ⟨not_le.mp hless, hshort⟩

/-- The totals and the lots of the positions are the same. -/
def SameBooks (positions positions' : Positions) : Prop :=
  ∀ code, (find code positions').map (fun position => (position.total, position.lots)) =
    (find code positions).map fun position => (position.total, position.lots)

namespace SameBooks

variable {positions positions' : Positions}

theorem refl (positions : Positions) : SameBooks positions positions := fun _ => rfl

theorem lotsOf_eq (h : SameBooks positions positions') (code : String) :
    lotsOf positions' code = lotsOf positions code := by
  have hbook := congrArg (Option.map Prod.snd) (h code)
  unfold lotsOf
  rw [Option.map_map, Option.map_map] at hbook
  exact congrArg (getD · []) hbook

theorem refreshPositions (positions : Positions) (day : Date) :
    SameBooks positions (refreshPositions positions day) := by
  intro code
  unfold Backtest.refreshPositions
  rw [find_map fun position : InternalPosition => position.refreshAvailable day, Option.map_map]
  rfl

theorem availableFor (positions : Positions) (code : String) (day : Date) :
    SameBooks positions (availableFor positions code day).1 := by
  intro other
  unfold Backtest.availableFor
  cases hfind : find code positions with
  | none => rfl
  | some position =>
    rw [find_assign]
    by_cases hcode : code = other
    · rw [if_pos hcode, ← hcode, hfind]
      rfl
    · rw [if_neg hcode]

end SameBooks

/-- What trying an order comes to. -/
inductive Tried (today : Date) (st : State) (state : OrderState) (order : Order) :
    State × OrderState → Prop
  | waits {positions : Positions} (hbooks : SameBooks st.positions positions) :
      Tried today st state order ({ st with positions }, state)
  | rejects {positions : Positions} (hbooks : SameBooks st.positions positions)
      (reason : RejectReason) (message : List MessagePart) :
      Tried today st state order
        (State.reject { st with positions } state.order order reason message, state)
  | trades {positions : Positions} (hbooks : SameBooks st.positions positions) (e : Execution)
      (hquantity : 0 < e.quantity)
      (hsale : order.side = .sell → state.rule.allowShort = false →
        e.quantity ≤ Simulation.matured (lotsOf st.positions order.symbol.code) today)
      (htax : order.side = .buy → e.tax = 0) :
      Tried today st state order (bookFill today { st with positions } state order e)

variable {e : Execution}

theorem settleFill_tried {positions : Positions} (hbooks : SameBooks st.positions positions)
    (hquantity : 0 < e.quantity) (hsale : order.side = .sell → state.rule.allowShort = false →
      e.quantity ≤ Simulation.matured (lotsOf st.positions order.symbol.code) today)
    (htax : order.side = .buy → e.tax = 0) :
    Tried today st state order (settleFill today { st with positions } state order e) := by
  unfold settleFill
  split_ifs with hcash
  · exact .rejects hbooks _ _
  · exact .trades hbooks e hquantity hsale htax

theorem executeFill_tried (config : BrokerConfig) (today : Date) (st : State) (state : OrderState)
    (order : Order) (bar : Bar) (rawPrice : ℚ) :
    Tried today st state order (executeFill config today st state order bar rawPrice) := by
  have hsame : SameBooks st.positions st.positions := .refl _
  unfold executeFill
  cases hliquidity : liquidity config state bar with
  | wait => exact .waits hsame
  | reject reason message => exact .rejects hsame reason message
  | trade desired =>
    have hdesired := (trade_of_liquidity hliquidity).1
    cases hside : order.side with
    | buy =>
      apply settleFill_tried hsame hdesired
      · rw [hside]
        intro hsell
        cases hsell
      · exact fun _ => rfl
    | sell =>
      have hbooks : SameBooks st.positions (availableFor st.positions order.symbol.code today).1 :=
        .availableFor _ _ _
      simp only
      cases hdeliver : deliverable config state.rule order.symbol.code
          (availableFor st.positions order.symbol.code today).2 desired with
      | wait => exact .waits hbooks
      | reject reason message => exact .rejects hbooks reason message
      | trade quantity =>
        obtain ⟨hquantity, -, havailable⟩ := trade_of_deliverable hdesired hdeliver
        apply settleFill_tried hbooks hquantity
        · intro _ hshort
          rw [← availableFor_eq]
          exact havailable hshort
        · rw [hside]
          intro hbuy
          cases hbuy

theorem tryFillMarket_tried (config : BrokerConfig) (today : Date) (st : State) (state : OrderState)
    (order : Order) (bar : Bar) :
    Tried today st state order (tryFillMarket config today st state order bar) := by
  have hsame : SameBooks st.positions st.positions := .refl _
  unfold tryFillMarket
  split_ifs
  · exact .rejects hsame _ _
  · exact .rejects hsame _ _
  · exact executeFill_tried config today st state order bar _

theorem tryFillLimit_tried (config : BrokerConfig) (today : Date) (st : State) (state : OrderState)
    (order : Order) (bar : Bar) :
    Tried today st state order (tryFillLimit config today st state order bar) := by
  have hsame : SameBooks st.positions st.positions := .refl _
  unfold tryFillLimit
  cases order.price with
  | none => exact .rejects hsame _ _
  | some limitPrice =>
    simp only
    split_ifs
    · exact .rejects hsame _ _
    · exact .rejects hsame _ _
    · exact executeFill_tried config today st state order bar _
    · exact .waits hsame

namespace Tried

variable {result : State × OrderState}

theorem order_eq (h : Tried today st state order result) : result.2.order = state.order := by
  cases h <;> rfl

/-- The dictionaries and the day are written by the loops and the calls only. -/
theorem pending_eq (h : Tried today st state order result) :
    result.1.pendingOrders = st.pendingOrders ∧ result.1.pendingLimit = st.pendingLimit ∧
      result.1.currentDate = st.currentDate := by
  cases h <;> exact ⟨rfl, rfl, rfl⟩

theorem length_eq (h : Tried today st state order result) :
    result.1.orders.length = st.orders.length := by
  cases h with
  | waits => rfl
  | rejects => exact length_set
  | trades => exact length_set

theorem orders_ne (h : Tried today st state order result) {place : ℕ} (hne : state.order ≠ place) :
    result.1.orders[place]? = st.orders[place]? := by
  cases h with
  | waits => rfl
  | rejects => exact List.getElem?_set_ne hne
  | trades => exact List.getElem?_set_ne hne

theorem orders_eq (h : Tried today st state order result)
    (hlisted : st.orders[state.order]? = some order) :
    ∃ order', result.1.orders[state.order]? = some order' ∧
      order'.clientOrderId = order.clientOrderId ∧ order'.symbol = order.symbol ∧
      order'.brokerOrderId = order.brokerOrderId ∧
      (order'.status = order.status ∨ order'.status ∈ [.rejected, .partiallyFilled, .filled]) := by
  obtain ⟨hlt, -⟩ := List.getElem?_eq_some_iff.mp hlisted
  cases h with
  | waits => exact ⟨order, hlisted, rfl, rfl, rfl, Or.inl rfl⟩
  | rejects hbooks reason message =>
    refine ⟨order.rejected reason message, List.getElem?_set_self hlt, rfl, rfl, rfl, Or.inr ?_⟩
    simp [Order.rejected]
  | trades hbooks e =>
    refine ⟨order.filled state.remaining e, List.getElem?_set_self hlt, rfl, rfl, rfl, Or.inr ?_⟩
    unfold Order.filled
    split_ifs <;> simp

end Tried

def marketPrice (config : BrokerConfig) (st : State) (state : OrderState) (order : Order) (bar : Bar) :
    Option ℚ :=
  if isSuspended config st bar || isAtLimitBlocked config st order.side bar state.rule then none
  else some (Simulation.fillPriceFor state.rule.toAssetRule order.side bar
    config.matchingModel.fillTiming none)

def limitPrice (config : BrokerConfig) (st : State) (state : OrderState) (order : Order) (bar : Bar) :
    Option ℚ :=
  order.price.bind fun price =>
    if isSuspended config st bar || isAtLimitBlocked config st order.side bar state.rule ||
        !limitReached config order.side bar price then none
    else some (Simulation.fillPriceFor state.rule.toAssetRule order.side bar
      config.matchingModel.fillTiming (some price))

/-- The execution an order tried at a price comes to, before the check of the cash. -/
def executionAt (config : BrokerConfig) (today : Date) (st : State) (state : OrderState)
    (order : Order) (bar : Bar) (rawPrice : ℚ) : Option Execution :=
  match liquidity config state bar with
  | .trade desired =>
      match order.side with
      | .buy => some (executionOf state .buy desired rawPrice)
      | .sell =>
          match deliverable config state.rule order.symbol.code
              (availableFor st.positions order.symbol.code today).2 desired with
          | .trade quantity => some (executionOf state .sell quantity rawPrice)
          | _ => none
  | _ => none

def executionOn (price : State → OrderState → Order → Bar → Option ℚ) (config : BrokerConfig)
    (today : Date) (bar : Bar) (st : State) (state : OrderState) (order : Order) : Option Execution :=
  (price st state order bar).bind (executionAt config today st state order bar)

/-- The cash covers a purchase, unless the rule allows short selling. -/
def Funded (st : State) (state : OrderState) (order : Order) (e : Execution) : Prop :=
  order.side = .buy → state.rule.allowShort = false → e.needed ≤ st.cash

instance (st : State) (state : OrderState) (order : Order) (e : Execution) :
    Decidable (Funded st state order e) :=
  inferInstanceAs (Decidable (_ → _ → _))

/-- What trying an order comes to, with the execution it was to be. -/
inductive Executed (today : Date) (st : State) (state : OrderState) (order : Order)
    (execution : Option Execution) : State × OrderState → Prop
  | waits {positions : Positions} : Executed today st state order execution ({ st with positions }, state)
  | rejects {positions : Positions} (reason : RejectReason) (message : List MessagePart) :
      Executed today st state order execution
        (State.reject { st with positions } state.order order reason message, state)
  | trades {positions : Positions} {e : Execution} (found : execution = some e)
      (funded : Funded st state order e) :
      Executed today st state order execution (bookFill today { st with positions } state order e)

theorem settleFill_executed {positions : Positions} {execution : Option Execution}
    (found : execution = some e) :
    Executed today st state order execution (settleFill today { st with positions } state order e) := by
  unfold settleFill
  split_ifs with short
  · exact .rejects _ _
  · apply Executed.trades found
    intro purchase forbidden
    exact not_lt.mp fun less => short ⟨purchase, less, forbidden⟩

theorem executeFill_executed (config : BrokerConfig) (today : Date) (st : State) (state : OrderState)
    (order : Order) (bar : Bar) (rawPrice : ℚ) :
    Executed today st state order (executionAt config today st state order bar rawPrice)
      (executeFill config today st state order bar rawPrice) := by
  unfold executeFill executionAt
  cases liquidity config state bar with
  | wait => exact .waits
  | reject reason message => exact .rejects reason message
  | trade desired =>
    cases order.side with
    | buy => exact settleFill_executed rfl
    | sell =>
      dsimp only
      cases deliverable config state.rule order.symbol.code
          (availableFor st.positions order.symbol.code today).2 desired with
      | wait => exact .waits
      | reject reason message => exact .rejects reason message
      | trade quantity => exact settleFill_executed rfl

theorem tryFillMarket_executed (config : BrokerConfig) (today : Date) (bar : Bar) (st : State)
    (state : OrderState) (order : Order) :
    Executed today st state order (executionOn (marketPrice config) config today bar st state order)
      (tryFillMarket config today st state order bar) := by
  unfold tryFillMarket executionOn marketPrice
  by_cases suspended : isSuspended config st bar = true
  · rw [if_pos suspended]
    exact .rejects _ _
  · by_cases blocked : isAtLimitBlocked config st order.side bar state.rule = true
    · rw [if_neg suspended, if_pos blocked]
      exact .rejects _ _
    · simp only [suspended, blocked, Bool.or_self, Bool.false_eq_true, if_false, bind_some]
      exact executeFill_executed config today st state order bar _

theorem tryFillLimit_executed (config : BrokerConfig) (today : Date) (bar : Bar) (st : State)
    (state : OrderState) (order : Order) :
    Executed today st state order (executionOn (limitPrice config) config today bar st state order)
      (tryFillLimit config today st state order bar) := by
  unfold tryFillLimit executionOn limitPrice
  cases order.price with
  | none => exact .rejects _ _
  | some price =>
    dsimp only
    by_cases suspended : isSuspended config st bar = true
    · rw [if_pos suspended]
      exact .rejects _ _
    · by_cases blocked : isAtLimitBlocked config st order.side bar state.rule = true
      · rw [if_neg suspended, if_pos blocked]
        exact .rejects _ _
      · by_cases reached : limitReached config order.side bar price = true
        · simp only [suspended, blocked, reached, Bool.or_self, Bool.not_true, Bool.false_eq_true,
            if_true, if_false, bind_some]
          exact executeFill_executed config today st state order bar _
        · rw [if_neg suspended, if_neg blocked, if_neg reached]
          exact .waits

/-- An execution takes a positive part of what the bar and the order leave. -/
theorem executionAt_spec (found : executionAt config today st state order bar rawPrice = some e) :
    ∃ desired, liquidity config state bar = .trade desired ∧ 0 < e.quantity ∧ e.quantity ≤ desired ∧
      e = executionOf state order.side e.quantity rawPrice := by
  unfold executionAt at found
  cases offered : liquidity config state bar with
  | wait =>
    rw [offered] at found
    cases found
  | reject reason message =>
    rw [offered] at found
    cases found
  | trade desired =>
    have positive := (trade_of_liquidity offered).1
    rw [offered] at found
    cases side : order.side with
    | buy =>
      simp only [side] at found
      obtain rfl := some.inj found
      exact ⟨desired, rfl, positive, le_refl _, rfl⟩
    | sell =>
      simp only [side] at found
      cases delivered : deliverable config state.rule order.symbol.code
          (availableFor st.positions order.symbol.code today).2 desired with
      | wait =>
        rw [delivered] at found
        cases found
      | reject reason message =>
        rw [delivered] at found
        cases found
      | trade quantity =>
        rw [delivered] at found
        obtain rfl := some.inj found
        obtain ⟨quantity_pos, cut, -⟩ := trade_of_deliverable positive delivered
        exact ⟨desired, rfl, quantity_pos, cut, rfl⟩

theorem executionOn_spec {price : State → OrderState → Order → Bar → Option ℚ}
    (found : executionOn price config today bar st state order = some e) :
    ∃ rawPrice desired, price st state order bar = some rawPrice ∧
      liquidity config state bar = .trade desired ∧ 0 < e.quantity ∧ e.quantity ≤ desired ∧
      e = executionOf state order.side e.quantity rawPrice := by
  obtain ⟨rawPrice, tried, found⟩ := bind_eq_some_iff.mp found
  obtain ⟨desired, offered⟩ := executionAt_spec found
  exact ⟨rawPrice, desired, tried, offered⟩

/-- A pending order of which something is known together with its object. -/
def Holds (B : Order → OrderState → Prop) (st : State) (state : OrderState) : Prop :=
  ∃ order, st.orders[state.order]? = some order ∧ B order state

def places (entries : Pending) : List ℕ := entries.map fun entry => entry.2.order

section Loops

variable {tryFill : TryFill} {P : State → Prop} {before after : Order → OrderState → Prop}
  {entries : Pending}

/-- What carries an invariant through a loop: an order that is passed over, and one that is tried. -/
structure TurnRule (config : BrokerConfig) (today : Date) (bar : Bar) (P : State → Prop)
    (before after : Order → OrderState → Prop) : Prop where
  passes : ∀ order state, before order state → after order state
  turn : ∀ st state order result, P st → before order state →
    st.orders[state.order]? = some order → passedOver config today state order bar = false →
    Tried today st state order result → P result.1 ∧
      ∀ order', result.1.orders[state.order]? = some order' → order'.status.isTerminal = false →
        after order' result.2

/-- The rule for one of the loops, whose turns may have to meet a condition. -/
structure LoopRule (tryFill : TryFill) (meets : State → OrderState → Order → Prop)
    (config : BrokerConfig) (today : Date) (bar : Bar) (P : State → Prop)
    (before after : Order → OrderState → Prop) : Prop where
  passes : ∀ order state, before order state → after order state
  tries : ∀ st state order, Tried today st state order (tryFill st state order bar)
  turn : ∀ st state order, P st → before order state → st.orders[state.order]? = some order →
    passedOver config today state order bar = false → meets st state order →
    P (tryFill st state order bar).1 ∧
      ∀ order', (tryFill st state order bar).1.orders[state.order]? = some order' →
        order'.status.isTerminal = false → after order' (tryFill st state order bar).2

/-- A turn that is not passed over meets a condition, in the state in which it is reached. -/
def TurnMeets (meets : State → OrderState → Order → Prop) (config : BrokerConfig) (today : Date)
    (bar : Bar) (st : State) (state : OrderState) : Prop :=
  ∀ order ∈ st.orders[state.order]?, passedOver config today state order bar = false →
    meets st state order

/-- Every turn of a loop meets a condition. -/
def TurnsMeet (tryFill : TryFill) (meets : State → OrderState → Order → Prop)
    (config : BrokerConfig) (today : Date) (bar : Bar) : Pending → State → Prop
  | [], _ => True
  | entry :: rest, st =>
      TurnMeets meets config today bar st entry.2 ∧
        TurnsMeet tryFill meets config today bar rest
          (matchEntry tryFill config today bar st entry.2).1

instance decidableTurnsMeet {meets : State → OrderState → Order → Prop}
    [∀ st state order, Decidable (meets st state order)] : ∀ (entries : Pending) (st : State),
    Decidable (TurnsMeet tryFill meets config today bar entries st)
  | [], _ => inferInstanceAs (Decidable True)
  | entry :: rest, st =>
      have first := inferInstanceAs (Decidable (∀ order ∈ st.orders[entry.2.order]?, _))
      have later : Decidable (TurnsMeet tryFill meets config today bar rest
          (matchEntry tryFill config today bar st entry.2).1) := decidableTurnsMeet rest _
      @instDecidableAnd _ _ first later

theorem TurnRule.loopRule (hrule : TurnRule config today bar P before after)
    (htries : ∀ st state order, Tried today st state order (tryFill st state order bar)) :
    LoopRule tryFill (fun _ _ _ => True) config today bar P before after where
  passes := hrule.passes
  tries := htries
  turn st state order hP hbefore hlisted hpass _ :=
    hrule.turn st state order _ hP hbefore hlisted hpass (htries st state order)

theorem turnsMeet_trivial (entries : Pending) (st : State) :
    TurnsMeet tryFill (fun _ _ _ => True) config today bar entries st := by
  induction entries generalizing st with
  | nil => trivial
  | cons entry rest ih => exact ⟨fun _ _ _ => trivial, ih _⟩

section Meeting

variable {meets : State → OrderState → Order → Prop}

theorem LoopRule.matchEntry (hrule : LoopRule tryFill meets config today bar P before after)
    (hP : P st) (hstate : Holds before st state) (hmeets : TurnMeets meets config today bar st state) :
    P (Backtest.matchEntry tryFill config today bar st state).1 ∧
      (∀ kept ∈ (Backtest.matchEntry tryFill config today bar st state).2, kept.order = state.order ∧
        Holds after (Backtest.matchEntry tryFill config today bar st state).1 kept) ∧
      ∀ place, state.order ≠ place →
        (Backtest.matchEntry tryFill config today bar st state).1.orders[place]? = st.orders[place]? := by
  obtain ⟨order, hlisted, hbefore⟩ := hstate
  unfold Backtest.matchEntry
  simp only [hlisted]
  cases hpass : passedOver config today state order bar with
  | true =>
    rw [if_pos rfl]
    refine ⟨hP, ?_, fun _ _ => rfl⟩
    intro kept hkept
    obtain rfl := some.inj hkept
    exact ⟨rfl, order, hlisted, hrule.passes order state hbefore⟩
  | false =>
    have htried := hrule.tries st state order
    obtain ⟨hP', hafter⟩ := hrule.turn st state order hP hbefore hlisted hpass
      (hmeets order hlisted hpass)
    obtain ⟨order', horder', -⟩ := htried.orders_eq hlisted
    rw [if_neg Bool.false_ne_true]
    generalize tryFill st state order bar = result at htried hP' hafter horder'
    by_cases hdone : (result.1.orders[state.order]?).any (·.status.isTerminal) = true ∨
        result.2.remaining ≤ 0
    · simp only [if_pos hdone]
      refine ⟨hP', ?_, fun place hne => htried.orders_ne hne⟩
      intro kept hkept
      cases hkept
    · simp only [if_neg hdone]
      refine ⟨hP', ?_, fun place hne => htried.orders_ne hne⟩
      intro kept hkept
      obtain rfl := some.inj hkept
      rw [horder'] at hdone
      have hactive := Bool.eq_false_iff.mpr fun hterminal => hdone (Or.inl hterminal)
      refine ⟨htried.order_eq, order', ?_, hafter order' horder' hactive⟩
      rw [htried.order_eq]
      exact horder'

/-- An order whose object the step does not write. -/
theorem Holds.of_orders_eq {B : Order → OrderState → Prop} (h : Holds B st state)
    (hsame : st'.orders[state.order]? = st.orders[state.order]?) : Holds B st' state := by
  obtain ⟨order, hlisted, hB⟩ := h
  exact ⟨order, hsame.trans hlisted, hB⟩

/-- The loop inherits the turn: by induction on the entries, which share no object. -/
theorem LoopRule.matchEntries (hrule : LoopRule tryFill meets config today bar P before after)
    (hP : P st) (hentries : ∀ entry ∈ entries, Holds before st entry.2)
    (hdistinct : (places entries).Nodup) (hmeets : TurnsMeet tryFill meets config today bar entries st) :
    P (matchEntries tryFill config today bar entries st).1 ∧
      (∀ entry ∈ (matchEntries tryFill config today bar entries st).2,
        Holds after (matchEntries tryFill config today bar entries st).1 entry.2) ∧
      (places (matchEntries tryFill config today bar entries st).2).Sublist (places entries) ∧
      ∀ place, place ∉ places entries →
        (matchEntries tryFill config today bar entries st).1.orders[place]? = st.orders[place]? := by
  induction entries generalizing st with
  | nil =>
    refine ⟨hP, ?_, List.Sublist.refl _, fun _ _ => rfl⟩
    intro entry hentry
    cases hentry
  | cons entry rest ih =>
    obtain ⟨hfresh, hrest⟩ := nodup_cons.mp hdistinct
    obtain ⟨hP₁, hkept, hsame₁⟩ :=
      hrule.matchEntry hP (hentries entry mem_cons_self) hmeets.1
    have hothers : ∀ later ∈ rest,
        Holds before (Backtest.matchEntry tryFill config today bar st entry.2).1 later.2 := by
      intro later hlater
      apply (hentries later (mem_cons_of_mem _ hlater)).of_orders_eq
      apply hsame₁
      intro hplace
      exact hfresh (mem_map.mpr ⟨later, hlater, hplace.symm⟩)
    obtain ⟨hP₂, hafter, hsub, hsame₂⟩ := ih hP₁ hothers hrest hmeets.2
    have hsame : ∀ place, place ∉ places (entry :: rest) → (matchEntries tryFill config today bar rest
        (Backtest.matchEntry tryFill config today bar st entry.2).1).1.orders[place]? = st.orders[place]? := by
      intro place hplace
      have hnot := not_or.mp (mt mem_cons.mpr hplace)
      exact (hsame₂ place hnot.2).trans (hsame₁ place fun heq => hnot.1 heq.symm)
    unfold matchEntries
    simp only
    cases hkeep : (Backtest.matchEntry tryFill config today bar st entry.2).2 with
    | none => exact ⟨hP₂, hafter, hsub.cons _, hsame⟩
    | some kept =>
      obtain ⟨hplace, hholds⟩ := hkept kept hkeep
      refine ⟨hP₂, ?_, ?_, hsame⟩
      · intro other hother
        obtain rfl | hlater := mem_cons.mp hother
        · apply hholds.of_orders_eq
          apply hsame₂
          rw [hplace]
          exact hfresh
        · exact hafter other hlater
      · have hcons : places ((entry.1, kept) :: (matchEntries tryFill config today bar rest
            (Backtest.matchEntry tryFill config today bar st entry.2).1).2) =
            entry.2.order :: places (matchEntries tryFill config today bar rest
              (Backtest.matchEntry tryFill config today bar st entry.2).1).2 := by
          rw [← hplace]
          rfl
        rw [hcons]
        exact hsub.cons_cons _

end Meeting

end Loops

end FinDashboard.Backtest
