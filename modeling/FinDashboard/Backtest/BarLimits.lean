import FinDashboard.Backtest.LedgerConservation

/-!
# Limits of a bar

What an order may execute on a bar, and what the cash may come to. A bar that has nothing for an order
is no limit where partial fills are allowed, and a sale is charged whatever it brings in.
-/

namespace FinDashboard.Backtest

open Ledger
open Simulation (Bar Date)

variable {config : BrokerConfig} {today : Date} {st : State} {state : OrderState} {order : Order}
  {bar : Bar} {rate quantity : ℚ} {actions : List Action}

theorem fillQuantityWithinParticipation_le {requested volume : ℚ} (nonneg : 0 ≤ rate)
    (opened : 0 < requested) :
    fillQuantityWithinParticipation requested volume (some rate) ≤ rate * volume := by
  have cap : min requested (rate * volume) ≤ rate * volume := min_le_right _ _
  unfold fillQuantityWithinParticipation
  rw [if_neg (not_le.mpr opened)]
  simp only [nonneg, if_true]
  split_ifs
  · exact (min_le_left _ _).trans cap
  · exact cap

theorem fillQuantityWithinParticipation_pos {requested volume : ℚ} (served : 0 < rate * volume)
    (nonneg : 0 ≤ rate) (opened : 0 < requested) :
    0 < fillQuantityWithinParticipation requested volume (some rate) := by
  have traded : 0 < volume := by
    by_contra none
    exact absurd served (not_lt.mpr (mul_nonpos_of_nonneg_of_nonpos nonneg (not_lt.mp none)))
  unfold fillQuantityWithinParticipation
  rw [if_neg (not_le.mpr opened)]
  simp only [nonneg, traded, if_true]
  exact lt_min (lt_min opened served) traded

/-- The bar serves orders, or is not tried for what it has nothing for. -/
def Served (config : BrokerConfig) (rate : ℚ) (bar : Bar) : Prop :=
  0 < rate * bar.volume ∨ config.matchingModel.allowPartialFill = false

theorem liquidity_within (limited : config.matchingModel.maxParticipation = some rate)
    (nonneg : 0 ≤ rate) (served : Served config rate bar)
    (offered : liquidity config state bar = .trade quantity) : quantity ≤ rate * bar.volume := by
  have opened := (trade_of_liquidity offered).1.trans_le
    (trade_of_liquidity offered).2
  have cap : fillQuantityWithinParticipation state.remaining bar.volume (some rate) ≤
      rate * bar.volume := fillQuantityWithinParticipation_le nonneg opened
  unfold liquidity at offered
  simp only [limited] at offered
  have some_executed : 0 < fillQuantityWithinParticipation state.remaining bar.volume (some rate) := by
    by_contra none
    have nothing := not_lt.mp none
    rcases served with share | whole
    · exact none (fillQuantityWithinParticipation_pos share nonneg opened)
    · rw [if_pos ⟨nothing, whole⟩] at offered
      cases offered
  rw [if_neg fun wait => absurd wait.1 (not_le.mpr some_executed)] at offered
  simp only [not_le.mpr some_executed, if_false] at offered
  split_ifs at offered
  all_goals
    injection offered with taken
    rw [← taken]
  · exact (min_le_left _ _).trans ((state.rule.roundToLot_le some_executed.le).trans cap)
  · exact (min_le_left _ _).trans cap

/-- The orders have executed no more than a cap since the start of the bar, which keeps its closes. -/
structure Participated (cap : ℚ) (start st : State) : Prop where
  previousCloses : st.previousCloses = start.previousCloses
  executed : ∀ (place : ℕ) (order₀ order : Order), start.orders[place]? = some order₀ →
    st.orders[place]? = some order → order.filledQuantity - order₀.filledQuantity ≤ cap

/-- An order that has not had its turn yet. -/
def NotYetTried (start : State) (order : Order) (state : OrderState) : Prop :=
  start.orders[state.order]? = some order

/-- Rewriting the object of an order by at most the cap. -/
theorem Participated.setOrder {cap : ℚ} {start : State} (participated : Participated cap start st)
    (st' : State) (order' : Order) (untried : NotYetTried start order state)
    (closes : st'.previousCloses = st.previousCloses)
    (orders : st'.orders = st.orders.set state.order order')
    (taken : order'.filledQuantity - order.filledQuantity ≤ cap) : Participated cap start st' := by
  refine ⟨closes.trans participated.previousCloses, ?_⟩
  intro place order₀ found before after
  rw [orders, List.getElem?_set] at after
  split_ifs at after with same listed
  · subst same
    cases untried.symm.trans before
    cases after
    exact taken
  · exact participated.executed place order₀ found before after

/-- A price at which nothing is tried while the trade is suspended. -/
def Suspends (config : BrokerConfig) (price : State → OrderState → Order → Bar → Option ℚ) : Prop :=
  ∀ st state order bar, isSuspended config st bar = true → price st state order bar = none

theorem suspends_marketPrice (config : BrokerConfig) : Suspends config (marketPrice config) := by
  intro st state order bar suspended
  simp [marketPrice, suspended]

theorem suspends_limitPrice (config : BrokerConfig) : Suspends config (limitPrice config) := by
  intro st state order bar suspended
  simp [limitPrice, suspended]

theorem participated_loop (today : Date) {tryFill : TryFill}
    {price : State → OrderState → Order → Bar → Option ℚ} {start : State}
    (limited : config.matchingModel.maxParticipation = some rate) (nonneg : 0 ≤ rate)
    (volume : 0 ≤ bar.volume) (served : Served config rate bar ∨ isSuspended config start bar = true)
    (suspends : Suspends config price)
    (tries : ∀ st state order, Tried today st state order (tryFill st state order bar))
    (executes : ∀ st state order, Executed today st state order
      (executionOn price config today bar st state order) (tryFill st state order bar)) :
    LoopRule tryFill (fun _ _ _ => True) config today bar (Participated (rate * bar.volume) start)
      (NotYetTried start) (fun _ _ => True) where
  passes _ _ _ := trivial
  tries := tries
  turn := by
    intro st state order participated untried listed _ _
    have cap := mul_nonneg nonneg volume
    have executed := executes st state order
    generalize tryFill st state order bar = result at executed
    refine ⟨?_, fun _ _ _ => trivial⟩
    cases executed with
    | waits => exact ⟨participated.previousCloses, participated.executed⟩
    | rejects reason message =>
      refine participated.setOrder _ (order.rejected reason message) untried rfl rfl ?_
      simpa [Order.rejected] using cap
    | @trades positions e found funded =>
      obtain ⟨rawPrice, desired, tried, offered, -, taken, -⟩ := executionOn_spec found
      have within : Served config rate bar := by
        rcases served with served | suspended
        · exact served
        · have nothing : price st state order bar = none := by
            apply suspends
            unfold isSuspended at suspended ⊢
            rw [participated.previousCloses]
            exact suspended
          rw [nothing] at tried
          cases tried
      refine participated.setOrder _ (order.filled state.remaining e) untried rfl rfl ?_
      have quantity := taken.trans (liquidity_within limited nonneg within offered)
      simpa [Order.filled] using quantity

/-- On a bar that serves orders, or on which the trade is suspended, no order executes more than the
participation limit. -/
theorem participation_within (config : BrokerConfig) {rate : ℚ}
    (limited : config.matchingModel.maxParticipation = some rate) (nonneg : 0 ≤ rate)
    (actions : List Action) (bar : Bar) (volume : 0 ≤ bar.volume)
    (served : Served config rate bar ∨ isSuspended config ((run config actions).advance bar) bar = true) :
    ∀ (place : ℕ) (order order' : Order), (run config actions).orders[place]? = some order →
      (run config (actions ++ [.onNewBar bar])).orders[place]? = some order' →
      order'.filledQuantity - order.filledQuantity ≤ rate * bar.volume := by
  have initial : Participated (rate * bar.volume) ((run config actions).advance bar)
      ((run config actions).advance bar) := by
    refine ⟨rfl, ?_⟩
    intro place order₀ order before after
    cases before.symm.trans after
    simpa using mul_nonneg nonneg volume
  have waiting : Waiting (NotYetTried ((run config actions).advance bar))
      ((run config actions).advance bar) := by
    have pending := run_waiting config actions
    refine ⟨?_, pending.distinct⟩
    intro entry member
    obtain ⟨order, listed, -⟩ := pending.listed entry member
    exact ⟨order, listed, listed⟩
  have market := participated_loop bar.timestamp.date limited nonneg volume served
    (suspends_marketPrice config) (tryFillMarket_tried config _ · · · bar)
    (tryFillMarket_executed config _ bar)
  have limit := participated_loop bar.timestamp.date limited nonneg volume served
    (suspends_limitPrice config) (tryFillLimit_tried config _ · · · bar)
    (tryFillLimit_executed config _ bar)
  intro place order order' before after
  rw [run_append] at after
  have participated := (matchPendingOrders_meeting market limit
    (fun _ _ _ kept => ⟨kept.previousCloses, kept.executed⟩) initial
    (waiting.imp fun _ _ untried => untried) ⟨turnsMeet_trivial _ _, turnsMeet_trivial _ _⟩).1
  exact participated.executed place order order' before after

def tenthConfig : BrokerConfig where
  initialCapital := 1000000
  matchingModel := { maxParticipation := some (1 / 10) }
  resolver := defaultResolver

/-- A purchase that waits for the next bar. -/
def waitingPurchase : List Action :=
  [.onNewBar (shareBar 1), .submitOrder "1" ⟨"600000", .aShare⟩ .buy 20000 .market none]

/-- Half of the order is executed. -/
theorem participation_within_tenth :
    (run tenthConfig (waitingPurchase ++ [.onNewBar (shareBar 2)])).orders.map Order.filledQuantity =
        [10000] ∧
      ∀ (place : ℕ) (order order' : Order), (run tenthConfig waitingPurchase).orders[place]? = some order →
        (run tenthConfig (waitingPurchase ++ [.onNewBar (shareBar 2)])).orders[place]? = some order' →
        order'.filledQuantity - order.filledQuantity ≤ 1 / 10 * (shareBar 2).volume :=
  ⟨by decide +kernel, participation_within tenthConfig rfl (by norm_num) waitingPurchase (shareBar 2)
    (by decide +kernel) (Or.inl (Or.inl (by decide +kernel)))⟩

/-- On a bar without volume the whole order is executed. -/
theorem participation_exceeded_without_volume : ¬ ∀ (config : BrokerConfig) (rate : ℚ),
    config.matchingModel.maxParticipation = some rate → 0 ≤ rate →
    ∀ (actions : List Action) (bar : Bar), 0 ≤ bar.volume →
    ∀ (place : ℕ) (order order' : Order), (run config actions).orders[place]? = some order →
      (run config (actions ++ [.onNewBar bar])).orders[place]? = some order' →
      order'.filledQuantity - order.filledQuantity ≤ rate * bar.volume := by
  intro within
  have exceeded := within tenthConfig (1 / 10) rfl (by norm_num) waitingPurchase
    { shareBar 2 with volume := 0 } (le_refl _) 0
    ((run tenthConfig waitingPurchase).orders[0]?.get (by decide +kernel))
    ((run tenthConfig (waitingPurchase ++ [.onNewBar { shareBar 2 with volume := 0 }])).orders[0]?.get
      (by decide +kernel)) (by simp) (by simp)
  revert exceeded
  decide +kernel

/-- The charges of a sale are at most what it brings in and the cash. -/
def SaleCovered (execution : State → OrderState → Order → Option Execution) (st : State)
    (state : OrderState) (order : Order) : Prop :=
  order.side = .sell → ∀ e ∈ execution st state order, e.fees ≤ e.turnover + st.cash

instance {execution : State → OrderState → Order → Option Execution} (st : State) (state : OrderState)
    (order : Order) : Decidable (SaleCovered execution st state order) :=
  inferInstanceAs (Decidable (_ → ∀ e ∈ execution st state order, _))

/-- Every sale of a bar is covered, in the state in which it is reached. -/
def SalesCovered (config : BrokerConfig) (st : State) (bar : Bar) : Prop :=
  BarMeets (SaleCovered (executionOn (marketPrice config) config bar.timestamp.date bar))
    (SaleCovered (executionOn (limitPrice config) config bar.timestamp.date bar)) config
    bar.timestamp.date bar (st.advance bar)

instance (config : BrokerConfig) (st : State) (bar : Bar) : Decidable (SalesCovered config st bar) :=
  inferInstanceAs (Decidable (BarMeets _ _ _ _ _ _))

theorem Executed.nonneg_cash {execution : State → OrderState → Order → Option Execution}
    {result : State × OrderState} (forbids : config.ForbidsShort) (pended : Pended config order state)
    (covered : SaleCovered execution st state order) (nonneg : 0 ≤ st.cash)
    (executed : Executed today st state order (execution st state order) result) : 0 ≤ result.1.cash := by
  cases executed with
  | waits => exact nonneg
  | rejects => exact nonneg
  | @trades positions e found funded =>
    obtain ⟨-, slippageBps, resolved⟩ := pended
    simp only [bookFill, State.setOrder, State.pushEvent]
    cases side : order.side with
    | buy =>
      have needed := funded side (forbids _ _ _ resolved)
      exact sub_nonneg.mpr needed
    | sell =>
      have charged := covered side e found
      simp only [Execution.received]
      linarith

theorem cash_loop {tryFill : TryFill} {execution : State → OrderState → Order → Option Execution}
    (forbids : config.ForbidsShort)
    (tries : ∀ st state order, Tried today st state order (tryFill st state order bar))
    (executes : ∀ st state order, Executed today st state order (execution st state order)
      (tryFill st state order bar)) :
    LoopRule tryFill (SaleCovered execution) config today bar (fun st => 0 ≤ st.cash) (Pended config)
      (Pended config) where
  passes _ _ pended := pended
  tries := tries
  turn st state order nonneg pended listed _ covered :=
    ⟨(executes st state order).nonneg_cash forbids pended covered nonneg,
      fun _ found opened => (tries st state order).pended listed pended found opened⟩

/-- Without short selling the cash is never negative, in every run in which every sale is covered. -/
theorem paper_cash_nonneg (config : BrokerConfig) (forbids : config.ForbidsShort)
    (capital : 0 ≤ config.initialCapital) (actions : List Action)
    (covered : EveryBar (SalesCovered config) config actions (State.initial config)) :
    0 ≤ (run config actions).cash := by
  have kept : 0 ≤ (run config actions).cash ∧ Waiting (Pended config) (run config actions) := by
    have waiting := run_waiting config []
    apply covered.kept (P := fun st => 0 ≤ st.cash ∧ Waiting (Pended config) st) ⟨capital, waiting⟩
    · intro st bar ⟨nonneg, waiting⟩ met
      have advanced : Waiting (Pended config) (st.advance bar) :=
        waiting.of_sublist (List.Sublist.refl st.pending) fun _ _ => rfl
      exact matchPendingOrders_meeting
        (cash_loop forbids (tryFillMarket_tried config _ · · · bar) (tryFillMarket_executed config _ bar))
        (cash_loop forbids (tryFillLimit_tried config _ · · · bar) (tryFillLimit_executed config _ bar))
        (fun _ _ _ nonneg => nonneg) nonneg advanced met
    · intro st clientOrderId symbol side quantity orderType price ⟨nonneg, waiting⟩
      have placed := placeOrder_placed config st
        { clientOrderId, symbol, side, orderType, quantity, price }
      exact ⟨nonneg.trans_eq placed.ledger_eq.1.symm, placed.pended waiting⟩
    · intro st clientOrderId ⟨nonneg, waiting⟩
      have cancelled := cancelOrder_cancelled waiting clientOrderId
      exact ⟨nonneg.trans_eq cancelled.ledger_eq.1.symm, cancelled.waiting waiting⟩
  exact kept.1

theorem forbidsShort_default (initialCapital : ℚ) (resolver : String → Market × InstrumentType) :
    BrokerConfig.ForbidsShort { initialCapital, resolver } := by
  have table : ∀ entry ∈ defaultTable, entry.2.2.allowShort = false := by decide +kernel
  apply forbidsShort_of_table
  · exact table
  · exact fun _ => rfl

theorem paper_cash_nonneg_round_trip :
    (run { resolver := defaultResolver } roundTrip).fills.length = 2 ∧
      0 ≤ (run { resolver := defaultResolver } roundTrip).cash :=
  ⟨by decide +kernel, paper_cash_nonneg _ (forbidsShort_default 100000 defaultResolver) (by decide +kernel) roundTrip
    (by decide +kernel)⟩

/-- A bar of a fund at four cents. -/
def pennyBar (date : Date) : Bar :=
  { shareBar date with
    symbol := ⟨"510300", .aShare⟩, openPrice := 0.04, high := 0.04, low := 0.04, close := 0.04 }

/-- A lot is bought with all the cash and sold again. -/
def pennyTrip : List Action :=
  [.onNewBar (pennyBar 1), .submitOrder "1" ⟨"510300", .aShare⟩ .buy 100 .market none,
   .onNewBar (pennyBar 2), .submitOrder "2" ⟨"510300", .aShare⟩ .sell 100 .market none,
   .onNewBar (pennyBar 3)]

/-- The sale yields 4 and is charged a commission of 5. -/
theorem paper_cash_negative : ¬ ∀ (config : BrokerConfig), config.ForbidsShort →
    0 ≤ config.initialCapital → ∀ actions : List Action, 0 ≤ (run config actions).cash := by
  intro nonneg
  have sold := nonneg _ (forbidsShort_default 9 fun _ => (.aShare, .etf)) (by decide +kernel) pennyTrip
  revert sold
  decide +kernel

end FinDashboard.Backtest
