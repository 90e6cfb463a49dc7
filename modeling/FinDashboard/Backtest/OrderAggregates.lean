import FinDashboard.Backtest.BarLimits

/-!
# The aggregates of an order

The filled quantity of an order is the total of its fills, however many there are. Its average fill
price is the price of the last one, which is the mean price only if the order is always filled at one
level.
-/

namespace FinDashboard.Backtest

open Ledger List Option
open Simulation (Bar Date)

variable {config : BrokerConfig} {today : Date} {st st' : State} {state : OrderState}
  {order order' : Order} {bar : Bar} {place : ℕ}

theorem toString_inj {m n : ℕ} (same : toString m = toString n) : m = n := by
  rw [Nat.toString_eq_ofList_toDigits, Nat.toString_eq_ofList_toDigits] at same
  have digits := String.ofList_injective same
  have numbers := congrArg (Nat.ofDigitChars 10 · 0) digits
  simpa [Nat.ofDigitChars_ten_toDigits] using numbers

def fillsOf (fills : List Fill) (order : Order) : List Fill :=
  fills.filter fun fill => fill.brokerOrderId = order.brokerOrderId

def meanPrice (fills : List Fill) : ℚ :=
  total (fun fill => fill.quantity * fill.price) fills / total Fill.quantity fills

/-- `remaining_quantity` of the `Order` model. -/
def Order.remainingQuantity (order : Order) : ℚ := order.quantity - order.filledQuantity

/-- The numbers that were given out: an order and its fills carry one of their own. -/
structure Numbered (st : State) : Prop where
  issued : ∀ (place : ℕ) (order : Order) (id : String), st.orders[place]? = some order →
    order.brokerOrderId = some id → ∃ n < st.idCounter, id = toString n
  distinct : ∀ (place other : ℕ) (order order' : Order) (id : String), st.orders[place]? = some order →
    st.orders[other]? = some order' → order.brokerOrderId = some id →
    order'.brokerOrderId = some id → place = other
  filled : ∀ fill ∈ st.fills, ∃ n < st.idCounter, fill.brokerOrderId = some (toString n)

/-- The filled quantities are the totals of the fills, which are positive. -/
structure Booked (st : State) : Prop where
  numbered : Numbered st
  positive : ∀ fill ∈ st.fills, 0 < fill.quantity
  total : ∀ (place : ℕ) (order : Order), st.orders[place]? = some order →
    order.filledQuantity = total Fill.quantity (fillsOf st.fills order)

/-- The average fill prices are the mean prices. -/
def Averaged (st : State) : Prop :=
  ∀ (place : ℕ) (order : Order), st.orders[place]? = some order → 0 < order.filledQuantity →
    order.averageFillPrice = some (meanPrice (fillsOf st.fills order))

/-- The number, the filled quantity and the average price of an order. -/
def Order.aggregates (order : Order) : Option String × ℚ × Option ℚ :=
  (order.brokerOrderId, order.filledQuantity, order.averageFillPrice)

theorem fillsOf_congr (same : order'.aggregates = order.aggregates) (fills : List Fill) :
    fillsOf fills order' = fillsOf fills order := by
  have id : order'.brokerOrderId = order.brokerOrderId := congrArg Prod.fst same
  rw [fillsOf, fillsOf, id]

/-- The objects of the orders differ only in what is not aggregated. -/
structure Relisted (st st' : State) : Prop where
  orders : st'.orders.map Order.aggregates = st.orders.map Order.aggregates
  fills : st'.fills = st.fills
  idCounter : st'.idCounter = st.idCounter

namespace Relisted

theorem found (relisted : Relisted st st') (listed : st'.orders[place]? = some order') :
    ∃ order, st.orders[place]? = some order ∧ order'.aggregates = order.aggregates := by
  have same : (st'.orders.map Order.aggregates)[place]? = (st.orders.map Order.aggregates)[place]? := by
    rw [relisted.orders]
  rw [List.getElem?_map, List.getElem?_map, listed] at same
  obtain ⟨order, before, aggregates⟩ := map_eq_some_iff.mp same.symm
  exact ⟨order, before, aggregates.symm⟩

theorem booked (relisted : Relisted st st') (booked : Booked st) : Booked st' := by
  refine ⟨⟨?_, ?_, ?_⟩, ?_, ?_⟩
  · intro place order' id listed carries
    obtain ⟨order, before, same⟩ := relisted.found listed
    rw [relisted.idCounter]
    exact booked.numbered.issued place order id before ((congrArg Prod.fst same).symm.trans carries)
  · intro place other order' later id listed listed' carries carries'
    obtain ⟨order, before, same⟩ := relisted.found listed
    obtain ⟨order₂, before', same'⟩ := relisted.found listed'
    exact booked.numbered.distinct place other order order₂ id before before'
      ((congrArg Prod.fst same).symm.trans carries) ((congrArg Prod.fst same').symm.trans carries')
  · rw [relisted.fills, relisted.idCounter]
    exact booked.numbered.filled
  · rw [relisted.fills]
    exact booked.positive
  · intro place order' listed
    obtain ⟨order, before, same⟩ := relisted.found listed
    have filled : order'.filledQuantity = order.filledQuantity := congrArg (·.2.1) same
    rw [filled, relisted.fills, fillsOf_congr same]
    exact booked.total place order before

theorem averaged (relisted : Relisted st st') (averaged : Averaged st) : Averaged st' := by
  intro place order' listed some_filled
  obtain ⟨order, before, same⟩ := relisted.found listed
  have filled : order'.filledQuantity = order.filledQuantity := congrArg (·.2.1) same
  have average : order'.averageFillPrice = order.averageFillPrice := congrArg (·.2.2) same
  rw [average, relisted.fills, fillsOf_congr same]
  exact averaged place order before (filled ▸ some_filled)

theorem of_set (listed : st.orders[place]? = some order) (same : order'.aggregates = order.aggregates)
    (orders : st'.orders = st.orders.set place order') (fills : st'.fills = st.fills)
    (idCounter : st'.idCounter = st.idCounter) : Relisted st st' := by
  refine ⟨?_, fills, idCounter⟩
  have there : (st.orders.map Order.aggregates)[place]? = some order.aggregates := by
    rw [List.getElem?_map, listed, map_some]
  rw [orders, map_set, same]
  obtain ⟨within, value⟩ := List.getElem?_eq_some_iff.mp there
  rw [← value]
  exact set_getElem_self within

end Relisted

theorem meanPrice_level {fills : List Fill} {price : ℚ} (level : ∀ fill ∈ fills, fill.price = price)
    (traded : total Fill.quantity fills ≠ 0) : meanPrice fills = price := by
  have turnover : total (fun fill : Fill => fill.quantity * fill.price) fills =
      total (fun fill : Fill => fill.quantity * price) fills :=
    total_congr fun fill member => by rw [level fill member]
  have factored : total (fun fill : Fill => fill.quantity * price) fills =
      total Fill.quantity fills * price :=
    sum_map_mul_right ..
  rw [meanPrice, turnover, factored, mul_div_cancel_left₀ _ traded]

theorem total_quantity_nonneg {fills : List Fill} (positive : ∀ fill ∈ fills, 0 < fill.quantity) :
    0 ≤ total Fill.quantity fills := by
  apply sum_nonneg
  intro quantity member
  obtain ⟨fill, listed, rfl⟩ := mem_map.mp member
  exact (positive fill listed).le

/-- A trade of the order at a place, which becomes `filled` by `fill`. -/
structure Traded (st : State) (place : ℕ) (order filled : Order) (fill : Fill) (st' : State) :
    Prop where
  listed : st.orders[place]? = some order
  orders : st'.orders = st.orders.set place filled
  fills : st'.fills = st.fills ++ [fill]
  idCounter : st'.idCounter = st.idCounter + 1
  numbered : order.brokerOrderId.isSome
  keeps : filled.brokerOrderId = order.brokerOrderId
  carries : fill.brokerOrderId = order.brokerOrderId
  positive : 0 < fill.quantity
  filledQuantity : filled.filledQuantity = order.filledQuantity + fill.quantity
  averageFillPrice : filled.averageFillPrice = some fill.price

namespace Traded

variable {filled : Order} {fill : Fill} {other : ℕ}

theorem found (traded : Traded st place order filled fill st')
    (listed : st'.orders[other]? = some order') :
    other = place ∧ order' = filled ∨ other ≠ place ∧ st.orders[other]? = some order' := by
  obtain ⟨within, -⟩ := List.getElem?_eq_some_iff.mp traded.listed
  rw [traded.orders] at listed
  by_cases same : other = place
  · left
    subst same
    rw [List.getElem?_set_self within] at listed
    exact ⟨rfl, (some.inj listed).symm⟩
  · right
    rw [List.getElem?_set_ne (Ne.symm same)] at listed
    exact ⟨same, listed⟩

theorem fillsOf_self (traded : Traded st place order filled fill st') :
    fillsOf st'.fills filled = fillsOf st.fills order ++ [fill] := by
  simp [fillsOf, traded.fills, filter_append, traded.keeps, traded.carries]

theorem fillsOf_other (traded : Traded st place order filled fill st') (numbered : Numbered st)
    (apart : other ≠ place) (listed : st.orders[other]? = some order') :
    fillsOf st'.fills order' = fillsOf st.fills order' := by
  have different : fill.brokerOrderId ≠ order'.brokerOrderId := by
    intro same
    obtain ⟨id, carried⟩ := isSome_iff_exists.mp traded.numbered
    have carried' : order'.brokerOrderId = some id := by
      rw [← same, traded.carries, carried]
    exact apart (numbered.distinct other place order' order id listed traded.listed carried' carried)
  simp [fillsOf, traded.fills, filter_append, different]

theorem numbers (traded : Traded st place order filled fill st') (numbered : Numbered st) :
    Numbered st' := by
  have back : ∀ (other : ℕ) (order' : Order), st'.orders[other]? = some order' →
      ∃ before, st.orders[other]? = some before ∧ order'.brokerOrderId = before.brokerOrderId := by
    intro other order' listed
    obtain ⟨rfl, rfl⟩ | ⟨-, before⟩ := traded.found listed
    · exact ⟨order, traded.listed, traded.keeps⟩
    · exact ⟨order', before, rfl⟩
  have later : ∀ text, (∃ n < st.idCounter, text = some (toString n)) →
      ∃ n < st'.idCounter, text = some (toString n) := by
    rintro text ⟨n, less, same⟩
    rw [traded.idCounter]
    exact ⟨n, less.trans (Nat.lt_succ_self _), same⟩
  constructor
  · intro other order' id listed carried
    obtain ⟨before, listed', same⟩ := back other order' listed
    obtain ⟨n, less, text⟩ := numbered.issued other before id listed' (same.symm.trans carried)
    rw [traded.idCounter]
    exact ⟨n, less.trans (Nat.lt_succ_self _), text⟩
  · intro first second order₁ order₂ id listed listed' carried carried'
    obtain ⟨before, there, same⟩ := back first order₁ listed
    obtain ⟨before', there', same'⟩ := back second order₂ listed'
    exact numbered.distinct first second before before' id there there' (same.symm.trans carried)
      (same'.symm.trans carried')
  · intro booked member
    apply later
    rw [traded.fills] at member
    rcases mem_append.mp member with old | new
    · exact numbered.filled booked old
    · obtain rfl := mem_singleton.mp new
      obtain ⟨id, carried⟩ := isSome_iff_exists.mp traded.numbered
      obtain ⟨n, less, text⟩ := numbered.issued place order id traded.listed carried
      exact ⟨n, less, by rw [traded.carries, carried, text]⟩

theorem booked (traded : Traded st place order filled fill st') (booked : Booked st) : Booked st' := by
  refine ⟨traded.numbers booked.numbered, ?_, ?_⟩
  · intro other member
    rw [traded.fills] at member
    rcases mem_append.mp member with old | new
    · exact booked.positive other old
    · obtain rfl := mem_singleton.mp new
      exact traded.positive
  · intro other order' listed
    obtain ⟨rfl, rfl⟩ | ⟨apart, before⟩ := traded.found listed
    · have sum := booked.total other order traded.listed
      rw [traded.fillsOf_self, total_append, traded.filledQuantity, sum]
      simp
    · rw [traded.fillsOf_other booked.numbered apart before]
      exact booked.total other order' before

theorem averaged (traded : Traded st place order filled fill st') (booked : Booked st)
    (level : ∀ earlier ∈ fillsOf st.fills order, earlier.price = fill.price)
    (averaged : Averaged st) : Averaged st' := by
  intro other order' listed some_filled
  obtain ⟨rfl, rfl⟩ | ⟨apart, before⟩ := traded.found listed
  · have earlier : 0 ≤ total Fill.quantity (fillsOf st.fills order) :=
      total_quantity_nonneg fun booked' member =>
        booked.positive booked' (mem_filter.mp member).1
    have sum : total Fill.quantity (fillsOf st'.fills order') =
        total Fill.quantity (fillsOf st.fills order) + fill.quantity := by
      rw [traded.fillsOf_self, total_append]
      simp
    have same : ∀ booked' ∈ fillsOf st'.fills order', booked'.price = fill.price := by
      intro booked' member
      rw [traded.fillsOf_self] at member
      rcases mem_append.mp member with old | new
      · exact level booked' old
      · rw [mem_singleton.mp new]
    have nonzero : total Fill.quantity (fillsOf st'.fills order') ≠ 0 := by
      rw [sum]
      exact (add_pos_of_nonneg_of_pos earlier traded.positive).ne'
    rw [traded.averageFillPrice, meanPrice_level same nonzero]
  · rw [traded.fillsOf_other booked.numbered apart before]
    exact averaged other order' before some_filled

end Traded

/-- An order that waits has a number, and what is left of it is what is not filled. -/
structure Open (order : Order) (state : OrderState) : Prop where
  numbered : order.brokerOrderId.isSome
  remaining : state.remaining = order.remainingQuantity

/-- The execution of a turn is at the price of the fills the order has. -/
def LevelTurn (execution : State → OrderState → Order → Option Execution) (st : State)
    (state : OrderState) (order : Order) : Prop :=
  ∀ e ∈ execution st state order, Funded st state order e →
    ∀ fill ∈ fillsOf st.fills order, fill.price = e.price

instance {execution : State → OrderState → Order → Option Execution} (st : State) (state : OrderState)
    (order : Order) : Decidable (LevelTurn execution st state order) :=
  inferInstanceAs (Decidable (∀ e ∈ execution st state order, Funded st state order e → _))

/-- Every execution of a bar is at the price of the fills the order has by then. -/
def LevelPrices (config : BrokerConfig) (st : State) (bar : Bar) : Prop :=
  BarMeets (LevelTurn (executionOn (marketPrice config) config bar.timestamp.date bar))
    (LevelTurn (executionOn (limitPrice config) config bar.timestamp.date bar)) config
    bar.timestamp.date bar (st.advance bar)

instance (config : BrokerConfig) (st : State) (bar : Bar) : Decidable (LevelPrices config st bar) :=
  inferInstanceAs (Decidable (BarMeets _ _ _ _ _ _))

theorem bookFill_traded (today : Date) (positions : Positions) {e : Execution} (opened : Open order state)
    (listed : st.orders[state.order]? = some order) (positive : 0 < e.quantity) :
    Traded st state.order order (order.filled state.remaining e) (fillOf order e st.idCounter today)
      (bookFill today { st with positions } state order e).1 where
  listed := listed
  orders := rfl
  fills := rfl
  idCounter := rfl
  numbered := opened.numbered
  keeps := rfl
  carries := rfl
  positive := positive
  filledQuantity := rfl
  averageFillPrice := rfl

theorem bookFill_open {e : Execution} (opened : Open order state) (within : e.quantity ≤ state.remaining) :
    Open (order.filled state.remaining e) (bookFill today st state order e).2 := by
  refine ⟨opened.numbered, ?_⟩
  have left : (order.filled state.remaining e).remainingQuantity = state.remaining - e.quantity := by
    rw [opened.remaining]
    simp only [Order.filled, Order.remainingQuantity]
    ring
  simp only [left, bookFill]
  split_ifs with whole
  · rw [le_antisymm whole within, sub_self]
  · rfl

variable {tryFill : TryFill} {price : State → OrderState → Order → Bar → Option ℚ} {level : Prop}

theorem aggregates_loop (level : Prop)
    (tries : ∀ st state order, Tried today st state order (tryFill st state order bar))
    (executes : ∀ st state order, Executed today st state order
      (executionOn price config today bar st state order) (tryFill st state order bar)) :
    LoopRule tryFill (fun st state order => level →
        LevelTurn (executionOn price config today bar) st state order)
      config today bar (fun st => Booked st ∧ (level → Averaged st)) Open Open where
  passes _ _ opened := opened
  tries := tries
  turn := by
    intro st state order ⟨booked, averaged⟩ opened listed _ levelTurn
    obtain ⟨within, -⟩ := List.getElem?_eq_some_iff.mp listed
    have executed := executes st state order
    generalize tryFill st state order bar = result at executed
    cases executed with
    | @waits positions =>
      have relisted : Relisted st { st with positions } := ⟨rfl, rfl, rfl⟩
      refine ⟨⟨relisted.booked booked, fun even => relisted.averaged (averaged even)⟩, ?_⟩
      intro order' found _
      obtain rfl := some.inj (listed.symm.trans found)
      exact opened
    | @rejects positions reason message =>
      have same : (order.rejected reason message).aggregates = order.aggregates := rfl
      have relisted : Relisted st
          (State.reject { st with positions } state.order order reason message) :=
        .of_set listed same rfl rfl rfl
      refine ⟨⟨relisted.booked booked, fun even => relisted.averaged (averaged even)⟩, ?_⟩
      intro order' found _
      have written : (st.orders.set state.order (order.rejected reason message))[state.order]? =
          some order' := found
      rw [List.getElem?_set_self within] at written
      obtain rfl := some.inj written
      exact ⟨opened.numbered, opened.remaining⟩
    | @trades positions e found funded =>
      obtain ⟨rawPrice, desired, -, offered, positive, taken, -⟩ := executionOn_spec found
      have traded := bookFill_traded today positions opened listed positive
      refine ⟨⟨traded.booked booked, ?_⟩, ?_⟩
      · intro even
        exact traded.averaged booked (levelTurn even e found funded) (averaged even)
      · intro order' found' _
        have written : (st.orders.set state.order (order.filled state.remaining e))[state.order]? =
            some order' := found'
        rw [List.getElem?_set_self within] at written
        obtain rfl := some.inj written
        exact bookFill_open opened (taken.trans (trade_of_liquidity offered).2)

/-- What placing an order comes to, as far as the aggregates go. -/
structure Entered (st : State) (order placed : Order) (st' : State) : Prop where
  orders : st'.orders = st.orders ++ [placed]
  fills : st'.fills = st.fills
  filledQuantity : placed.filledQuantity = order.filledQuantity
  numbered : placed.brokerOrderId = order.brokerOrderId ∧ st'.idCounter = st.idCounter ∧
      st'.pending = st.pending ∨
    placed.brokerOrderId = some (toString st.idCounter) ∧ st'.idCounter = st.idCounter + 1 ∧
      ∀ entry ∈ st'.pending, entry ∈ st.pending ∨
        entry.2.order = st.orders.length ∧ entry.2.remaining = placed.quantity

theorem accept_entered (st : State) (order : Order) (rule : AssetRule) (slippageBps : ℚ) (today : Date) :
    ∃ placed, Entered st order placed (st.accept order rule slippageBps today).1 := by
  refine ⟨order.accepted order.quantity st.idCounter, ?_⟩
  unfold State.accept
  simp only
  split
  · refine ⟨rfl, rfl, rfl, Or.inr ⟨rfl, rfl, ?_⟩⟩
    intro entry member
    rcases mem_append.mp member with market | limit
    · exact Or.inl (mem_append_left _ market)
    · rcases mem_assign limit with rfl | old
      · exact Or.inr ⟨rfl, rfl⟩
      · exact Or.inl (mem_append_right _ old)
  · refine ⟨rfl, rfl, rfl, Or.inr ⟨rfl, rfl, ?_⟩⟩
    intro entry member
    rcases mem_append.mp member with market | limit
    · rcases mem_assign market with rfl | old
      · exact Or.inr ⟨rfl, rfl⟩
      · exact Or.inl (mem_append_left _ old)
    · exact Or.inl (mem_append_right _ limit)

theorem placeOrder_entered (config : BrokerConfig) (st : State) (order : Order) :
    ∃ placed, Entered st order placed (placeOrder config st order).1 := by
  have refused : ∀ reason message, ∃ placed, Entered st order placed (st.refuse order reason message).1 :=
    fun reason message => ⟨order.rejected reason message, rfl, rfl, rfl, Or.inl ⟨rfl, rfl, rfl⟩⟩
  unfold placeOrder
  cases st.currentDate with
  | none => exact ⟨_, rfl, rfl, rfl, Or.inl ⟨rfl, rfl, rfl⟩⟩
  | some today =>
    simp only
    cases config.resolveRule order.symbol.code with
    | error error =>
      cases error with
      | resolution market instrumentType => exact refused _ _
      | value => exact ⟨order, rfl, rfl, rfl, Or.inl ⟨rfl, rfl, rfl⟩⟩
    | ok found =>
      simp only
      split_ifs
      · exact refused _ _
      · obtain ⟨placed, entered⟩ := accept_entered st
          { order with quantity := found.1.roundToLot order.quantity } found.1 found.2 today
        exact ⟨placed, entered.orders, entered.fills, entered.filledQuantity, entered.numbered⟩
      · exact accept_entered st order found.1 found.2 today

namespace Entered

variable {placed : Order} {other : ℕ}

theorem found (entered : Entered st order placed st') (listed : st'.orders[other]? = some order') :
    other = st.orders.length ∧ order' = placed ∨ st.orders[other]? = some order' := by
  rw [entered.orders] at listed
  rcases lt_trichotomy other st.orders.length with less | same | more
  · rw [List.getElem?_append_left less] at listed
    exact Or.inr listed
  · subst same
    rw [List.getElem?_append_right (le_refl _), Nat.sub_self] at listed
    exact Or.inl ⟨rfl, (some.inj listed).symm⟩
  · rw [List.getElem?_append_right more.le] at listed
    have beyond : [placed].length ≤ other - st.orders.length := by
      rw [length_singleton]
      omega
    rw [List.getElem?_eq_none beyond] at listed
    cases listed

theorem fillsOf_placed (entered : Entered st order placed st') (fresh : order.brokerOrderId = none)
    (numbered : Numbered st) : fillsOf st.fills placed = [] := by
  refine filter_eq_nil_iff.mpr ?_
  intro fill member
  obtain ⟨n, less, carried⟩ := numbered.filled fill member
  rw [decide_eq_true_eq, carried]
  rcases entered.numbered with ⟨same, -⟩ | ⟨new, -⟩
  · rw [same, fresh]
    exact some_ne_none _
  · rw [new]
    intro same
    exact less.ne (toString_inj (some.inj same))

theorem numbers (entered : Entered st order placed st') (fresh : order.brokerOrderId = none)
    (numbered : Numbered st) : Numbered st' := by
  have grown : st.idCounter ≤ st'.idCounter := by
    rcases entered.numbered with ⟨-, same, -⟩ | ⟨-, next, -⟩ <;> omega
  have own : ∀ id, placed.brokerOrderId = some id →
      id = toString st.idCounter ∧ st'.idCounter = st.idCounter + 1 := by
    intro id carried
    rcases entered.numbered with ⟨same, -⟩ | ⟨new, next, -⟩
    · rw [same, fresh] at carried
      cases carried
    · exact ⟨(some.inj (new.symm.trans carried)).symm, next⟩
  have apart : ∀ (place : ℕ) (old : Order) (id : String), st.orders[place]? = some old →
      old.brokerOrderId = some id → placed.brokerOrderId ≠ some id := by
    intro place old id listed carried carried'
    obtain ⟨n, less, text⟩ := numbered.issued place old id listed carried
    rw [text] at carried'
    exact less.ne (toString_inj (own _ carried').1)
  constructor
  · intro place order' id listed carried
    obtain ⟨rfl, rfl⟩ | before := entered.found listed
    · obtain ⟨text, next⟩ := own id carried
      exact ⟨st.idCounter, by omega, text⟩
    · obtain ⟨n, less, text⟩ := numbered.issued place order' id before carried
      exact ⟨n, less.trans_le grown, text⟩
  · intro place other order₁ order₂ id listed listed' carried carried'
    obtain ⟨rfl, rfl⟩ | before := entered.found listed <;>
      obtain ⟨rfl, rfl⟩ | before' := entered.found listed'
    · rfl
    · exact absurd carried (apart other order₂ id before' carried')
    · exact absurd carried' (apart place order₁ id before carried)
    · exact numbered.distinct place other order₁ order₂ id before before' carried carried'
  · intro fill member
    rw [entered.fills] at member
    obtain ⟨n, less, carried⟩ := numbered.filled fill member
    exact ⟨n, less.trans_le grown, carried⟩

theorem booked (entered : Entered st order placed st') (fresh : order.brokerOrderId = none)
    (unfilled : order.filledQuantity = 0) (booked : Booked st) : Booked st' := by
  refine ⟨entered.numbers fresh booked.numbered, ?_, ?_⟩
  · rw [entered.fills]
    exact booked.positive
  · intro place order' listed
    rw [entered.fills]
    obtain ⟨rfl, rfl⟩ | before := entered.found listed
    · rw [entered.fillsOf_placed fresh booked.numbered, entered.filledQuantity, unfilled, total_nil]
    · exact booked.total place order' before

theorem averaged (entered : Entered st order placed st') (unfilled : order.filledQuantity = 0)
    (averaged : Averaged st) : Averaged st' := by
  intro place order' listed some_filled
  rw [entered.fills]
  obtain ⟨rfl, rfl⟩ | before := entered.found listed
  · rw [entered.filledQuantity, unfilled] at some_filled
    exact absurd some_filled (lt_irrefl 0)
  · exact averaged place order' before some_filled

theorem waiting (entered : Entered st order placed st') (unfilled : order.filledQuantity = 0)
    {B : Order → OrderState → Prop} (waits : Waiting B st') (waiting : Waiting Open st) :
    Waiting Open st' := by
  refine ⟨?_, waits.distinct⟩
  have kept : ∀ entry ∈ st.pending, Holds Open st' entry.2 := by
    intro entry member
    apply (waiting.listed entry member).of_orders_eq
    rw [entered.orders]
    exact List.getElem?_append_left (waiting.lt_length (mem_map.mpr ⟨entry, member, rfl⟩))
  intro entry member
  rcases entered.numbered with ⟨-, -, same⟩ | ⟨new, -, news⟩
  · exact kept entry (same ▸ member)
  · rcases news entry member with old | ⟨place, whole⟩
    · exact kept entry old
    · refine ⟨placed, ?_, ?_, ?_⟩
      · rw [entered.orders, place, List.getElem?_append_right (le_refl _), Nat.sub_self]
        rfl
      · rw [new]
        rfl
      · rw [whole, Order.remainingQuantity, entered.filledQuantity, unfilled, sub_zero]

end Entered

theorem Cancelled.relisted (cancelled : Cancelled st st') : Relisted st st' := by
  cases cancelled with
  | unknown => exact ⟨rfl, rfl, rfl⟩
  | cancelled state order pendingOrders pendingLimit events hpending listed =>
    have same : { order with status := .cancelled }.aggregates = order.aggregates := rfl
    exact .of_set listed same rfl rfl rfl

theorem turnsMeet_of {meets : State → OrderState → Order → Prop} {entries : Pending}
    (met : level → TurnsMeet tryFill meets config today bar entries st) :
    TurnsMeet tryFill (fun st state order => level → meets st state order) config today bar entries
      st := by
  induction entries generalizing st with
  | nil => trivial
  | cons entry rest ih =>
    exact ⟨fun order listed tried given => (met given).1 order listed tried, ih fun given => (met given).2⟩

theorem everyBar_of {meets : State → Bar → Prop} {actions : List Action}
    (met : level → EveryBar meets config actions st) :
    EveryBar (fun st bar => level → meets st bar) config actions st := by
  induction actions generalizing st with
  | nil => trivial
  | cons action rest ih =>
    refine ⟨?_, ih fun given => (met given).2⟩
    cases action with
    | onNewBar bar => exact fun given => (met given).1
    | submitOrder => trivial
    | cancelOrder => trivial

/-- What the broker keeps of its orders. -/
structure Aggregated (level : Prop) (st : State) : Prop where
  booked : Booked st
  averaged : level → Averaged st
  waiting : Waiting Open st

namespace Aggregated

theorem initial (config : BrokerConfig) (level : Prop) : Aggregated level (State.initial config) := by
  have none : ∀ (place : ℕ) (order : Order), (State.initial config).orders[place]? ≠ some order :=
    fun place order => by simp [State.initial]
  refine ⟨⟨⟨?_, ?_, ?_⟩, ?_, ?_⟩, ?_, ?_, nodup_nil⟩
  · exact fun place order _ listed => absurd listed (none place order)
  · exact fun place _ order _ _ listed => absurd listed (none place order)
  · exact fun fill member => absurd member not_mem_nil
  · exact fun fill member => absurd member not_mem_nil
  · exact fun place order listed => absurd listed (none place order)
  · exact fun _ place order listed => absurd listed (none place order)
  · exact fun entry member => absurd member not_mem_nil

theorem matched (aggregated : Aggregated level st) (even : level → LevelPrices config st bar) :
    Aggregated level (step config st (.onNewBar bar)) := by
  have relisted : Relisted st (st.advance bar) := ⟨rfl, rfl, rfl⟩
  have advanced : Waiting Open (st.advance bar) :=
    aggregated.waiting.of_sublist (List.Sublist.refl st.pending) fun _ _ => rfl
  have market := aggregates_loop level (tryFillMarket_tried config _ · · · bar)
    (tryFillMarket_executed config bar.timestamp.date bar)
  have limit := aggregates_loop level (tryFillLimit_tried config _ · · · bar)
    (tryFillLimit_executed config bar.timestamp.date bar)
  have frame : ∀ st pendingOrders pendingLimit, Booked st ∧ (level → Averaged st) →
      Booked { st with pendingOrders, pendingLimit } ∧
        (level → Averaged { st with pendingOrders, pendingLimit }) := by
    intro st pendingOrders pendingLimit ⟨booked, averaged⟩
    have same : Relisted st { st with pendingOrders, pendingLimit } := ⟨rfl, rfl, rfl⟩
    exact ⟨same.booked booked, fun even => same.averaged (averaged even)⟩
  obtain ⟨⟨booked, averaged⟩, waiting⟩ := matchPendingOrders_meeting market limit frame
    ⟨relisted.booked aggregated.booked, fun even => relisted.averaged (aggregated.averaged even)⟩
    advanced ⟨turnsMeet_of fun given => (even given).1, turnsMeet_of fun given => (even given).2⟩
  exact ⟨booked, averaged, waiting⟩

theorem submitted (aggregated : Aggregated level st) (clientOrderId : ClientOrderId) (symbol : Symbol)
    (side : Side) (quantity : ℚ) (orderType : OrderType) (price : Option ℚ) : Aggregated level
      (step config st (.submitOrder clientOrderId symbol side quantity orderType price)) := by
  obtain ⟨placed, entered⟩ := placeOrder_entered config st
    { clientOrderId, symbol, side, orderType, quantity, price }
  have waits : Waiting (fun _ _ => True)
      (step config st (.submitOrder clientOrderId symbol side quantity orderType price)) :=
    (placeOrder_placed config st _).waiting (aggregated.waiting.imp fun _ _ _ => trivial)
      fun _ _ _ _ _ _ => trivial
  exact ⟨entered.booked rfl rfl aggregated.booked,
    fun even => entered.averaged rfl (aggregated.averaged even),
    entered.waiting rfl waits aggregated.waiting⟩

theorem cancelled (aggregated : Aggregated level st) (clientOrderId : ClientOrderId) :
    Aggregated level (step config st (.cancelOrder clientOrderId)) := by
  have cancelled := cancelOrder_cancelled aggregated.waiting clientOrderId
  have relisted := cancelled.relisted
  exact ⟨relisted.booked aggregated.booked, fun even => relisted.averaged (aggregated.averaged even),
    cancelled.waiting aggregated.waiting⟩

end Aggregated

theorem run_aggregated {level : Prop} {actions : List Action}
    (even : level → EveryBar (LevelPrices config) config actions (State.initial config)) :
    Aggregated level (run config actions) := by
  have every : EveryBar (fun st bar => level → LevelPrices config st bar) config actions
      (State.initial config) := everyBar_of even
  apply every.kept (P := Aggregated level) (.initial config level)
  · exact fun st bar aggregated met => aggregated.matched met
  · exact fun st clientOrderId symbol side quantity orderType price aggregated =>
      aggregated.submitted clientOrderId symbol side quantity orderType price
  · exact fun st clientOrderId aggregated => aggregated.cancelled clientOrderId

theorem order_quantities (config : BrokerConfig) (actions : List Action) {place : ℕ} {order : Order}
    (listed : (run config actions).orders[place]? = some order) :
    order.filledQuantity = total Fill.quantity (fillsOf (run config actions).fills order) ∧
      order.filledQuantity + order.remainingQuantity = order.quantity ∧
      ∀ entry ∈ (run config actions).pending, entry.2.order = place →
        entry.2.remaining = order.remainingQuantity := by
  have aggregated : Aggregated False (run config actions) := run_aggregated False.elim
  refine ⟨aggregated.booked.total place order listed, add_sub_cancel _ _, ?_⟩
  intro entry member same
  obtain ⟨found, there, opened⟩ := aggregated.waiting.listed entry member
  rw [same] at there
  obtain rfl := some.inj (listed.symm.trans there)
  exact opened.remaining

/-- The aggregates of an order are those of its fills, in every run in which each order is filled at
one level. -/
theorem order_aggregates (config : BrokerConfig) (actions : List Action)
    (level : EveryBar (LevelPrices config) config actions (State.initial config)) (place : ℕ)
    (order : Order) (listed : (run config actions).orders[place]? = some order) :
    order.filledQuantity = total Fill.quantity (fillsOf (run config actions).fills order) ∧
      order.filledQuantity + order.remainingQuantity = order.quantity ∧ (0 < order.filledQuantity →
        order.averageFillPrice = some (meanPrice (fillsOf (run config actions).fills order))) := by
  have aggregated : Aggregated True (run config actions) := run_aggregated fun _ => level
  obtain ⟨filled, rest, -⟩ := order_quantities config actions listed
  exact ⟨filled, rest, aggregated.averaged trivial place order listed⟩

/-- Two tenths of a bar, at ten each. -/
def twoFills : List Action := waitingPurchase ++ [.onNewBar (shareBar 2), .onNewBar (shareBar 3)]

theorem order_aggregates_two_fills : ∃ order, (run tenthConfig twoFills).orders[0]? = some order ∧
      (fillsOf (run tenthConfig twoFills).fills order).length = 2 ∧
      order.filledQuantity = total Fill.quantity (fillsOf (run tenthConfig twoFills).fills order) ∧
      order.filledQuantity + order.remainingQuantity = order.quantity ∧ (0 < order.filledQuantity →
        order.averageFillPrice = some (meanPrice (fillsOf (run tenthConfig twoFills).fills order))) :=
  ⟨(run tenthConfig twoFills).orders[0]?.get (by decide +kernel), by simp, by decide +kernel,
    order_aggregates tenthConfig twoFills (by decide +kernel) 0 _ (by simp)⟩

/-- The second of them is half a yuan higher. -/
def risingFills : List Action :=
  waitingPurchase ++ [.onNewBar (shareBar 2),
    .onNewBar { shareBar 3 with openPrice := 10.5, close := 10.5 }]

/-- The average price is the one of the second fill. -/
theorem order_average_last : ¬ ∀ (config : BrokerConfig) (actions : List Action) (place : ℕ)
    (order : Order), (run config actions).orders[place]? = some order →
    order.filledQuantity = total Fill.quantity (fillsOf (run config actions).fills order) ∧
      order.filledQuantity + order.remainingQuantity = order.quantity ∧ (0 < order.filledQuantity →
        order.averageFillPrice = some (meanPrice (fillsOf (run config actions).fills order))) := by
  intro mean
  have last := mean tenthConfig risingFills 0
    ((run tenthConfig risingFills).orders[0]?.get (by decide +kernel)) (by simp)
  revert last
  decide +kernel

end FinDashboard.Backtest
