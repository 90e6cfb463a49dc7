import FinDashboard.Simulation.FillSteps

/-!
# Sound tables

Order ids are places in the table, positions have unique keys, and no more orders are active
than the configuration allows, so that the limit of the order queries cuts nothing off.
Ending, filling and marking keep the tables so.
-/

namespace FinDashboard.Simulation

open Ledger List

variable {money : ℚ → ℚ}

/-- The order and position tables are addressed as the service addresses them. -/
structure Sound (st : State) : Prop where
  indexed : Indexed Order.orderId st.orders
  bounded : st.activeCount ≤ st.session.config.risk.maxActiveOrders
  keys : (st.positions.map Position.key).Nodup

/-- The rows of two states that differ in bookkeeping only. -/
structure SameBooks (st st' : State) : Prop where
  initialCash : st'.account.initialCash = st.account.initialCash
  cash : st'.account.cash = st.account.cash
  frozenCash : st'.account.frozenCash = st.account.frozenCash
  marginUsed : st'.account.marginUsed = st.account.marginUsed ∨
    st'.account.marginUsed = total Position.marginUsed st.positions
  orders : st'.orders = st.orders
  positions : st'.positions = st.positions
  fills : st'.fills = st.fills
  config : st'.session.config = st.session.config

theorem activeCount_eq (st : State) :
    st.activeCount = total (fun order => if order.isActive then 1 else 0) st.orders := by
  have hcount : ∀ orders : List Order, (orders.filter Order.isActive).length =
      total (fun order => if order.isActive then 1 else 0) orders := by
    intro orders
    induction orders with
    | nil => rfl
    | cons order rest ih => by_cases h : order.isActive <;> simp [h, ih, add_comm]
  exact hcount st.orders

namespace Sound

variable {st st' : State} {order order' : Order}

theorem of_same (h : Sound st) (hsame : SameBooks st st') : Sound st' where
  indexed := by
    rw [hsame.orders]
    exact h.indexed
  bounded := by
    unfold State.activeCount
    rw [hsame.orders, hsame.config]
    exact h.bounded
  keys := by
    rw [hsame.positions]
    exact h.keys

theorem listed (h : Sound st) (hmem : order ∈ st.orders) : st.Listed order :=
  h.indexed.getElem?_of_mem hmem

/-- The limit of the order query is never reached. -/
theorem activeOrders_eq (h : Sound st) : st.activeOrders = st.orders.filter Order.isActive := by
  unfold State.activeOrders
  refine take_of_length_le ?_
  exact h.bounded.trans st.session.config.risk.maxActiveOrders_le

theorem activeOrdersOf_eq (h : Sound st) (symbol : String) : st.activeOrdersOf symbol =
    st.orders.filter fun order => order.isActive && order.symbol = symbol := by
  unfold State.activeOrdersOf
  refine take_of_length_le ?_
  have hsub : (st.orders.filter fun order => order.isActive && order.symbol = symbol).length ≤
      st.activeCount := by
    rw [← filter_filter]
    exact (filter_sublist.filter Order.isActive).length_le
  exact hsub.trans (h.bounded.trans st.session.config.risk.maxActiveOrders_le)

theorem set (h : Sound st) (hlisted : st.Listed order) (hactive : order.isActive = true)
    (hid : order'.orderId = order.orderId) (horders : st'.orders = st.orders.set order.orderId order')
    (hkeys : st'.positions.map Position.key = st.positions.map Position.key)
    (hconfig : st'.session.config = st.session.config) : Sound st' where
  indexed := by
    rw [horders]
    exact h.indexed.set hlisted hid
  bounded := by
    have hcount := h.bounded
    have hexchange : total (fun order => if order.isActive then 1 else 0)
        (st.orders.set order.orderId order') + (if order.isActive then 1 else 0) =
          total (fun order => if order.isActive then 1 else 0) st.orders +
            (if order'.isActive then 1 else 0) := total_set_add hlisted
    rw [activeCount_eq] at hcount ⊢
    rw [horders, hconfig]
    rw [if_pos hactive] at hexchange
    by_cases hleft : order'.isActive = true
    · rw [if_pos hleft] at hexchange
      omega
    · rw [if_neg hleft] at hexchange
      omega
  keys := by
    rw [hkeys]
    exact h.keys

/-- Placing an order where there is room for it. -/
theorem add (h : Sound st) (hid : order.orderId = st.orders.length)
    (hroom : order.isActive = true → st.activeCount < st.session.config.risk.maxActiveOrders)
    (horders : st'.orders = st.orders ++ [order])
    (hkeys : st'.positions.map Position.key = st.positions.map Position.key)
    (hconfig : st'.session.config = st.session.config) : Sound st' where
  indexed := by
    rw [horders]
    exact h.indexed.append hid
  bounded := by
    have hcount := h.bounded
    have hroom' := hroom
    rw [activeCount_eq] at hcount hroom' ⊢
    rw [horders, hconfig, total_append, total_cons, total_nil]
    by_cases hactive : order.isActive = true
    · have hless := hroom' hactive
      rw [if_pos hactive]
      omega
    · rw [if_neg hactive]
      omega
  keys := by
    rw [hkeys]
    exact h.keys

end Sound

section Pieces

variable {st : State} {order : Order} {e : Execution}

theorem Sound.closeOrder (h : Sound st) (hlisted : st.Listed order) (hactive : order.isActive = true)
    (status : OrderStatus) (reason : Reason) : Sound (closeOrder st order status reason) :=
  h.set hlisted hactive (endedOrder_terms st order status reason).orderId
    (closeOrder_orders st order status reason) (closeOrder_positions_keys st order status reason)
    (by rw [closeOrder_session])

theorem mem_of_getPosition {key : String × PositionSide} {position : Position}
    (h : st.getPosition key = some position) : position ∈ st.positions ∧ position.key = key :=
  ⟨mem_of_find?_eq_some h, by simpa using find?_some h⟩

theorem key_ne_of_getPosition {key : String × PositionSide} (h : st.getPosition key = none) :
    ∀ position ∈ st.positions, position.key ≠ key := by
  simpa [State.getPosition] using h

def emptyPosition (order : Order) (price : ℚ) : Position where
  symbol := order.symbol
  market := order.market
  instrumentType := order.instrumentType
  assetRuleKey := order.assetRuleKey
  positionSide := order.positionSide
  lastPrice := price

theorem ensurePosition_cases (st : State) (order : Order) (price : ℚ) :
    (∃ position, st.getPosition order.key = some position ∧
        ensurePosition st order price = (st, position)) ∨
      (st.getPosition order.key = none ∧ ensurePosition st order price =
        (st.addPosition (emptyPosition order price), emptyPosition order price)) := by
  unfold ensurePosition
  cases st.getPosition order.key with
  | some position => exact Or.inl ⟨position, rfl, rfl⟩
  | none => exact Or.inr ⟨rfl, rfl⟩

theorem mem_addPosition {position added : Position} :
    position ∈ (st.addPosition added).positions ↔ position = added ∨ position ∈ st.positions := by
  rw [← mem_cons]
  exact (perm_orderedInsert _ _ _).mem_iff

theorem ensurePosition_spec (st : State) (order : Order) (price : ℚ) :
    (ensurePosition st order price).2 ∈ (ensurePosition st order price).1.positions ∧
      (ensurePosition st order price).2.key = order.key := by
  obtain ⟨position, hposition, heq⟩ | ⟨-, heq⟩ := ensurePosition_cases st order price
  · rw [heq]
    exact mem_of_getPosition hposition
  · rw [heq]
    exact ⟨mem_addPosition.mpr (Or.inl rfl), rfl⟩

theorem Sound.ensurePosition (h : Sound st) (order : Order) (price : ℚ) :
    Sound (ensurePosition st order price).1 := by
  obtain ⟨position, -, heq⟩ | ⟨hnone, heq⟩ := ensurePosition_cases st order price
  · rw [heq]
    exact h
  · rw [heq]
    refine ⟨h.indexed, h.bounded, ?_⟩
    apply ((perm_orderedInsert _ _ _).map Position.key).nodup_iff.mpr
    rw [map_cons, nodup_cons]
    refine ⟨?_, h.keys⟩
    intro hmem
    obtain ⟨other, hother, hkey⟩ := mem_map.mp hmem
    exact key_ne_of_getPosition hnone other hother hkey

theorem applyFill_status (hactive : order.isActive = true) :
    (applyFill money st order e).order.isActive = true ∨
      ((applyFill money st order e).order.status = .filled ∧
        ∃ fillId, (applyFill money st order e).outcome = .ok fillId) := by
  have hstep : FillStep money st order e _ := applyFill_step st order e
  generalize applyFill money st order e = result at hstep ⊢
  cases hstep with
  | known existing => exact Or.inl hactive
  | @failed rows error h =>
    left
    have hstatus : rows.order.status = order.status := by
      unfold bookRows at h
      cases heffect : (fillRows st order e).order.positionEffect with
      | «open» =>
        rw [heffect] at h
        rw [openFill_failed h, fillRows_order]
      | close =>
        rw [heffect] at h
        rw [(closeFill_failed h).2]
        rfl
    rw [isActive_iff] at hactive ⊢
    simpa only [hstatus] using hactive
  | @booked rows h =>
    rw [settleFill_eq]
    simp only
    by_cases hfilled : (rows.order.filled money e).status = .filled
    · exact Or.inr ⟨(settledOrder_status money rows e).trans hfilled, _, rfl⟩
    · left
      rw [isActive_iff, settledOrder_status]
      unfold Order.filled at hfilled ⊢
      simp only at hfilled ⊢
      split_ifs at hfilled ⊢ with hdone
      · exact absurd rfl hfilled
      · simp

theorem Sound.applyFill (h : Sound st) (hlisted : st.Listed order) (hactive : order.isActive = true) :
    Sound (applyFill money st order e).state := by
  have horders : (Simulation.applyFill money st order e).state.orders = _ :=
    applyFill_orders st order e hlisted
  have hterms : order.SameTerms (Simulation.applyFill money st order e).order :=
    applyFill_terms st order e
  have hensured : Sound (Simulation.ensurePosition st order e.fillPrice).1 :=
    h.ensurePosition order e.fillPrice
  have hlisted' : (Simulation.ensurePosition st order e.fillPrice).1.Listed order := by
    unfold State.Listed
    rw [ensurePosition_eq]
    exact hlisted
  have hstep : FillStep money st order e _ := applyFill_step st order e
  generalize Simulation.applyFill money st order e = result at hstep horders hterms ⊢
  cases hstep with
  | known existing => exact h
  | failed hbook =>
    refine hensured.set hlisted' hactive hterms.orderId ?_ map_key_overwrite rfl
    rw [horders, ensurePosition_eq]
  | booked hbook =>
    rw [settleFill_eq] at horders hterms ⊢
    refine hensured.set hlisted' hactive hterms.orderId ?_ map_key_overwrite rfl
    rw [horders, ensurePosition_eq]

def markedState (money : ℚ → ℚ) (st : State) (position : Position) (bar : Bar)
    (rule : SimulationAssetRule) : State :=
  if rule.isFutures then settleFuture money st position bar rule
  else st.setPosition (position.markedToMarket money bar)

/-- What marking and settling leave alone. -/
structure MarkFrame (position : Position) (st st' : State) : Prop where
  initialCash : st'.account.initialCash = st.account.initialCash
  frozenCash : st'.account.frozenCash = st.account.frozenCash
  orders : st'.orders = st.orders
  fills : st'.fills = st.fills
  config : st'.session.config = st.session.config
  positions : ∃ marked : Position, marked.key = position.key ∧
    st'.positions = overwrite Position.key marked st.positions

variable (money) in
/-- Marking or settling a position rewrites its row. -/
theorem markedState_frame (st : State) (position : Position) (bar : Bar) (rule : SimulationAssetRule) :
    MarkFrame position st (markedState money st position bar rule) := by
  unfold markedState settleFuture
  by_cases hfutures : rule.isFutures = true
  · rw [if_pos hfutures]
    by_cases hsettled : position.lastSettlementDate = some bar.timestamp.date
    · rw [if_pos hsettled]
      exact ⟨rfl, rfl, rfl, rfl, rfl, { position with lastPrice := bar.close }, rfl, rfl⟩
    · rw [if_neg hsettled]
      refine ⟨rfl, rfl, rfl, rfl, ?_, _, ?_, rfl⟩
      · simp only [revalueAccount, State.setPosition]
        split_ifs <;> rfl
      · rfl
  · rw [if_neg hfutures]
    exact ⟨rfl, rfl, rfl, rfl, rfl, position.markedToMarket money bar, rfl, rfl⟩

theorem Sound.markedState (h : Sound st) (position : Position) (bar : Bar)
    (rule : SimulationAssetRule) : Sound (Simulation.markedState money st position bar rule) := by
  have hframe := markedState_frame money st position bar rule
  obtain ⟨marked, -, hpositions⟩ := hframe.positions
  refine ⟨?_, ?_, ?_⟩
  · rw [hframe.orders]
    exact h.indexed
  · unfold State.activeCount
    rw [hframe.orders, hframe.config]
    exact h.bounded
  · rw [hpositions, map_key_overwrite]
    exact h.keys

end Pieces

end FinDashboard.Simulation
