import FinDashboard.Simulation.Service

/-!
# What the pieces of the service write

Ending and filling an order rewrite its row, the row of its position and the account, and
nothing else. These are the equations the invariants of the following modules are derived
from, so that none of them unfolds the service again.
-/

namespace FinDashboard.Simulation

open Ledger

variable {money : ℚ → ℚ}

/-- The fields of an order row that are never rewritten. -/
structure Order.SameTerms (order order' : Order) : Prop where
  orderId : order'.orderId = order.orderId
  symbol : order'.symbol = order.symbol
  market : order'.market = order.market
  instrumentType : order'.instrumentType = order.instrumentType
  assetRuleKey : order'.assetRuleKey = order.assetRuleKey
  positionSide : order'.positionSide = order.positionSide
  positionEffect : order'.positionEffect = order.positionEffect
  side : order'.side = order.side
  quantity : order'.quantity = order.quantity

namespace Order.SameTerms

variable {a b c : Order}

theorem refl (order : Order) : order.SameTerms order :=
  ⟨rfl, rfl, rfl, rfl, rfl, rfl, rfl, rfl, rfl⟩

theorem trans (h : a.SameTerms b) (h' : b.SameTerms c) : a.SameTerms c where
  orderId := h'.orderId.trans h.orderId
  symbol := h'.symbol.trans h.symbol
  market := h'.market.trans h.market
  instrumentType := h'.instrumentType.trans h.instrumentType
  assetRuleKey := h'.assetRuleKey.trans h.assetRuleKey
  positionSide := h'.positionSide.trans h.positionSide
  positionEffect := h'.positionEffect.trans h.positionEffect
  side := h'.side.trans h.side
  quantity := h'.quantity.trans h.quantity

theorem key (h : a.SameTerms b) : b.key = a.key := by
  unfold Order.key
  rw [h.symbol, h.positionSide]

theorem resolveRule (h : a.SameTerms b) : b.resolveRule = a.resolveRule := by
  unfold Order.resolveRule
  rw [h.assetRuleKey, h.market, h.instrumentType, h.symbol]

end Order.SameTerms

/-- An order as its row stands. -/
def State.Listed (st : State) (order : Order) : Prop := st.orders[order.orderId]? = some order

theorem State.Listed.mem {st : State} {order : Order} (h : st.Listed order) : order ∈ st.orders :=
  List.mem_of_getElem? h

theorem mapError_eq_ok {ε ε' α : Type} {f : ε → ε'} {x : Except ε α} {a : α} :
    x.mapError f = .ok a ↔ x = .ok a := by
  cases x <;> simp [Except.mapError]

variable {rule : SimulationAssetRule}

theorem isFutures_of_resolve {key symbol : String} {market : Market} {instrumentType : InstrumentType}
    (h : resolveSimulationRule key market instrumentType symbol = .ok rule) :
    rule.isFutures = decide (instrumentType = .futures) := by
  rw [SimulationAssetRule.isFutures, instrumentType_of_resolve h]

theorem isFutures_of_resolveRule {order : Order} (h : order.resolveRule = .ok rule) :
    rule.isFutures = decide (order.instrumentType = .futures) :=
  isFutures_of_resolve (mapError_eq_ok.mp h)

theorem Position.isFutures_of_resolveRule {position : Position} (h : position.resolveRule = .ok rule) :
    rule.isFutures = decide (position.instrumentType = .futures) :=
  isFutures_of_resolve (mapError_eq_ok.mp h)

section Release

variable (account : Account) (position : Position) (order : Order)

theorem releaseCash_sum : (releaseCash account order).1.cash + (releaseCash account order).1.frozenCash =
    account.cash + account.frozenCash := by
  unfold releaseCash
  split_ifs
  · simp only
    ring
  · rfl

theorem releaseCash_frozen : account.frozenCash - (releaseCash account order).1.frozenCash =
    order.reservedCash - (releaseCash account order).2.reservedCash := by
  unfold releaseCash
  split_ifs
  · simp only
    ring
  · simp

theorem releaseCash_all (hreserved : 0 ≤ order.reservedCash)
    (hfrozen : order.reservedCash ≤ account.frozenCash) :
    (releaseCash account order).2.reservedCash = 0 := by
  unfold releaseCash
  split_ifs with hpos
  · simp only [min_eq_left hfrozen, sub_self]
  · exact le_antisymm (not_lt.mp hpos) hreserved

theorem releaseCash_marginUsed : (releaseCash account order).1.marginUsed = account.marginUsed := by
  unfold releaseCash
  split_ifs <;> rfl

theorem releaseCash_initialCash : (releaseCash account order).1.initialCash = account.initialCash := by
  unfold releaseCash
  split_ifs <;> rfl

theorem releaseCash_reservedQuantity :
    (releaseCash account order).2.reservedQuantity = order.reservedQuantity := by
  unfold releaseCash
  split_ifs <;> rfl

theorem releaseCash_terms : order.SameTerms (releaseCash account order).2 := by
  unfold releaseCash
  split_ifs <;> exact ⟨rfl, rfl, rfl, rfl, rfl, rfl, rfl, rfl, rfl⟩

theorem releaseCash_filledQuantity :
    (releaseCash account order).2.filledQuantity = order.filledQuantity := by
  unfold releaseCash
  split_ifs <;> rfl

theorem releaseCash_status : (releaseCash account order).2.status = order.status := by
  unfold releaseCash
  split_ifs <;> rfl

theorem releaseQuantity_terms : order.SameTerms (releaseQuantity position order).2 := by
  unfold releaseQuantity
  split_ifs <;> exact ⟨rfl, rfl, rfl, rfl, rfl, rfl, rfl, rfl, rfl⟩

theorem releaseQuantity_filledQuantity :
    (releaseQuantity position order).2.filledQuantity = order.filledQuantity := by
  unfold releaseQuantity
  split_ifs <;> rfl

theorem releaseQuantity_status : (releaseQuantity position order).2.status = order.status := by
  unfold releaseQuantity
  split_ifs <;> rfl

theorem releaseQuantity_reservedCash :
    (releaseQuantity position order).2.reservedCash = order.reservedCash := by
  unfold releaseQuantity
  split_ifs <;> rfl

theorem releaseQuantity_key : (releaseQuantity position order).1.key = position.key := by
  unfold releaseQuantity
  split_ifs <;> rfl

theorem releaseQuantity_congr {order order' : Order}
    (h : order'.reservedQuantity = order.reservedQuantity) :
    (releaseQuantity position order').1 = (releaseQuantity position order).1 ∧
      (releaseQuantity position order').2.reservedQuantity =
        (releaseQuantity position order).2.reservedQuantity := by
  unfold releaseQuantity
  rw [h]
  split_ifs
  · exact ⟨rfl, by simp⟩
  · exact ⟨rfl, h⟩

end Release

section Residual

variable (account : Account) (position : Option Position) (order : Order)

theorem release_account :
    (releaseResidualReservation account position order).account = (releaseCash account order).1 := by
  cases position <;> rfl

theorem release_position : (releaseResidualReservation account position order).position =
    position.map fun position => (releaseQuantity position order).1 := by
  cases position with
  | none => rfl
  | some position =>
    have hcongr := releaseQuantity_congr position (releaseCash_reservedQuantity account order)
    exact congrArg some hcongr.1

theorem release_terms : order.SameTerms (releaseResidualReservation account position order).order := by
  cases position with
  | none => exact releaseCash_terms account order
  | some position => exact (releaseCash_terms account order).trans (releaseQuantity_terms position _)

theorem release_reservedCash : (releaseResidualReservation account position order).order.reservedCash =
      (releaseCash account order).2.reservedCash := by
  cases position with
  | none => rfl
  | some position => exact releaseQuantity_reservedCash position _

theorem release_filledQuantity :
    (releaseResidualReservation account position order).order.filledQuantity = order.filledQuantity := by
  cases position with
  | none => exact releaseCash_filledQuantity account order
  | some position =>
    exact (releaseQuantity_filledQuantity position _).trans (releaseCash_filledQuantity account order)

theorem release_status :
    (releaseResidualReservation account position order).order.status = order.status := by
  cases position with
  | none => exact releaseCash_status account order
  | some position => exact (releaseQuantity_status position _).trans (releaseCash_status account order)

end Residual

section Close

variable (st : State) (order : Order) (status : OrderStatus) (reason : Reason)

theorem closed_terms : order.SameTerms (order.closed status reason) := by
  unfold Order.closed
  split_ifs <;> exact ⟨rfl, rfl, rfl, rfl, rfl, rfl, rfl, rfl, rfl⟩

theorem closed_status : (order.closed status reason).status = status := by
  unfold Order.closed
  split_ifs <;> rfl

theorem closed_reservedCash : (order.closed status reason).reservedCash = order.reservedCash := by
  unfold Order.closed
  split_ifs <;> rfl

/-- The row `_close_order` leaves. -/
def endedOrder : Order :=
  (releaseResidualReservation st.account (st.getPosition order.key) order).order.closed status reason

theorem endedOrder_terms : order.SameTerms (endedOrder st order status reason) :=
  (release_terms _ _ order).trans (closed_terms _ status reason)

theorem endedOrder_status : (endedOrder st order status reason).status = status :=
  closed_status _ status reason

theorem endedOrder_reservedCash : (endedOrder st order status reason).reservedCash =
    (releaseCash st.account order).2.reservedCash :=
  (closed_reservedCash _ status reason).trans (release_reservedCash _ _ order)

theorem closeOrder_eq : closeOrder st order status reason = { st with
    account := (releaseCash st.account order).1
    positions := match st.getPosition order.key with
      | none => st.positions
      | some position => overwrite Position.key (releaseQuantity position order).1 st.positions
    orders := st.orders.set order.orderId (endedOrder st order status reason) } := by
  have hid := (endedOrder_terms st order status reason).orderId
  unfold closeOrder
  simp only [release_position, release_account]
  cases hposition : st.getPosition order.key with
  | none =>
    simp only [endedOrder, hposition] at hid
    simp only [Option.map_none, State.setOrder, endedOrder, hposition, hid]
  | some position =>
    simp only [endedOrder, hposition] at hid
    simp only [Option.map_some, State.setOrder, State.setPosition, endedOrder, hposition, hid]

theorem closeOrder_orders : (closeOrder st order status reason).orders =
    st.orders.set order.orderId (endedOrder st order status reason) := by
  rw [closeOrder_eq]

theorem closeOrder_account : (closeOrder st order status reason).account =
    (releaseCash st.account order).1 := by
  rw [closeOrder_eq]

theorem closeOrder_fills : (closeOrder st order status reason).fills = st.fills := by
  rw [closeOrder_eq]

theorem closeOrder_session : (closeOrder st order status reason).session = st.session := by
  rw [closeOrder_eq]

theorem closeOrder_positions_keys : (closeOrder st order status reason).positions.map Position.key =
    st.positions.map Position.key := by
  rw [closeOrder_eq]
  cases hposition : st.getPosition order.key with
  | none => rfl
  | some position => exact map_key_overwrite

end Close

end FinDashboard.Simulation
