import FinDashboard.Simulation.Rows

/-!
# The three ends of a fill

A fill is known already, fails with the rows it had written, or is booked. What each branch
writes is stated once; a booked fill then settles its order.
-/

namespace FinDashboard.Simulation

open Ledger List

variable {money : ℚ → ℚ}

/-- The branch of `_apply_fill` an order takes. -/
def bookRows (money : ℚ → ℚ) (rows : FillRows) (e : Execution) : FillRows × Option SimulationRiskError :=
  match rows.order.positionEffect with
  | .open => openFill money rows e
  | .close => closeFill money rows e

def fillRows (st : State) (order : Order) (e : Execution) : FillRows where
  account := st.account
  position := (ensurePosition st order e.fillPrice).2
  order := order

def State.withRows (st : State) (rows : FillRows) : State :=
  ({ st with account := rows.account }.setPosition rows.position).setOrder rows.order

/-- How a fill ends. -/
inductive FillStep (money : ℚ → ℚ) (st : State) (order : Order) (e : Execution) : FillResult → Prop
  | known (existing : ℕ) : FillStep money st order e { state := st, order, outcome := .ok existing }
  | failed {rows : FillRows} {error : SimulationRiskError}
      (h : bookRows money (fillRows st order e) e = (rows, some error)) :
      FillStep money st order e {
        state := (ensurePosition st order e.fillPrice).1.withRows rows
        order := rows.order, outcome := .error error }
  | booked {rows : FillRows} (h : bookRows money (fillRows st order e) e = (rows, none)) :
      FillStep money st order e {
        state := (settleFill money (ensurePosition st order e.fillPrice).1 order rows e).1
        order := (settleFill money (ensurePosition st order e.fillPrice).1 order rows e).2
        outcome := .ok (ensurePosition st order e.fillPrice).1.fills.length }

/-- Looking a position up, or creating it, writes the positions only. -/
theorem ensurePosition_eq (st : State) (order : Order) (price : ℚ) :
    (ensurePosition st order price).1 =
      { st with positions := (ensurePosition st order price).1.positions } := by
  unfold ensurePosition
  cases st.getPosition order.key <;> rfl

theorem applyFill_step (st : State) (order : Order) (e : Execution) :
    FillStep money st order e (applyFill money st order e) := by
  have haccount : (ensurePosition st order e.fillPrice).1.account = st.account := by
    rw [ensurePosition_eq]
  unfold applyFill
  simp only
  cases st.fills.findIdx? (fun fill =>
      fill.eventKey = (⟨e.sourceEventId, order.orderId, order.filledQuantity⟩ : FillEventKey)) with
  | some existing => exact .known existing
  | none =>
    rw [haccount]
    dsimp only
    split
    case _ rows error hbook => exact .failed hbook
    case _ rows hbook => exact .booked hbook

section Open

variable {rows rows' : FillRows} {e : Execution}

/-- The part of the reservation an opening fill releases. -/
def releasedBy (money : ℚ → ℚ) (order : Order) (e : Execution) : ℚ :=
  reservationSlice money order.reservedCash e.quantity order.remaining

def openedRows (money : ℚ → ℚ) (rows : FillRows) (e : Execution) : FillRows where
  account := { rows.account with
    cash := rows.account.cash + releasedBy money rows.order e - e.needed money rows.order.side
    frozenCash := rows.account.frozenCash - releasedBy money rows.order e
    marginUsed := if e.rule.isFutures then rows.account.marginUsed + e.margin money
      else rows.account.marginUsed }
  position := openedPosition money rows.position e
  order := { rows.order with
    reservedCash := rows.order.reservedCash - releasedBy money rows.order e }

/-- The first check of the cash is the one that decides. -/
theorem openFill_eq : openFill money rows e =
    if rows.account.cash + releasedBy money rows.order e < e.needed money rows.order.side then
      (rows, some ⟨.fillCashShortfall, [.text "成交实际需求 ",
        .value (e.needed money rows.order.side), .text " 超过已预占及可用现金"]⟩)
    else (openedRows money rows e, none) := by
  by_cases hshort : rows.account.cash + releasedBy money rows.order e < e.needed money rows.order.side
  · rw [if_pos hshort]
    unfold releasedBy at hshort
    simp only [openFill, if_pos hshort]
  · rw [if_neg hshort]
    unfold releasedBy at hshort
    by_cases hfutures : e.rule.isFutures = true <;>
      simp [openFill, consumeReleasedReservation, if_neg hshort, openedRows, releasedBy, hfutures]

theorem openFill_failed {error : SimulationRiskError}
    (h : openFill money rows e = (rows', some error)) : rows' = rows := by
  rw [openFill_eq] at h
  by_cases hshort : rows.account.cash + releasedBy money rows.order e < e.needed money rows.order.side
  · rw [if_pos hshort] at h
    exact (Prod.mk.inj h).1.symm
  · rw [if_neg hshort] at h
    exact absurd (Prod.mk.inj h).2 (by simp)

theorem openFill_booked (h : openFill money rows e = (rows', none)) :
    e.needed money rows.order.side ≤ rows.account.cash + releasedBy money rows.order e ∧
      rows' = openedRows money rows e := by
  rw [openFill_eq] at h
  by_cases hshort : rows.account.cash + releasedBy money rows.order e < e.needed money rows.order.side
  · rw [if_pos hshort] at h
    exact absurd (Prod.mk.inj h).2 (by simp)
  · rw [if_neg hshort] at h
    exact ⟨not_lt.mp hshort, (Prod.mk.inj h).1.symm⟩

end Open

section Close

variable {rows rows' : FillRows} {e : Execution}

def unfrozenPosition (money : ℚ → ℚ) (rows : FillRows) (e : Execution) : Position :=
  { rows.position with
    frozenQuantity := max 0 (rows.position.frozenQuantity - min rows.order.reservedQuantity e.quantity)
    marginUsed := if e.rule.isFutures then rows.position.marginUsed -
        reservationSlice money rows.position.marginUsed e.quantity rows.position.totalQuantity
      else rows.position.marginUsed }

/-- The order a closing fill writes before it is settled. -/
def unreservedOrder (order : Order) (e : Execution) : Order :=
  { order with reservedQuantity := order.reservedQuantity - min order.reservedQuantity e.quantity }

def closedRows (money : ℚ → ℚ) (rows : FillRows) (e : Execution) (position : Position) : FillRows where
  account := closedAccount money rows.account rows.position rows.order.side e
  position := position
  order := unreservedOrder rows.order e

theorem closeFill_eq : closeFill money rows e =
    match decreasePosition (unfrozenPosition money rows e) e.quantity e.filledAt.date
      (!e.rule.isFutures) with
    | .error error => (closedRows money rows e (unfrozenPosition money rows e), some error)
    | .ok sold => (closedRows money rows e { sold with
        realizedPnl := sold.realizedPnl + realizedBy money rows.position e }, none) := by
  unfold closeFill unfrozenPosition
  by_cases hfutures : e.rule.isFutures = true
  · simp only [hfutures, if_true, Bool.not_true]
    generalize decreasePosition _ _ _ _ = sold
    cases sold <;> rfl
  · simp only [hfutures, if_false, Bool.false_eq_true]
    generalize decreasePosition _ _ _ _ = sold
    cases sold <;> rfl

theorem closeFill_booked (h : closeFill money rows e = (rows', none)) :
    ∃ sold, decreasePosition (unfrozenPosition money rows e) e.quantity e.filledAt.date
        (!e.rule.isFutures) = .ok sold ∧
      rows' = closedRows money rows e { sold with
        realizedPnl := sold.realizedPnl + realizedBy money rows.position e } := by
  rw [closeFill_eq] at h
  cases hsold : decreasePosition (unfrozenPosition money rows e) e.quantity e.filledAt.date
      (!e.rule.isFutures) with
  | error error =>
    rw [hsold] at h
    exact absurd (Prod.mk.inj h).2 (by simp)
  | ok sold =>
    rw [hsold] at h
    exact ⟨sold, rfl, (Prod.mk.inj h).1.symm⟩

theorem closeFill_failed {error : SimulationRiskError}
    (h : closeFill money rows e = (rows', some error)) :
    decreasePosition (unfrozenPosition money rows e) e.quantity e.filledAt.date
        (!e.rule.isFutures) = .error error ∧
      rows' = closedRows money rows e (unfrozenPosition money rows e) := by
  rw [closeFill_eq] at h
  cases hsold : decreasePosition (unfrozenPosition money rows e) e.quantity e.filledAt.date
      (!e.rule.isFutures) with
  | error raised =>
    rw [hsold] at h
    obtain ⟨hrows, herror⟩ := Prod.mk.inj h
    exact ⟨congrArg Except.error (Option.some.inj herror), hrows.symm⟩
  | ok sold =>
    rw [hsold] at h
    exact absurd (Prod.mk.inj h).2 (by simp)

end Close

variable (position : Position)

theorem increasePosition_key (quantity price : ℚ) (availableOn asOf : Date) (trackLot : Bool) :
    (increasePosition money position quantity price availableOn asOf trackLot).key = position.key := by
  cases trackLot <;> rfl

theorem openedPosition_key (e : Execution) : (openedPosition money position e).key = position.key := by
  by_cases hfutures : e.rule.isFutures = true
  · simp only [openedPosition, hfutures, if_true]
    exact increasePosition_key _ _ _ _ _ _
  · simp only [openedPosition, hfutures, if_false, Bool.false_eq_true]
    exact increasePosition_key _ _ _ _ _ _

/-- The position a sale leaves when it keeps `lots`. -/
def soldPosition (position : Position) (quantity : ℚ) (lots : List Lot) (asOf : Date)
    (trackLot : Bool) : Position :=
  let sold : Position := { position with lots, totalQuantity := position.totalQuantity - quantity }
  if sold.totalQuantity ≤ 0 then
    { sold with totalQuantity := 0, averagePrice := 0, availableQuantity := 0,
                frozenQuantity := 0, lots := [] }
  else
    let base := if trackLot then sold.maturedQuantity asOf else sold.totalQuantity
    { sold with availableQuantity := max 0 (base - sold.frozenQuantity) }

variable {trackLot : Bool} {quantity : ℚ} {asOf : Date}

theorem decreasePosition_ok {position sold : Position}
    (h : decreasePosition position quantity asOf trackLot = .ok sold) :
    quantity ≤ position.totalQuantity ∧ ∃ lots, lotsAfterSale position quantity trackLot = .ok lots ∧
      sold = soldPosition position quantity lots asOf trackLot := by
  unfold decreasePosition at h
  by_cases hunder : position.totalQuantity < quantity
  · rw [if_pos hunder] at h
    cases h
  · rw [if_neg hunder] at h
    refine ⟨not_lt.mp hunder, ?_⟩
    cases hlots : lotsAfterSale position quantity trackLot with
    | error error =>
      rw [hlots] at h
      cases h
    | ok lots =>
      refine ⟨lots, rfl, ?_⟩
      rw [hlots] at h
      unfold soldPosition
      by_cases hempty : position.totalQuantity - quantity ≤ 0
      · simp only [if_pos hempty] at h ⊢
        exact (Except.ok.inj h).symm
      · simp only [if_neg hempty] at h ⊢
        exact (Except.ok.inj h).symm

theorem decreasePosition_of_covered {position : Position}
    {lots : List Lot} (htotal : quantity ≤ position.totalQuantity)
    (hlots : lotsAfterSale position quantity trackLot = .ok lots) :
    decreasePosition position quantity asOf trackLot =
      .ok (soldPosition position quantity lots asOf trackLot) := by
  unfold decreasePosition soldPosition
  rw [if_neg (not_lt.mpr htotal), hlots]
  by_cases hempty : position.totalQuantity - quantity ≤ 0
  · simp only [if_pos hempty]
  · simp only [if_neg hempty]

theorem soldPosition_key (quantity : ℚ) (lots : List Lot) (asOf : Date)
    (trackLot : Bool) : (soldPosition position quantity lots asOf trackLot).key = position.key := by
  unfold soldPosition
  simp only
  split_ifs <;> rfl

theorem decreasePosition_key {position sold : Position}
    (h : decreasePosition position quantity asOf trackLot = .ok sold) : sold.key = position.key := by
  obtain ⟨-, lots, -, hsold⟩ := decreasePosition_ok h
  rw [hsold, soldPosition_key]

theorem marked_key (e : Execution) : (position.marked money e).key = position.key := by
  unfold Position.marked
  split_ifs <;> rfl

theorem bookRows_terms {rows rows' : FillRows} {e : Execution} {error : Option SimulationRiskError}
    (h : bookRows money rows e = (rows', error)) :
    rows.order.SameTerms rows'.order ∧ rows'.position.key = rows.position.key := by
  unfold bookRows at h
  cases heffect : rows.order.positionEffect with
  | «open» =>
    rw [heffect] at h
    cases error with
    | none =>
      rw [(openFill_booked h).2]
      exact ⟨⟨rfl, rfl, rfl, rfl, rfl, rfl, rfl, rfl, rfl⟩, openedPosition_key _ _⟩
    | some error =>
      rw [openFill_failed h]
      exact ⟨.refl _, rfl⟩
  | close =>
    rw [heffect] at h
    cases error with
    | none =>
      obtain ⟨sold, hsold, hrows⟩ := closeFill_booked h
      rw [hrows]
      have hkey := decreasePosition_key hsold
      exact ⟨⟨rfl, rfl, rfl, rfl, rfl, rfl, rfl, rfl, rfl⟩, hkey⟩
    | some error =>
      rw [(closeFill_failed h).2]
      exact ⟨⟨rfl, rfl, rfl, rfl, rfl, rfl, rfl, rfl, rfl⟩, rfl⟩

theorem bookRows_progress {rows rows' : FillRows} {e : Execution} {error : Option SimulationRiskError}
    (h : bookRows money rows e = (rows', error)) :
    rows'.order.filledQuantity = rows.order.filledQuantity ∧ rows'.order.status = rows.order.status := by
  unfold bookRows at h
  cases heffect : rows.order.positionEffect with
  | «open» =>
    rw [heffect] at h
    cases error with
    | none =>
      rw [(openFill_booked h).2]
      exact ⟨rfl, rfl⟩
    | some error =>
      rw [openFill_failed h]
      exact ⟨rfl, rfl⟩
  | close =>
    rw [heffect] at h
    cases error with
    | none =>
      obtain ⟨sold, -, hrows⟩ := closeFill_booked h
      rw [hrows]
      exact ⟨rfl, rfl⟩
    | some error =>
      rw [(closeFill_failed h).2]
      exact ⟨rfl, rfl⟩

theorem isActive_iff {order : Order} : order.isActive = true ↔
    order.status = .submitted ∨ order.status = .acknowledged ∨ order.status = .partiallyFilled := by
  simp [Order.isActive]

section Settle

variable (money) (st : State) (order : Order) (rows : FillRows) (e : Execution)

def settledAccount : Account :=
  if (rows.order.filled money e).status = .filled then
    (releaseCash rows.account (rows.order.filled money e)).1
  else rows.account

def settledPosition : Position :=
  if (rows.order.filled money e).status = .filled then
    (releaseQuantity (rows.position.marked money e) (rows.order.filled money e)).1
  else rows.position.marked money e

def settledOrder : Order :=
  if (rows.order.filled money e).status = .filled then
    (releaseResidualReservation rows.account (some (rows.position.marked money e))
      (rows.order.filled money e)).order
  else rows.order.filled money e

theorem filled_terms : rows.order.SameTerms (rows.order.filled money e) :=
  ⟨rfl, rfl, rfl, rfl, rfl, rfl, rfl, rfl, rfl⟩

theorem settledOrder_terms : rows.order.SameTerms (settledOrder money rows e) := by
  unfold settledOrder
  split_ifs
  · exact (filled_terms money rows e).trans (release_terms _ _ _)
  · exact filled_terms money rows e

theorem settledOrder_status :
    (settledOrder money rows e).status = (rows.order.filled money e).status := by
  unfold settledOrder
  split_ifs
  · exact release_status _ _ _
  · rfl

theorem settledOrder_filledQuantity :
    (settledOrder money rows e).filledQuantity = rows.order.filledQuantity + e.quantity := by
  unfold settledOrder
  split_ifs
  · exact release_filledQuantity _ _ _
  · rfl

theorem settledPosition_key : (settledPosition money rows e).key = rows.position.key := by
  unfold settledPosition
  split_ifs
  · rw [releaseQuantity_key, marked_key]
  · exact marked_key _ _

theorem settledAccount_sum : (settledAccount money rows e).cash +
    (settledAccount money rows e).frozenCash = rows.account.cash + rows.account.frozenCash := by
  unfold settledAccount
  split_ifs
  · exact releaseCash_sum _ _
  · rfl

theorem settledAccount_initialCash :
    (settledAccount money rows e).initialCash = rows.account.initialCash := by
  unfold settledAccount
  split_ifs
  · exact releaseCash_initialCash _ _
  · rfl

theorem filled_status : (rows.order.filled money e).status =
    if rows.order.quantity ≤ rows.order.filledQuantity + e.quantity then .filled
    else .partiallyFilled := rfl

/-- The order is active exactly when something is left to fill. -/
theorem settledOrder_isActive : (settledOrder money rows e).isActive = true ↔
    e.quantity < rows.order.remaining := by
  unfold Order.isActive Order.remaining
  rw [settledOrder_status, filled_status]
  split_ifs with hdone
  · simp only [mem_cons, reduceCtorEq, not_mem_nil, or_self, decide_false,
      Bool.false_eq_true, false_iff, not_lt]
    linarith
  · simp only [mem_cons, reduceCtorEq, not_mem_nil, or_false, or_true, decide_true, true_iff]
    linarith

theorem settledOrder_reservedCash : (settledOrder money rows e).reservedCash =
    if (rows.order.filled money e).status = .filled then
      (releaseCash rows.account (rows.order.filled money e)).2.reservedCash
    else rows.order.reservedCash := by
  unfold settledOrder
  split_ifs
  · exact release_reservedCash _ _ _
  · rfl

theorem settled_of_nothing (h : rows.order.reservedQuantity ≤ 0 ∨ e.quantity < rows.order.remaining) :
    settledPosition money rows e = rows.position.marked money e ∧
      (settledOrder money rows e).reservedQuantity = rows.order.reservedQuantity := by
  by_cases hfilled : (rows.order.filled money e).status = .filled
  · have hnothing : ¬0 < (rows.order.filled money e).reservedQuantity := by
      obtain hnothing | hleft := h
      · exact not_lt.mpr hnothing
      · rw [← settledOrder_isActive money, isActive_iff, settledOrder_status, hfilled] at hleft
        simp at hleft
    have hposition : ∀ position : Position, ∀ order : Order,
        order.reservedQuantity = (rows.order.filled money e).reservedQuantity →
          releaseQuantity position order = (position, order) := by
      intro position order hsame
      unfold releaseQuantity
      rw [hsame, if_neg hnothing]
    constructor
    · rw [settledPosition, if_pos hfilled, hposition _ _ rfl]
    · have hreleased := releaseCash_reservedQuantity rows.account (rows.order.filled money e)
      rw [settledOrder, if_pos hfilled, releaseResidualReservation]
      simp only [hposition _ _ hreleased, hreleased]
      rfl
  · rw [settledPosition, settledOrder, if_neg hfilled, if_neg hfilled]
    exact ⟨rfl, rfl⟩

theorem settleFill_eq : settleFill money st order rows e =
    ({ revalueAccount money { st with
          account := settledAccount money rows e
          positions := overwrite Position.key (settledPosition money rows e) st.positions
          orders := st.orders.set (settledOrder money rows e).orderId (settledOrder money rows e) } with
        fills := st.fills ++ [fillRow money order e] }, settledOrder money rows e) := by
  by_cases hfilled : (rows.order.filled money e).status = .filled
  · simp only [settleFill, settledAccount, settledPosition, settledOrder, if_pos hfilled,
      release_position, release_account, Option.map_some, Option.getD_some, State.setPosition,
      State.setOrder, revalueAccount]
  · simp only [settleFill, settledAccount, settledPosition, settledOrder, if_neg hfilled,
      Option.getD_some, State.setPosition, State.setOrder, revalueAccount]

end Settle

/-- Two rows of a position that are carried alike. -/
structure Position.SameValue (position position' : Position) : Prop where
  key : position'.key = position.key
  totalQuantity : position'.totalQuantity = position.totalQuantity
  averagePrice : position'.averagePrice = position.averagePrice
  lastSettlementPrice : position'.lastSettlementPrice = position.lastSettlementPrice
  marginUsed : position'.marginUsed = position.marginUsed

theorem releaseQuantity_sameValue (order : Order) :
    position.SameValue (releaseQuantity position order).1 := by
  unfold releaseQuantity
  split_ifs <;> exact ⟨rfl, rfl, rfl, rfl, rfl⟩

theorem settledPosition_sameValue (money : ℚ → ℚ) (rows : FillRows) (e : Execution) :
    rows.position.SameValue (settledPosition money rows e) := by
  have hmarked : rows.position.SameValue (rows.position.marked money e) := by
    unfold Position.marked
    split_ifs <;> exact ⟨rfl, rfl, rfl, rfl, rfl⟩
  unfold settledPosition
  split_ifs
  · have hreleased := releaseQuantity_sameValue (rows.position.marked money e)
      (rows.order.filled money e)
    exact ⟨hreleased.key.trans hmarked.key, hreleased.totalQuantity.trans hmarked.totalQuantity,
      hreleased.averagePrice.trans hmarked.averagePrice,
      hreleased.lastSettlementPrice.trans hmarked.lastSettlementPrice,
      hreleased.marginUsed.trans hmarked.marginUsed⟩
  · exact hmarked

/-- A covered sale takes its quantity and leaves the prices, the average too unless it ends the
position. -/
theorem soldPosition_fields {position : Position} {lots : List Lot}
    (hquantity : quantity ≤ position.totalQuantity) :
    (soldPosition position quantity lots asOf trackLot).totalQuantity =
        position.totalQuantity - quantity ∧
      (soldPosition position quantity lots asOf trackLot).marginUsed = position.marginUsed ∧
      (soldPosition position quantity lots asOf trackLot).lastSettlementPrice =
        position.lastSettlementPrice ∧
      ((soldPosition position quantity lots asOf trackLot).averagePrice = position.averagePrice ∨
        position.totalQuantity - quantity = 0 ∧
          (soldPosition position quantity lots asOf trackLot).averagePrice = 0) := by
  unfold soldPosition
  by_cases hempty : position.totalQuantity - quantity ≤ 0
  · have hzero := le_antisymm hempty (sub_nonneg.mpr hquantity)
    simp only [if_pos hempty]
    exact ⟨hzero.symm, trivial, trivial, Or.inr ⟨hzero, trivial⟩⟩
  · simp only [if_neg hempty]
    exact ⟨trivial, trivial, trivial, Or.inl trivial⟩

theorem openedPosition_totalQuantity (money : ℚ → ℚ) (position : Position) (e : Execution) :
    (openedPosition money position e).totalQuantity = position.totalQuantity + e.quantity := by
  unfold openedPosition
  split_ifs <;> rfl

section Frames

variable (st : State) (order : Order) (e : Execution)

theorem fillRows_order : (fillRows st order e).order = order := rfl

theorem applyFill_terms : order.SameTerms (applyFill money st order e).order := by
  have hstep : FillStep money st order e _ := applyFill_step st order e
  generalize applyFill money st order e = result at hstep ⊢
  cases hstep with
  | known existing => exact .refl order
  | failed h => exact (bookRows_terms h).1
  | booked h =>
    rw [settleFill_eq]
    exact (bookRows_terms h).1.trans (settledOrder_terms money _ e)

theorem applyFill_orders (hlisted : st.Listed order) : (applyFill money st order e).state.orders =
    st.orders.set order.orderId (applyFill money st order e).order := by
  have hensured : (ensurePosition st order e.fillPrice).1.orders = st.orders := by
    rw [ensurePosition_eq]
  have hstep : FillStep money st order e _ := applyFill_step st order e
  generalize applyFill money st order e = result at hstep ⊢
  cases hstep with
  | known existing =>
    obtain ⟨hlt, hrow⟩ := List.getElem?_eq_some_iff.mp hlisted
    have hsame : st.orders.set order.orderId st.orders[order.orderId] = st.orders :=
      set_getElem_self hlt
    rw [hrow] at hsame
    exact hsame.symm
  | failed h =>
    have hid := (bookRows_terms h).1.orderId
    rw [fillRows_order] at hid
    rw [← hid, ← hensured]
    rfl
  | booked h =>
    have hid := ((bookRows_terms h).1.trans (settledOrder_terms money _ e)).orderId
    rw [fillRows_order] at hid
    rw [settleFill_eq, ← hid, ← hensured]
    rfl

end Frames

end FinDashboard.Simulation
