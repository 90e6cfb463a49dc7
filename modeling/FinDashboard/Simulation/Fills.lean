import FinDashboard.Simulation.Lots
import FinDashboard.Simulation.Matching

/-!
# Reservations and fills

The bookkeeping of one order: what a fill costs, what it releases of the reservation, and
how the rest of a reservation returns when the order ends. A fill that fails keeps what it
has written before the failure, as the rows of the source do.
-/

namespace FinDashboard.Simulation

open Ledger

def Position.listedBefore (p q : Position) : Prop :=
  p.symbol < q.symbol ∨ (p.symbol = q.symbol ∧ p.positionSide = .long)

instance : DecidableRel Position.listedBefore := fun p q =>
  inferInstanceAs (Decidable (p.symbol < q.symbol ∨ (p.symbol = q.symbol ∧ p.positionSide = .long)))

namespace State

variable (st : State)

def getPosition (key : String × PositionSide) : Option Position :=
  st.positions.find? fun position => position.key = key

def setPosition (position : Position) : State :=
  { st with positions := overwrite Position.key position st.positions }

def addPosition (position : Position) : State :=
  { st with positions := st.positions.orderedInsert Position.listedBefore position }

def setOrder (order : Order) : State := { st with orders := st.orders.set order.orderId order }

def addOrder (order : Order) : State := { st with orders := st.orders ++ [order] }

/-- `list_orders` with the active statuses and its limit. -/
def activeOrders : List Order := (st.orders.filter Order.isActive).take 10000

def activeOrdersOf (symbol : String) : List Order :=
  (st.orders.filter fun order => order.isActive && order.symbol = symbol).take 10000

/-- `count_active_orders`. -/
def activeCount : ℕ := (st.orders.filter Order.isActive).length

/-- `_clock_at(session).date()`, or `date.min` before the first bar. -/
def clockDate : Date := (st.session.clock.map Timestamp.date).getD 0

end State

/-- `resolve_simulation_rule` for the class of an order. -/
def Order.resolveRule (order : Order) : Except SimulationError SimulationAssetRule :=
  (resolveSimulationRule order.assetRuleKey order.market order.instrumentType order.symbol).mapError
    .ruleResolution

/-- `resolve_simulation_rule` for the class of a position. -/
def Position.resolveRule (position : Position) : Except SimulationError SimulationAssetRule :=
  (resolveSimulationRule position.assetRuleKey position.market position.instrumentType
    position.symbol).mapError .ruleResolution

variable (money : ℚ → ℚ)

def revalueAccount (st : State) : State :=
  let securities := total Position.marketValue
    (st.positions.filter fun position => position.instrumentType ≠ .futures)
  let marginUsed := total Position.marginUsed st.positions
  { st with account := { st.account with
      marginUsed
      equity := money (st.account.cash + st.account.frozenCash + marginUsed + securities) } }

/-- The account, the position and the order a release writes. -/
structure Release where
  account : Account
  position : Option Position
  order : Order

/-- The cash part of `_release_residual_reservation`. -/
def releaseCash (account : Account) (order : Order) : Account × Order :=
  if 0 < order.reservedCash then
    let release := min order.reservedCash account.frozenCash
    ({ account with frozenCash := account.frozenCash - release, cash := account.cash + release },
      { order with reservedCash := order.reservedCash - release })
  else (account, order)

/-- The quantity part of `_release_residual_reservation`. -/
def releaseQuantity (position : Position) (order : Order) : Position × Order :=
  if 0 < order.reservedQuantity then
    let releaseQty := min order.reservedQuantity position.frozenQuantity
    ({ position with
        frozenQuantity := position.frozenQuantity - releaseQty
        availableQuantity :=
          min position.totalQuantity (position.availableQuantity + releaseQty) },
      { order with reservedQuantity := order.reservedQuantity - releaseQty })
  else (position, order)

def releaseResidualReservation (account : Account) (position : Option Position) (order : Order) :
    Release :=
  let (account, order) := releaseCash account order
  match position with
  | none => { account, position := none, order }
  | some position =>
      let (position, order) := releaseQuantity position order
      { account, position := some position, order }

def Order.closed (order : Order) (status : OrderStatus) (reason : Reason) : Order :=
  if status = .rejected then
    { order with status, rejectReason := some reason,
                 rejectMessage := some [.text "模拟撮合拒绝: ", .text reason.code] }
  else { order with status }

def closeOrder (st : State) (order : Order) (status : OrderStatus) (reason : Reason) : State :=
  let release := releaseResidualReservation st.account (st.getPosition order.key) order
  let st := match release.position with
    | none => { st with account := release.account }
    | some position => { st with account := release.account }.setPosition position
  st.setOrder (release.order.closed status reason)

def reservationSlice (reserved fillQuantity remainingBefore : ℚ) : ℚ :=
  if reserved ≤ 0 ∨ remainingBefore ≤ 0 then 0
  else if remainingBefore ≤ fillQuantity then reserved
  else money (reserved * fillQuantity / remainingBefore)

def weightedFillPrice (oldAverage : Option ℚ) (oldQuantity fillPrice fillQuantity : ℚ) : ℚ :=
  match oldAverage with
  | none => fillPrice
  | some average =>
      if oldQuantity ≤ 0 then fillPrice
      else money ((average * oldQuantity + fillPrice * fillQuantity) / (oldQuantity + fillQuantity))

/-- One execution, as `_apply_fill` receives it. -/
structure Execution where
  quantity : ℚ
  fillPrice : ℚ
  rawPrice : ℚ
  filledAt : Timestamp
  sourceEventId : String
  rule : SimulationAssetRule

namespace Execution

variable (e : Execution)

def turnover : ℚ := e.quantity * e.fillPrice * e.rule.multiplier

def commission : ℚ := money (max (e.turnover * e.rule.rule.commissionRate) e.rule.rule.commissionMin)

/-- Stamp tax is charged on sales of securities. -/
def tax (side : Side) : ℚ :=
  money (if side = .sell ∧ e.rule.isFutures = false then e.turnover * e.rule.rule.stampTaxRate else 0)

def slippageCost : ℚ := money (|e.fillPrice - e.rawPrice| * e.quantity * e.rule.multiplier)

def margin : ℚ := money (e.turnover * e.rule.marginRate)

/-- What an opening fill takes from the account. -/
def needed (side : Side) : ℚ :=
  if e.rule.isFutures then e.margin money + e.commission money
  else e.turnover + e.commission money + e.tax money side

/-- The day from which a bought lot may be sold. -/
def availableOn : Date :=
  if e.rule.rule.enforceTPlus1 then e.filledAt.date + 1 else e.filledAt.date

end Execution

/-- The rows a fill works on. -/
structure FillRows where
  account : Account
  position : Position
  order : Order

/-- `_consume_released_reservation`: the account as it stands, with the error if it is short. -/
def consumeReleasedReservation (account : Account) (released needed : ℚ) :
    Account × Option SimulationRiskError :=
  let credited := { account with cash := account.cash + released }
  if credited.cash < needed then
    (credited, some ⟨.fillCashShortfall,
      [.text "成交实际需求 ", .value needed, .text " 超过已预占及可用现金"]⟩)
  else ({ credited with cash := credited.cash - needed }, none)

/-- The price a contract was last settled at. -/
def Position.settlementBasis (position : Position) : ℚ :=
  if 0 < position.lastSettlementPrice then position.lastSettlementPrice else position.averagePrice

/-- The position after an opening fill. -/
def openedPosition (position : Position) (e : Execution) : Position :=
  if e.rule.isFutures then
    let opened := increasePosition money
      { position with marginUsed := position.marginUsed + e.margin money } e.quantity e.fillPrice
      e.filledAt.date e.filledAt.date false
    let basis := (position.settlementBasis * position.totalQuantity + e.fillPrice * e.quantity) /
      opened.totalQuantity
    { opened with lastSettlementPrice := money basis }
  else increasePosition money position e.quantity e.fillPrice e.availableOn e.filledAt.date true

/-- The opening branch of `_apply_fill`. -/
def openFill (rows : FillRows) (e : Execution) : FillRows × Option SimulationRiskError :=
  let release := reservationSlice money rows.order.reservedCash e.quantity rows.order.remaining
  let needed := e.needed money rows.order.side
  if rows.account.cash + release < needed then
    (rows, some ⟨.fillCashShortfall,
      [.text "成交实际需求 ", .value needed, .text " 超过已预占及可用现金"]⟩)
  else
    let order := { rows.order with reservedCash := rows.order.reservedCash - release }
    let released := { rows.account with frozenCash := rows.account.frozenCash - release }
    match consumeReleasedReservation released release needed with
    | (account, some error) => ({ rows with account, order }, some error)
    | (account, none) =>
        let account := if e.rule.isFutures then
            { account with marginUsed := account.marginUsed + e.margin money }
          else account
        ({ account, position := openedPosition money rows.position e, order }, none)

/-- The profit a closing fill realizes. -/
def realizedBy (position : Position) (e : Execution) : ℚ :=
  if e.rule.isFutures then
    let direction : ℚ := if position.positionSide = .long then 1 else -1
    money ((e.fillPrice - position.settlementBasis) * e.rule.multiplier * e.quantity * direction)
  else money ((e.fillPrice - position.averagePrice) * e.quantity)

/-- The account after a closing fill. -/
def closedAccount (account : Account) (position : Position) (side : Side) (e : Execution) : Account :=
  if e.rule.isFutures then
    let marginRelease := reservationSlice money position.marginUsed e.quantity position.totalQuantity
    { account with
      marginUsed := account.marginUsed - marginRelease
      cash := account.cash + (marginRelease + realizedBy money position e - e.commission money) }
  else { account with
    cash := account.cash + (e.turnover - e.commission money - e.tax money side) }

/-- The closing branch of `_apply_fill`; the cash is booked before the position is reduced. -/
def closeFill (rows : FillRows) (e : Execution) : FillRows × Option SimulationRiskError :=
  let release := min rows.order.reservedQuantity e.quantity
  let order := { rows.order with reservedQuantity := rows.order.reservedQuantity - release }
  let unfrozen := { rows.position with
    frozenQuantity := max 0 (rows.position.frozenQuantity - release) }
  let account := closedAccount money rows.account unfrozen rows.order.side e
  let position := if e.rule.isFutures then { unfrozen with
      marginUsed := unfrozen.marginUsed -
        reservationSlice money unfrozen.marginUsed e.quantity unfrozen.totalQuantity }
    else unfrozen
  match decreasePosition position e.quantity e.filledAt.date (!e.rule.isFutures) with
  | .error error => ({ account, position, order }, some error)
  | .ok position =>
      ({ account, order, position := { position with
          realizedPnl := position.realizedPnl + realizedBy money unfrozen e } }, none)

def Order.filled (order : Order) (e : Execution) : Order :=
  let filledQuantity := order.filledQuantity + e.quantity
  { order with
    averageFillPrice := some
      (weightedFillPrice money order.averageFillPrice order.filledQuantity e.fillPrice e.quantity)
    filledQuantity
    status := if order.quantity ≤ filledQuantity then .filled else .partiallyFilled }

/-- The value of a position right after a fill. -/
def Position.marked (position : Position) (e : Execution) : Position :=
  if e.rule.isFutures then { position with lastPrice := e.fillPrice }
  else { position with
    lastPrice := e.fillPrice
    marketValue := money (position.totalQuantity * e.fillPrice)
    unrealizedPnl := money ((e.fillPrice - position.averagePrice) * position.totalQuantity) }

def fillRow (order : Order) (e : Execution) : Fill where
  eventKey := ⟨e.sourceEventId, order.orderId, order.filledQuantity⟩
  orderId := order.orderId
  symbol := order.symbol
  positionSide := order.positionSide
  positionEffect := order.positionEffect
  side := order.side
  quantity := e.quantity
  price := e.fillPrice
  commission := e.commission money
  tax := e.tax money order.side
  slippageCost := e.slippageCost money
  filledAt := e.filledAt

/-- The rest of `_apply_fill` once cash and position are booked; `order` is the row before. -/
def settleFill (st : State) (order : Order) (rows : FillRows) (e : Execution) : State × Order :=
  let filled := rows.order.filled money e
  let position := rows.position.marked money e
  let release := if filled.status = .filled then
      releaseResidualReservation rows.account (some position) filled
    else { account := rows.account, position := some position, order := filled }
  let st := { st with account := release.account }.setPosition (release.position.getD position)
  let st := revalueAccount money (st.setOrder release.order)
  ({ st with fills := st.fills ++ [fillRow money order e] }, release.order)

def ensurePosition (st : State) (order : Order) (fillPrice : ℚ) : State × Position :=
  match st.getPosition order.key with
  | some position => (st, position)
  | none =>
      let position : Position := {
        symbol := order.symbol, market := order.market, instrumentType := order.instrumentType,
        assetRuleKey := order.assetRuleKey, positionSide := order.positionSide,
        lastPrice := fillPrice }
      (st.addPosition position, position)

/-- What `_apply_fill` leaves behind: the rows, the order as it stands, and the fill or the
error it ends with. -/
structure FillResult where
  state : State
  order : Order
  outcome : Except SimulationRiskError ℕ

def applyFill (st : State) (order : Order) (e : Execution) : FillResult :=
  let eventKey : FillEventKey := ⟨e.sourceEventId, order.orderId, order.filledQuantity⟩
  match st.fills.findIdx? (fun fill => fill.eventKey = eventKey) with
  | some existing => { state := st, order, outcome := .ok existing }
  | none =>
      let (st, position) := ensurePosition st order e.fillPrice
      let rows : FillRows := { account := st.account, position, order }
      let booked := match order.positionEffect with
        | .open => openFill money rows e
        | .close => closeFill money rows e
      match booked with
      | (rows, some error) =>
          let st := ({ st with account := rows.account }.setPosition rows.position).setOrder rows.order
          { state := st, order := rows.order, outcome := .error error }
      | (rows, none) =>
          let (settled, order) := settleFill money st order rows e
          { state := settled, order, outcome := .ok st.fills.length }

end FinDashboard.Simulation
