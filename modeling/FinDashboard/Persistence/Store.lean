import FinDashboard.Async.Coroutine
import FinDashboard.Broker.Adapter
import FinDashboard.Core.StateMachine
import Mathlib.Algebra.BigOperators.Group.List.Basic

/-!
# The process memory and the database session of the trading core

One asynchronous session backs every repository, so a row that a task has written is seen
by every later read of any task. Rows keep their insertion order, which is the order
`list_active` returns them in. The four logs at the end record what was handed to the
broker, which fills the state machine admitted and which reached the position; no modelled
function reads them.
-/

namespace FinDashboard

/-- The exceptions of the trading core. -/
inductive TradingError
  | invalidStateTransition (source target : OrderStatus)
  | kernelNotReady
  | accountMismatch (requested managed : AccountId)
  | orderNotFound (clientOrderId : ClientOrderId)
  | orderNotCancellable (clientOrderId : ClientOrderId) (status : OrderStatus)
  | duplicateOrder (clientOrderId : ClientOrderId)
  | orderRowMissing (clientOrderId : ClientOrderId)
  | brokerTimeout
  | brokerFailure
  | riskCheck (reason : RejectReason) (message : List MessagePart)
  | killSwitchActive (level : KillSwitchLevel) (side : Side) (symbol : Symbol)
  deriving DecidableEq, Repr

/-- The shared state of the trading core. -/
structure Store where
  /-- `OrderManager._inflight`: the cached order objects. -/
  inflight : ClientOrderId → Option Order := fun _ => none
  orders : List Order := []
  fills : List Fill := []
  /-- Rows of the local position source. -/
  positions : List Position := []
  /-- The stored account snapshots. -/
  accounts : AccountId → Option Account := fun _ => none
  /-- `TradingKernel._ready`. -/
  ready : Bool := false
  killSwitch : KillSwitchLevel := .off
  /-- `PreTradeChecker._call_timestamps`, oldest first. -/
  callTimestamps : List ℤ := []
  submissions : List ClientOrderId := []
  cancelRequests : List ClientOrderId := []
  bookedFills : List Fill := []
  appliedFills : List Fill := []

def Store.cache (s : Store) (clientOrderId : ClientOrderId) (order : Order) : Store :=
  { s with inflight := Function.update s.inflight clientOrderId (some order) }

def Store.insertOrder (s : Store) (order : Order) : Store := { s with orders := s.orders ++ [order] }

namespace Persistence

abbrev Session (α : Type) := Async.Block Store TradingError α

/-- `order_from_orm`: the rejection columns are not restored. -/
def orderFromOrm (row : Order) : Order := { row with rejectReason := none, rejectMessage := none }

/-- The statuses selected by `OrderRepository.list_active`. -/
def listActiveStatuses : List OrderStatus :=
  [.created, .riskChecked, .submitting, .submitted, .acknowledged, .partiallyFilled,
    .cancelPending, .unknown]

def findOrder (s : Store) (clientOrderId : ClientOrderId) : Option Order :=
  s.orders.find? fun row => row.clientOrderId = clientOrderId

/-- `OrderRepository.get`. -/
def getOrder (s : Store) (clientOrderId : ClientOrderId) : Option Order :=
  (findOrder s clientOrderId).map orderFromOrm

/-- The rows `list_active` selects. -/
def activeRows (s : Store) (accountId : AccountId) : List Order :=
  s.orders.filter fun row => row.accountId = accountId && row.status ∈ listActiveStatuses

/-- `OrderRepository.list_active`: fresh objects, independent of the cache. -/
def listActive (s : Store) (accountId : AccountId) : List Order :=
  (activeRows s accountId).map orderFromOrm

/-- `OrderRepository.add`; the unique index rejects a second row with the same id. -/
def addOrder (order : Order) : Session Unit := do
  if (findOrder (← get) order.clientOrderId).isSome then
    throw (.duplicateOrder order.clientOrderId)
  modify fun s => s.insertOrder order

/-- The columns `OrderRepository.update_state` writes back. -/
def writeState (order row : Order) : Order :=
  { row with
    brokerOrderId := order.brokerOrderId
    filledQuantity := order.filledQuantity
    averageFillPrice := order.averageFillPrice
    status := order.status
    rejectReason := order.rejectReason
    rejectMessage := order.rejectMessage }

def updateRow (clientOrderId : ClientOrderId) (change : Order → Order) (row : Order) : Order :=
  if row.clientOrderId = clientOrderId then change row else row

/-- Write the state columns of an order to its row. -/
def persist (s : Store) (order : Order) : Store :=
  { s with orders := s.orders.map (updateRow order.clientOrderId (writeState order)) }

/-- `OrderRepository.update_state`: the given object is the truth for the state columns. -/
def updateState (order : Order) : Session Unit := do
  if (findOrder (← get) order.clientOrderId).isNone then
    throw (.orderRowMissing order.clientOrderId)
  modify fun s => persist s order

/-- `FillRepository.get`. -/
def getFill (s : Store) (fillId : String) : Option Fill :=
  s.fills.find? fun row => row.fillId = fillId

/-- `FillRepository.add`: a fill id is stored once. -/
def addFill (fill : Fill) : Session Unit :=
  modify fun s =>
    if (getFill s fill.fillId).isSome then s else { s with fills := s.fills ++ [fill] }

/-- A stored fill that `sum_buy_value_since` counts. -/
def isBuySince (s : Store) (accountId : AccountId) (since : ℤ) (fill : Fill) : Bool :=
  s.orders.any (fun row => row.accountId = accountId && row.clientOrderId = fill.clientOrderId) &&
    fill.side = .buy && since ≤ fill.filledAt

/-- `FillRepository.sum_buy_value_since`, over the orders of an account. -/
def sumBuyValueSince (s : Store) (accountId : AccountId) (since : ℤ) : ℚ :=
  ((s.fills.filter (isBuySince s accountId since)).map fun fill => fill.price * fill.quantity).sum

def listLocal (s : Store) (accountId : AccountId) : List Position :=
  s.positions.filter fun row => row.accountId = accountId

/-- Two positions occupy the same row of the local source. -/
def samePosition (position row : Position) : Bool :=
  row.accountId = position.accountId && row.symbol.code = position.symbol.code &&
    row.positionSide = position.positionSide

/-- Overwrite the quantities of the row a position occupies; key columns stay. -/
def writePosition (position row : Position) : Position :=
  if samePosition position row then
    { row with
      totalQuantity := position.totalQuantity
      availableQuantity := position.availableQuantity
      averagePrice := position.averagePrice
      marketValue := position.marketValue }
  else row

def upsertLocal (position : Position) (s : Store) : Store :=
  if s.positions.any (samePosition position) then
    { s with positions := s.positions.map (writePosition position) }
  else { s with positions := s.positions ++ [position] }

/-- `AccountRepository.upsert`. -/
def upsertAccount (account : Account) : Session Unit :=
  modify fun s => { s with accounts := Function.update s.accounts account.accountId (some account) }

theorem mem_listActiveStatuses (status : OrderStatus) :
    status ∈ listActiveStatuses ↔ status.isActive = true := by
  cases status <;> decide

/-- A found row carries the id it was looked up with. -/
theorem findOrder_clientOrderId {s : Store} {clientOrderId : ClientOrderId} {row : Order}
    (h : findOrder s clientOrderId = some row) : row.clientOrderId = clientOrderId := by
  simpa using List.find?_some h

theorem findOrder_mem {s : Store} {clientOrderId : ClientOrderId} {row : Order}
    (h : findOrder s clientOrderId = some row) : row ∈ s.orders := List.mem_of_find?_eq_some h

/-- An order has a row exactly when some row carries its id. -/
theorem findOrder_isSome {s : Store} {clientOrderId : ClientOrderId} :
    (findOrder s clientOrderId).isSome ↔ ∃ row ∈ s.orders, row.clientOrderId = clientOrderId := by
  simp [findOrder]

section Effects

variable (s : Store) (order : Order)

@[simp] theorem inflight_persist : (persist s order).inflight = s.inflight := rfl

@[simp] theorem fills_persist : (persist s order).fills = s.fills := rfl

@[simp] theorem inflight_insertOrder : (s.insertOrder order).inflight = s.inflight := rfl

@[simp] theorem fills_insertOrder : (s.insertOrder order).fills = s.fills := rfl

@[simp] theorem orders_insertOrder : (s.insertOrder order).orders = s.orders ++ [order] := rfl

variable (clientOrderId : ClientOrderId)

@[simp] theorem orders_cache :
    (s.cache clientOrderId order).orders = s.orders := rfl

@[simp] theorem fills_cache :
    (s.cache clientOrderId order).fills = s.fills := rfl

@[simp] theorem inflight_cache :
    (s.cache clientOrderId order).inflight =
      Function.update s.inflight clientOrderId (some order) := rfl

theorem inflight_cache_self :
    (s.cache clientOrderId order).inflight clientOrderId = some order := by simp

@[simp] theorem clientOrderId_updateRow (row : Order) :
    (updateRow clientOrderId (writeState order) row).clientOrderId = row.clientOrderId := by
  unfold updateRow
  split <;> rfl

@[simp] theorem findOrder_cache (clientOrderId other : ClientOrderId) :
    findOrder (s.cache clientOrderId order) other = findOrder s other := rfl

theorem findOrder_persist : findOrder (persist s order) clientOrderId =
      (findOrder s clientOrderId).map (updateRow order.clientOrderId (writeState order)) := by
  unfold findOrder persist
  rw [List.find?_map]
  congr 2
  funext row
  simp

/-- An inserted row is found under its id and hides no other. -/
theorem findOrder_insertOrder : findOrder (s.insertOrder order) clientOrderId =
      (findOrder s clientOrderId).or
        (if order.clientOrderId = clientOrderId then some order else none) := by
  unfold findOrder Store.insertOrder
  rw [List.find?_append]
  by_cases h : order.clientOrderId = clientOrderId <;> simp [h]

/-- `add` either finds the id taken or appends the row. -/
theorem exec_addOrder : (addOrder order).exec s = if (findOrder s order.clientOrderId).isSome then
      (.error (.duplicateOrder order.clientOrderId), s) else (.ok (), s.insertOrder order) := by
  unfold addOrder
  cases h : findOrder s order.clientOrderId <;> simp [Async.Block.exec_bind, h]

/-- `update_state` either misses the row or writes it. -/
theorem exec_updateState : (updateState order).exec s = if (findOrder s order.clientOrderId).isNone then
      (.error (.orderRowMissing order.clientOrderId), s) else (.ok (), persist s order) := by
  unfold updateState
  cases h : findOrder s order.clientOrderId <;> simp [Async.Block.exec_bind, h]

end Effects

end Persistence

end FinDashboard
