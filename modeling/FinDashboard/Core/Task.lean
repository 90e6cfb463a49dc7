import FinDashboard.Async.RelyGuarantee
import FinDashboard.Persistence.Store

/-!
# Tasks of the trading core

The coroutines of the trading core share one `Store`. Each await of a repository or of the
broker is a block of its own, and so is each stretch of code between two such awaits, so
that other tasks may run before and after every one of them. A `Point` names the block; it
carries the order or fill the block is about.

The source passes order objects by reference. An object is named here by its id: the cell
`inflight id` is the object every holder of the reference sees.
-/

namespace FinDashboard.Core

open Async Broker Persistence

/-- The atomic blocks of the trading core. -/
inductive Point
  | admission (request : OrderRequest)
  | dailyBuyValue
  | rateLimit
  | countActiveOrders
  | listPositions
  | addOrder (order : Order)
  | cacheOrder (order : Order)
  | brokerReceive (clientOrderId : ClientOrderId)
  | brokerReply (clientOrderId : ClientOrderId)
  | markRejected (clientOrderId : ClientOrderId)
  | updateState (clientOrderId : ClientOrderId)
  | requestCancel (clientOrderId : ClientOrderId)
  | listActive
  | updateCopy (copy : Order)
  | brokerCancel (clientOrderId : ClientOrderId)
  | markAccepted (clientOrderId : ClientOrderId) (brokerOrderId : Option String)
  | findFill (fillId : String)
  | lookupOrder (clientOrderId : ClientOrderId)
  | addFill (fill : Fill)
  | bookFill (clientOrderId : ClientOrderId) (fill : Fill)
  | listLocal
  | applyFill (fill : Fill)
  | markCancelled (clientOrderId : ClientOrderId)
  deriving DecidableEq, Repr

abbrev TradingTask (α : Type) := Coroutine Store Reply Point TradingError α

abbrev TaskPool := Async.Pool Store Reply Point TradingError Unit

/-- A condition on executed blocks, in the state they start from. -/
abbrev PointCondition := Point → Reply → Store → Prop

def requireOk {α : Type} : Except TradingError α → Session α
  | .ok a => pure a
  | .error e => throw e

/-- The object an order reference denotes. References are handed out only for cached orders
and the cache never drops an entry, so the error is not reachable. -/
def cachedOrder (clientOrderId : ClientOrderId) : Session Order := do
  match (← get).inflight clientOrderId with
  | some order => return order
  | none => throw (.orderNotFound clientOrderId)

def mutateOrder (clientOrderId : ClientOrderId) (change : Order → Order) : Session Unit := do
  let order ← cachedOrder clientOrderId
  modify fun s => s.cache clientOrderId (change order)

def checkTransition (source target : OrderStatus) : Session Unit :=
  if canTransition source target then pure () else throw (.invalidStateTransition source target)

def transition (clientOrderId : ClientOrderId) (target : OrderStatus) : Session Unit := do
  let order ← cachedOrder clientOrderId
  checkTransition order.status target
  mutateOrder clientOrderId fun order => { order with status := target }

/-- `OrderRepository.update_state` applied to a cached order. -/
def updateCached (clientOrderId : ClientOrderId) : Session Unit := do
  let order ← cachedOrder clientOrderId
  Persistence.updateState order

/-- `OrderManager._get_order_inflight`, with the row it loads on a miss. -/
def getOrderInflight (clientOrderId : ClientOrderId) : Session (Option Order) := do
  let s ← get
  match s.inflight clientOrderId with
  | some order => return some order
  | none =>
    match getOrder s clientOrderId with
    | some order =>
      modify fun s => s.cache clientOrderId order
      return some order
    | none => return none

section Specifications

variable {s : Store} {clientOrderId : ClientOrderId} {order : Order}

open Async.Block

@[simp] theorem exec_requireOk {α : Type} (result : Except TradingError α) :
    (requireOk result).exec s = (result, s) := by
  cases result <;> rfl

theorem exec_cachedOrder (h : s.inflight clientOrderId = some order) :
    (cachedOrder clientOrderId).exec s = (.ok order, s) := by
  simp [cachedOrder, exec_bind, h]

theorem exec_cachedOrder_none (h : s.inflight clientOrderId = none) :
    (cachedOrder clientOrderId).exec s = (.error (.orderNotFound clientOrderId), s) := by
  simp [cachedOrder, exec_bind, h]

theorem exec_mutateOrder (change : Order → Order) (h : s.inflight clientOrderId = some order) :
    (mutateOrder clientOrderId change).exec s = (.ok (), s.cache clientOrderId (change order)) := by
  simp [mutateOrder, exec_bind, exec_cachedOrder h]

theorem exec_mutateOrder_none (change : Order → Order) (h : s.inflight clientOrderId = none) :
    (mutateOrder clientOrderId change).exec s = (.error (.orderNotFound clientOrderId), s) := by
  simp [mutateOrder, exec_bind, exec_cachedOrder_none h]

/-- A legal transition changes the status of the object and nothing else. -/
theorem exec_transition (target : OrderStatus) (h : s.inflight clientOrderId = some order) :
    (transition clientOrderId target).exec s =
      if canTransition order.status target then
        (.ok (), s.cache clientOrderId { order with status := target })
      else (.error (.invalidStateTransition order.status target), s) := by
  by_cases hlegal : canTransition order.status target = true <;>
    simp [transition, checkTransition, exec_bind, exec_cachedOrder h, hlegal, exec_mutateOrder _ h]

theorem exec_transition_ok {target : OrderStatus} (h : s.inflight clientOrderId = some order)
    (hlegal : canTransition order.status target = true) :
    (transition clientOrderId target).exec s =
      (.ok (), s.cache clientOrderId { order with status := target }) := by
  rw [exec_transition target h, if_pos hlegal]

theorem exec_transition_none (target : OrderStatus) (h : s.inflight clientOrderId = none) :
    (transition clientOrderId target).exec s = (.error (.orderNotFound clientOrderId), s) := by
  simp [transition, exec_bind, exec_cachedOrder_none h]

theorem exec_updateCached (h : s.inflight clientOrderId = some order) :
    (updateCached clientOrderId).exec s = if (findOrder s order.clientOrderId).isNone then
        (.error (.orderRowMissing order.clientOrderId), s) else (.ok (), persist s order) := by
  simp only [updateCached, exec_bind, exec_cachedOrder h, exec_updateState]

theorem exec_updateCached_ok (h : s.inflight clientOrderId = some order)
    (hrow : (findOrder s order.clientOrderId).isSome) :
    (updateCached clientOrderId).exec s = (.ok (), persist s order) := by
  rw [exec_updateCached h, if_neg (by simpa [Option.isSome_iff_ne_none] using hrow)]

theorem exec_updateCached_none (h : s.inflight clientOrderId = none) :
    (updateCached clientOrderId).exec s = (.error (.orderNotFound clientOrderId), s) := by
  simp [updateCached, exec_bind, exec_cachedOrder_none h]

/-- A cached order is found without touching the store. -/
theorem exec_getOrderInflight (h : s.inflight clientOrderId = some order) :
    (getOrderInflight clientOrderId).exec s = (.ok (some order), s) := by
  simp [getOrderInflight, exec_bind, h]

/-- Otherwise its row, if there is one, becomes the cached object. -/
theorem exec_getOrderInflight_none (h : s.inflight clientOrderId = none) :
    (getOrderInflight clientOrderId).exec s = match getOrder s clientOrderId with
      | some order => (.ok (some order), s.cache clientOrderId order)
      | none => (.ok none, s) := by
  cases hrow : getOrder s clientOrderId <;> simp [getOrderInflight, exec_bind, exec_map, h, hrow, Except.map]

end Specifications

end FinDashboard.Core
