import FinDashboard.Risk.Checker

/-!
# Local positions

`PositionManager` keeps the local holdings in step with the fills. The row is read and
written in two awaits; nothing else writes local positions.
-/

namespace FinDashboard.Core

open Async Persistence

/-- `_load_or_create`, given the local rows: the first row with the code. -/
def loadOrCreate (account : AccountId) (symbol : Symbol) (positions : List Position) : Position :=
  (positions.find? fun pos => pos.symbol.code = symbol.code).getD (.empty account symbol)

/-- The position after a bought quantity; the whole holding becomes available. -/
def increasePosition (position : Position) (quantity price : ℚ) : Position :=
  let newTotal := position.totalQuantity + quantity
  let averagePrice :=
    if 0 < newTotal then
      (position.totalQuantity * position.averagePrice + quantity * price) / newTotal
    else position.averagePrice
  { position with
    totalQuantity := newTotal
    availableQuantity := newTotal
    averagePrice
    marketValue := newTotal * averagePrice }

/-- The position after a sold quantity; neither column becomes negative. -/
def decreasePosition (position : Position) (quantity : ℚ) : Position :=
  let newTotal := max 0 (position.totalQuantity - quantity)
  { position with
    totalQuantity := newTotal
    availableQuantity := max 0 (position.availableQuantity - quantity)
    marketValue := newTotal * position.averagePrice }

/-- The position written by `apply_fill`. -/
def positionAfter (fill : Fill) (position : Position) : Position :=
  let signedQuantity := if fill.side = .buy then fill.quantity else -fill.quantity
  if 0 ≤ signedQuantity then increasePosition position signedQuantity fill.price
  else decreasePosition position (-signedQuantity)

def applyFill (account : AccountId) (fill : Fill) : TradingTask Unit := do
  let positions ← .atomically .listLocal fun _ => return listLocal (← get) account
  .atomically (.applyFill fill) fun _ => modify fun s =>
    { upsertLocal (positionAfter fill (loadOrCreate account fill.symbol positions)) s with
      appliedFills := s.appliedFills ++ [fill] }

/-!
## The order manager

The calls of `OrderManager` and the consumer of broker events, as coroutines over the shared
store. Audit rows, log lines and timestamps are left out. Where a cached order is missing,
the row is loaded in the same block; the source suspends there once more.
-/

section Manager

open Async Broker Persistence Risk

/-- Python truth of an optional order id. -/
def hasText (value : Option String) : Bool := value.any fun text => !text.isEmpty

def newOrder (account : AccountId) (request : OrderRequest) (clientOrderId : ClientOrderId) : Order :=
  { clientOrderId
    accountId := account
    symbol := request.symbol
    side := request.side
    orderType := request.orderType
    quantity := request.quantity
    price := request.price
    status := .riskChecked }

/-- The readiness gate, the account check and the checks before the first await. -/
def checkAdmission (account : AccountId) (config : RiskConfig) (request : OrderRequest) :
    Session Unit := do
  let s ← get
  if !s.ready then throw .kernelNotReady
  if request.accountId ≠ account then throw (.accountMismatch request.accountId account)
  requireOk (screen config s.killSwitch request)

/-- Entering the cache and the status `SUBMITTING`. -/
def cacheOrder (order : Order) : Session Unit := do
  modify fun s => s.cache order.clientOrderId order
  transition order.clientOrderId .submitting

def brokerReceive (clientOrderId : ClientOrderId) (stampedOrderId : Option String) :
    Session Unit := do
  modify fun s => { s with submissions := s.submissions ++ [clientOrderId] }
  match stampedOrderId with
  | some id => mutateOrder clientOrderId fun order => { order with brokerOrderId := some id }
  | none => pure ()

/-- The status change of `OrderManager._reject`. -/
def reject (clientOrderId : ClientOrderId) (reason : RejectReason) (message : String) :
    Session Unit := do
  transition clientOrderId .rejected
  mutateOrder clientOrderId fun order =>
    { order with rejectReason := some reason, rejectMessage := some message }

/-- The synchronous acknowledgement of an accepted order. -/
def confirmSubmission (clientOrderId : ClientOrderId) (brokerOrderId : Option String) : Session Unit :=
  if hasText brokerOrderId then do
    mutateOrder clientOrderId fun order => { order with brokerOrderId }
    transition clientOrderId .submitted
    transition clientOrderId .acknowledged
  else transition clientOrderId .submitted

/-- What `place_order` does with the outcome of the broker call, up to the next await. A
timeout is never retried: the order is left `UNKNOWN`. -/
def settleSubmission (clientOrderId : ClientOrderId) :
    CallOutcome SubmissionResult → Session Unit
  | .returned submission =>
    if submission.accepted then confirmSubmission clientOrderId submission.brokerOrderId
    else
      reject clientOrderId (submission.rejectReason.getD .brokerRejected) "broker 立即拒单"
  | .timeout => transition clientOrderId .unknown
  | .failed => do
    transition clientOrderId .rejected
    mutateOrder clientOrderId fun order => { order with rejectReason := some .brokerRejected }

/-- `place_order` from the suspended broker call on. -/
def awaitSubmission (clientOrderId : ClientOrderId) : TradingTask Unit := do
  let outcome ← .atomically (.brokerReply clientOrderId) fun reply => do
    settleSubmission clientOrderId reply.submission
    return reply.submission
  .atomically (.updateState clientOrderId) fun _ => updateCached clientOrderId
  match outcome with
  | .returned _ => return ()
  | .timeout => throw .brokerTimeout
  | .failed => throw .brokerFailure

/-- `OrderManager.place_order`; the fresh order id is chosen by the caller of the model. -/
def placeOrder (account : AccountId) (config : RiskConfig) (request : OrderRequest)
    (clientOrderId : ClientOrderId) : TradingTask Unit := do
  let order := newOrder account request clientOrderId
  .atomically (.admission request) fun _ => checkAdmission account config request
  checkContext account config request
  .atomically (.addOrder order) fun _ => addOrder order
  .atomically (.cacheOrder order) fun _ => cacheOrder order
  .atomically (.brokerReceive clientOrderId) fun reply =>
    brokerReceive clientOrderId reply.stampedOrderId
  awaitSubmission clientOrderId

/-- The part of `cancel_order` before its first write. -/
def requestCancel (clientOrderId : ClientOrderId) : Session Unit := do
  match ← getOrderInflight clientOrderId with
  | none => throw (.orderNotFound clientOrderId)
  | some order =>
    if !order.isActive then throw (.orderNotCancellable clientOrderId order.status)
    transition clientOrderId .cancelPending

def brokerCancel (clientOrderId : ClientOrderId) (outcome : CallOutcome Unit) : Session Unit := do
  modify fun s => { s with cancelRequests := s.cancelRequests ++ [clientOrderId] }
  match outcome with
  | .returned _ => pure ()
  | .timeout => throw .brokerTimeout
  | .failed => throw .brokerFailure

def cancelOrder (clientOrderId : ClientOrderId) : TradingTask Unit := do
  .atomically (.requestCancel clientOrderId) fun _ => requestCancel clientOrderId
  .atomically (.updateState clientOrderId) fun _ => updateCached clientOrderId
  .atomically (.brokerCancel clientOrderId) fun reply =>
    brokerCancel clientOrderId reply.cancellation

/-- Phase one of `cancel_all_active`: the listed objects, not the cached ones, change status. -/
def markCopies : List Order → TradingTask Unit
  | [] => return ()
  | order :: rest => do
    if !canTransition order.status .cancelPending then
      throw (.invalidStateTransition order.status .cancelPending)
    let copy := { order with status := .cancelPending }
    .atomically (.updateCopy copy) fun _ => Persistence.updateState copy
    markCopies rest

/-- Phase two of `cancel_all_active`: failed requests are logged and skipped. -/
def requestCancels : List Order → TradingTask (List ClientOrderId)
  | [] => return []
  | order :: rest => do
    let sent ← (tryCatch (do
        .atomically (.brokerCancel order.clientOrderId) fun reply =>
          brokerCancel order.clientOrderId reply.cancellation
        return [order.clientOrderId])
      fun _ => return [] : TradingTask (List ClientOrderId))
    return sent ++ (← requestCancels rest)

def cancelAllActive (account : AccountId) : TradingTask (List ClientOrderId) := do
  let active ← .atomically .listActive fun _ => return listActive (← get) account
  let candidates := active.filter (·.isActive)
  markCopies candidates
  requestCancels candidates

/-- The change an `ACCEPTED` report makes; true when the order was acknowledged by it. -/
def acknowledge (clientOrderId : ClientOrderId) (brokerOrderId : Option String) :
    Session Bool := do
  match ← getOrderInflight clientOrderId with
  | none => return false
  | some order =>
    if hasText brokerOrderId && order.brokerOrderId.isNone then
      mutateOrder clientOrderId fun order => { order with brokerOrderId }
    if order.status ∈ [OrderStatus.submitting, .submitted, .unknown] then
      transition clientOrderId .acknowledged
      return true
    return false

def onAccepted (event : BrokerEvent) : TradingTask Unit := do
  match event.clientOrderId with
  | none => return ()
  | some clientOrderId =>
    let acknowledged ← .atomically (.markAccepted clientOrderId event.brokerOrderId) fun _ =>
      acknowledge clientOrderId event.brokerOrderId
    if acknowledged then
      .atomically (.updateState clientOrderId) fun _ => updateCached clientOrderId

def addExecution (fill : Fill) (order : Order) : Order :=
  let filledQuantity := order.filledQuantity + fill.quantity
  let averageFillPrice :=
    match order.averageFillPrice with
    | none => fill.price
    | some average =>
      (average * (filledQuantity - fill.quantity) + fill.price * fill.quantity) / filledQuantity
  { order with filledQuantity, averageFillPrice := some averageFillPrice }

def fillTarget (order : Order) : OrderStatus :=
  if order.remainingQuantity ≤ 0 then .filled else .partiallyFilled

/-- The aggregate is mutated before the state machine is asked. -/
def bookFill (clientOrderId : ClientOrderId) (fill : Fill) : Session Unit := do
  mutateOrder clientOrderId (addExecution fill)
  let order ← cachedOrder clientOrderId
  transition clientOrderId (fillTarget order)
  modify fun s => { s with bookedFills := s.bookedFills ++ [fill] }

/-- `OrderManager._on_filled`, followed by the subscriber that updates the position. -/
def onFilled (account : AccountId) (event : BrokerEvent) : TradingTask Unit := do
  match event.fill, event.clientOrderId with
  | some fill, some clientOrderId =>
    let known ← .atomically (.findFill fill.fillId) fun _ => return getFill (← get) fill.fillId
    if known.isSome then return ()
    let order ← .atomically (.lookupOrder clientOrderId) fun _ => getOrderInflight clientOrderId
    if order.isNone then return ()
    .atomically (.addFill fill) fun _ => addFill fill
    .atomically (.bookFill clientOrderId fill) fun _ => bookFill clientOrderId fill
    .atomically (.updateState clientOrderId) fun _ => updateCached clientOrderId
    applyFill account fill
  | _, _ => return ()

/-- A report that moves a known order to a final status. -/
def settle (clientOrderId : ClientOrderId) (change : Session Unit) : Session Bool := do
  match ← getOrderInflight clientOrderId with
  | none => return false
  | some _ => do
    change
    return true

def onCancelled (event : BrokerEvent) : TradingTask Unit := do
  match event.clientOrderId with
  | none => return ()
  | some clientOrderId =>
    let found ← .atomically (.markCancelled clientOrderId) fun _ =>
      settle clientOrderId (transition clientOrderId .cancelled)
    if found then
      .atomically (.updateState clientOrderId) fun _ => updateCached clientOrderId

def onRejected (event : BrokerEvent) : TradingTask Unit := do
  match event.clientOrderId with
  | none => return ()
  | some clientOrderId =>
    let found ← .atomically (.markRejected clientOrderId) fun _ =>
      settle clientOrderId
        (reject clientOrderId (event.rejectReason.getD .brokerRejected) event.message)
    if found then
      .atomically (.updateState clientOrderId) fun _ => updateCached clientOrderId

def handleBrokerEvent (account : AccountId) (event : BrokerEvent) : TradingTask Unit :=
  match event.type with
  | .orderAccepted => onAccepted event
  | .orderFilled => onFilled account event
  | .orderCancelled => onCancelled event
  | .orderRejected => onRejected event
  | .connected | .disconnected | .error | .orderCancelRejected => return ()

/-- `OrderManager._consume_broker_events`: a handler's exception is logged and dropped. -/
def consumeBrokerEvents (account : AccountId) : List BrokerEvent → TradingTask Unit
  | [] => return ()
  | event :: rest => do
    tryCatch (handleBrokerEvent account event) fun _ => return ()
    consumeBrokerEvents account rest

/-- The calls other parts of the program make on the order manager. -/
inductive Call
  | place (request : OrderRequest) (clientOrderId : ClientOrderId)
  | cancel (clientOrderId : ClientOrderId)
  | cancelAll
  deriving DecidableEq, Repr

def Call.task (account : AccountId) (config : RiskConfig) : Call → TradingTask Unit
  | .place request clientOrderId => placeOrder account config request clientOrderId
  | .cancel clientOrderId => cancelOrder clientOrderId
  | .cancelAll => do
    let _ ← cancelAllActive account
    return ()

def orderManager (account : AccountId) (config : RiskConfig) (events : List BrokerEvent)
    (calls : List Call) (s : Store) : TaskPool :=
  ⟨s, consumeBrokerEvents account events :: calls.map (·.task account config)⟩

end Manager

end FinDashboard.Core
