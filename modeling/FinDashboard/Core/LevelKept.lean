import FinDashboard.Core.OrderManager

/-!
# Who changes the kill switch

No task of the order manager writes the level of the kill switch: neither a call nor the consumer of
broker events.
-/

namespace FinDashboard.Core

open Async Broker Persistence Risk

/-- The level is the same afterwards. -/
def SameLevel (s s' : Store) : Prop := s'.killSwitch = s.killSwitch

theorem SameLevel.trans {s t u : Store} (first : SameLevel s t) (second : SameLevel t u) :
    SameLevel s u := Eq.trans second first

/-- A block that leaves the level alone, also when it raises. -/
def LevelKept {α : Type} (block : Session α) : Prop := Block.Follows SameLevel block

variable (clientOrderId : ClientOrderId)

namespace LevelKept

variable {α β : Type}

theorem ret (a : α) : LevelKept (pure a : Session α) := fun _ => rfl

theorem raise (e : TradingError) : LevelKept (throw e : Session α) := fun _ => rfl

theorem getStore : LevelKept (get : Session Store) := fun _ => rfl

theorem ofModify {change : Store → Store} (kept : ∀ s, (change s).killSwitch = s.killSwitch) :
    LevelKept (modify change : Session Unit) := kept

theorem bind {block : Session α} {next : α → Session β} (first : LevelKept block)
    (rest : ∀ a, LevelKept (next a)) : LevelKept (block >>= next) :=
  Block.Follows.bind (R := SameLevel) SameLevel.trans first rest

theorem cond {c : Prop} [Decidable c] {yes no : Session α} (one : LevelKept yes)
    (other : LevelKept no) : LevelKept (if c then yes else no) :=
  Block.Follows.cond one other

theorem guarded {c : Prop} [Decidable c] {e : TradingError} {rest : Session α}
    (later : LevelKept rest) : LevelKept (if c then do throw e; rest else rest) :=
  cond (bind (raise e) fun _ => later) later

theorem ofRequireOk (result : Except TradingError α) : LevelKept (requireOk result) := by
  cases result with
  | ok a => exact ret a
  | error e => exact raise e

theorem ofCachedOrder : LevelKept (cachedOrder clientOrderId) := by
  intro s
  cases found : s.inflight clientOrderId with
  | none => rw [exec_cachedOrder_none found]; rfl
  | some order => rw [exec_cachedOrder found]; rfl

theorem ofMutateOrder (change : Order → Order) : LevelKept (mutateOrder clientOrderId change) :=
  bind (ofCachedOrder clientOrderId) fun _ => ofModify fun _ => rfl

theorem ofTransition (target : OrderStatus) : LevelKept (transition clientOrderId target) :=
  bind (ofCachedOrder clientOrderId) fun _ =>
    bind (cond (ret ()) (raise _)) fun _ => ofMutateOrder clientOrderId _

variable (order : Order)

theorem ofUpdateState : LevelKept (updateState order) := by
  intro s
  rw [exec_updateState]
  split <;> rfl

theorem ofUpdateCached : LevelKept (updateCached clientOrderId) :=
  bind (ofCachedOrder clientOrderId) fun order => ofUpdateState order

theorem ofGetOrderInflight : LevelKept (getOrderInflight clientOrderId) := by
  intro s
  cases found : s.inflight clientOrderId with
  | some order => rw [exec_getOrderInflight found]; rfl
  | none =>
    rw [exec_getOrderInflight_none found]
    split <;> rfl

theorem ofAddOrder : LevelKept (addOrder order) := by
  intro s
  rw [exec_addOrder]
  split <;> rfl

theorem ofCacheOrder : LevelKept (cacheOrder order) :=
  bind (ofModify fun _ => rfl) fun _ => ofTransition _ _

theorem ofBrokerReceive (stampedOrderId : Option String) :
    LevelKept (brokerReceive clientOrderId stampedOrderId) := by
  refine bind (ofModify fun _ => rfl) fun _ => ?_
  cases stampedOrderId with
  | none => exact ret ()
  | some id => exact ofMutateOrder _ _

theorem ofReject (reason : RejectReason) (message : String) :
    LevelKept (reject clientOrderId reason message) :=
  bind (ofTransition _ _) fun _ => ofMutateOrder _ _

theorem ofSettleSubmission (outcome : CallOutcome SubmissionResult) :
    LevelKept (settleSubmission clientOrderId outcome) := by
  cases outcome with
  | returned submission =>
    have confirmed : LevelKept (confirmSubmission clientOrderId submission.brokerOrderId) :=
      cond
        (bind (ofMutateOrder _ _) fun _ => bind (ofTransition _ _) fun _ => ofTransition _ _)
        (ofTransition _ _)
    exact cond confirmed (ofReject _ _ _)
  | timeout => exact ofTransition _ _
  | failed => exact bind (ofTransition _ _) fun _ => ofMutateOrder _ _

theorem ofRequestCancel : LevelKept (requestCancel clientOrderId) := by
  refine bind (ofGetOrderInflight _) fun found => ?_
  cases found with
  | none => exact raise _
  | some order => exact guarded (ofTransition _ _)

theorem ofBrokerCancel (outcome : CallOutcome Unit) : LevelKept (brokerCancel clientOrderId outcome) := by
  refine bind (ofModify fun _ => rfl) fun _ => ?_
  cases outcome with
  | returned a => exact ret ()
  | timeout => exact raise _
  | failed => exact raise _

theorem ofCheckRateLimit (config : RiskConfig) (now : ℤ) : LevelKept (checkRateLimit config now) := by
  refine bind (ofModify fun _ => rfl) fun _ => bind getStore fun s => ?_
  exact guarded (ofModify fun _ => rfl)

theorem ofAcknowledge (brokerOrderId : Option String) :
    LevelKept (acknowledge clientOrderId brokerOrderId) := by
  refine bind (ofGetOrderInflight _) fun found => ?_
  have advanced : ∀ order : Order, LevelKept
      (if order.status ∈ [OrderStatus.submitting, .submitted, .unknown] then do
        transition clientOrderId .acknowledged
        return true
      else return false) := fun order =>
    cond (bind (ofTransition _ _) fun _ => ret _) (ret _)
  cases found with
  | none => exact ret _
  | some order =>
    exact cond (bind (ofMutateOrder _ _) fun _ => advanced order) (advanced order)

theorem ofSettle {change : Session Unit}
    (kept : LevelKept change) : LevelKept (settle clientOrderId change) := by
  refine bind (ofGetOrderInflight _) fun found => ?_
  cases found with
  | none => exact ret _
  | some order => exact bind kept fun _ => ret _

theorem ofBookFill (fill : Fill) : LevelKept (bookFill clientOrderId fill) :=
  bind (ofMutateOrder _ _) fun _ => bind (ofCachedOrder _) fun _ =>
    bind (ofTransition _ _) fun _ => ofModify fun _ => rfl

theorem ofCheckAdmission (account : AccountId) (config : RiskConfig) (request : OrderRequest) :
    LevelKept (checkAdmission account config request) :=
  bind getStore fun _ => guarded (guarded (ofRequireOk _))

end LevelKept

/-- No block of the task changes the level. -/
def KeepsLevel {α : Type} (task : TradingTask α) : Prop :=
  task.Everywhere fun _ _ s s' => SameLevel s s'

namespace KeepsLevel

variable {α β : Type} {account : AccountId} {config : RiskConfig}

theorem block {point : Point} {body : Reply → Session α} (kept : ∀ reply, LevelKept (body reply)) :
    KeepsLevel (Coroutine.atomically point body) :=
  Coroutine.Everywhere.atomically fun reply s => kept reply s

theorem bind {task : TradingTask α} {next : α → TradingTask β} (first : KeepsLevel task)
    (rest : ∀ a, KeepsLevel (next a)) : KeepsLevel (task >>= next) :=
  Coroutine.Everywhere.bind first rest

theorem done (a : α) : KeepsLevel (pure a : TradingTask α) := trivial

theorem raised (e : TradingError) : KeepsLevel (throw e : TradingTask α) := trivial

theorem updateCached : KeepsLevel (Coroutine.atomically (.updateState clientOrderId)
      fun _ => Core.updateCached clientOrderId) :=
  block fun _ => LevelKept.ofUpdateCached clientOrderId

theorem checkContext (request : OrderRequest) : KeepsLevel (checkContext account config request) := by
  have bought : KeepsLevel (awaitDailyBuyValue account config request) := by
    unfold awaitDailyBuyValue
    split
    · exact block fun _ => LevelKept.bind LevelKept.getStore fun _ => LevelKept.ofRequireOk _
    · exact done ()
  have sold : KeepsLevel (awaitSellAvailable account config request) := by
    unfold awaitSellAvailable
    split
    · exact block fun _ => LevelKept.bind LevelKept.getStore fun _ => LevelKept.ofRequireOk _
    · exact done ()
  exact bind bought fun _ => bind (block fun _ => LevelKept.ofCheckRateLimit _ _) fun _ =>
    bind (block fun _ => LevelKept.bind LevelKept.getStore fun _ => LevelKept.ofRequireOk _)
      fun _ => sold

theorem awaitSubmission : KeepsLevel (awaitSubmission clientOrderId) := by
  refine bind (block fun _ => LevelKept.bind (LevelKept.ofSettleSubmission _ _) fun _ =>
    LevelKept.ret _) fun outcome => bind (updateCached clientOrderId) fun _ => ?_
  cases outcome with
  | returned submission => exact done ()
  | timeout => exact raised _
  | failed => exact raised _

theorem placeOrder (request : OrderRequest) (clientOrderId : ClientOrderId) :
    KeepsLevel (placeOrder account config request clientOrderId) :=
  bind (block fun _ => LevelKept.ofCheckAdmission _ _ _) fun _ =>
    bind (checkContext request) fun _ =>
      bind (block fun _ => LevelKept.ofAddOrder _) fun _ =>
        bind (block fun _ => LevelKept.ofCacheOrder _) fun _ =>
          bind (block fun _ => LevelKept.ofBrokerReceive _ _) fun _ => awaitSubmission clientOrderId

theorem cancelOrder : KeepsLevel (cancelOrder clientOrderId) :=
  bind (block fun _ => LevelKept.ofRequestCancel _) fun _ =>
    bind (updateCached clientOrderId) fun _ => block fun _ => LevelKept.ofBrokerCancel _ _

theorem markCopies (orders : List Order) : KeepsLevel (markCopies orders) := by
  induction orders with
  | nil => exact done ()
  | cons order rest ih =>
    unfold Core.markCopies
    have written : KeepsLevel (do
        Coroutine.atomically (.updateCopy { order with status := .cancelPending })
          fun _ => Persistence.updateState { order with status := .cancelPending }
        Core.markCopies rest : TradingTask Unit) :=
      bind (block fun _ => LevelKept.ofUpdateState _) fun _ => ih
    split
    · exact bind (raised _) fun _ => written
    · exact written

theorem requestCancels (orders : List Order) : KeepsLevel (requestCancels orders) := by
  induction orders with
  | nil => exact done []
  | cons order rest ih =>
    refine bind (Coroutine.Everywhere.tryCatch ?_ fun _ => done []) fun sent =>
      bind ih fun _ => done _
    exact bind (block fun _ => LevelKept.ofBrokerCancel _ _) fun _ => done _

theorem cancelAllActive : KeepsLevel (cancelAllActive account) :=
  bind (block fun _ => LevelKept.bind LevelKept.getStore fun _ => LevelKept.ret _) fun _ =>
    bind (markCopies _) fun _ => requestCancels _

theorem call (placed : Call) : KeepsLevel (placed.task account config) := by
  cases placed with
  | place request clientOrderId => exact placeOrder request clientOrderId
  | cancel clientOrderId => exact cancelOrder clientOrderId
  | cancelAll => exact bind cancelAllActive fun _ => done ()

theorem applyFill (fill : Fill) : KeepsLevel (applyFill account fill) := by
  refine bind (block fun _ => LevelKept.bind LevelKept.getStore fun _ => LevelKept.ret _)
    fun positions => block fun _ => LevelKept.ofModify fun s => ?_
  unfold upsertLocal
  split <;> rfl

theorem onFilled (event : BrokerEvent) : KeepsLevel (onFilled account event) := by
  unfold Core.onFilled
  split
  · rename_i fill clientOrderId _ _
    refine bind (block fun _ => LevelKept.bind LevelKept.getStore fun _ => LevelKept.ret _)
      fun known => ?_
    have booked : KeepsLevel (do
        Coroutine.atomically (.addFill fill) fun _ => addFill fill
        Coroutine.atomically (.bookFill clientOrderId fill) fun _ => bookFill clientOrderId fill
        Coroutine.atomically (.updateState clientOrderId) fun _ => Core.updateCached clientOrderId
        Core.applyFill account fill : TradingTask Unit) := by
      refine bind (block fun _ => LevelKept.ofModify fun s => ?_) fun _ =>
        bind (block fun _ => LevelKept.ofBookFill _ _) fun _ =>
          bind (updateCached clientOrderId) fun _ => applyFill fill
      split <;> rfl
    have looked : KeepsLevel (do
        let order ← Coroutine.atomically (.lookupOrder clientOrderId)
          fun _ => getOrderInflight clientOrderId
        if order.isNone then return ()
        Coroutine.atomically (.addFill fill) fun _ => addFill fill
        Coroutine.atomically (.bookFill clientOrderId fill) fun _ => bookFill clientOrderId fill
        Coroutine.atomically (.updateState clientOrderId) fun _ => Core.updateCached clientOrderId
        Core.applyFill account fill : TradingTask Unit) := by
      refine bind (block fun _ => LevelKept.ofGetOrderInflight _) fun order => ?_
      split
      · exact done ()
      · exact booked
    split
    · exact done ()
    · exact looked
  · exact done ()

theorem reported {clientOrderId : ClientOrderId} {point : Point} {body : Session Bool}
    (kept : LevelKept body) : KeepsLevel (do
      let found ← Coroutine.atomically point fun _ => body
      if found then
        Coroutine.atomically (.updateState clientOrderId)
          fun _ => Core.updateCached clientOrderId : TradingTask Unit) := by
  refine bind (block fun _ => kept) fun found => ?_
  split
  · exact updateCached clientOrderId
  · exact done ()

theorem handleBrokerEvent (event : BrokerEvent) : KeepsLevel (handleBrokerEvent account event) := by
  unfold Core.handleBrokerEvent
  cases event.type with
  | orderAccepted =>
    unfold onAccepted
    cases event.clientOrderId with
    | none => exact done ()
    | some clientOrderId => exact reported (LevelKept.ofAcknowledge _ _)
  | orderFilled => exact onFilled event
  | orderCancelled =>
    unfold onCancelled
    cases event.clientOrderId with
    | none => exact done ()
    | some clientOrderId => exact reported (LevelKept.ofSettle _ (LevelKept.ofTransition _ _))
  | orderRejected =>
    unfold onRejected
    cases event.clientOrderId with
    | none => exact done ()
    | some clientOrderId => exact reported (LevelKept.ofSettle _ (LevelKept.ofReject _ _ _))
  | connected => exact done ()
  | disconnected => exact done ()
  | error => exact done ()
  | orderCancelRejected => exact done ()

theorem consumeBrokerEvents (events : List BrokerEvent) :
    KeepsLevel (consumeBrokerEvents account events) := by
  induction events with
  | nil => exact done ()
  | cons event rest ih =>
    exact bind (Coroutine.Everywhere.tryCatch (handleBrokerEvent event) fun _ => done ())
      fun _ => ih

end KeepsLevel

end FinDashboard.Core
