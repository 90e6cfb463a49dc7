import FinDashboard.Simulation.Orders

/-!
# The simulation service

The calls of `SimulationService` on one account and its session. Every call is a
transaction: a call that raises leaves the rows as they were. `step` is the service as its
clients see it, one call after the other, with restarts in between.
-/

namespace FinDashboard.Simulation

open Ledger

variable (money : ℚ → ℚ)

def createAccount (initialCash : ℚ) : Except SimulationError Account :=
  if initialCash ≤ 0 then .error (.value [.text "模拟初始资金必须为正"])
  else .ok { initialCash := money initialCash, cash := money initialCash, equity := money initialCash }

/-- The rows after `create_account` and `create_session`, over the signals of the research
run the session refers to. -/
def State.opened (account : Account) (validationRunId : String) (config : SimulationConfig)
    (signalTraces : List SignalTrace) : State where
  account
  session := { validationRunId, config }
  signalTraces

def requireActiveAccount (st : State) : Except SimulationError Unit :=
  require (st.account.status = .active) (.transition [.text "模拟账户已归档, 只允许查询"])

/-- The state and the orders after some of the targets of a decision. -/
structure Submission where
  state : State
  orders : List Order

/-- One round of the loop over the targets. -/
def submitTarget (decisionId : String) (now : Timestamp) (progress : Submission)
    (target : SimulationTarget) : Except SimulationError Submission :=
  (targetToOrder money progress.state decisionId now target).map fun placed =>
    { state := placed.1, orders := progress.orders ++ placed.2.toList }

/-- The result of `submit_decision`; `duplicate` marks a decision accepted before. -/
structure DecisionResult where
  state : State
  orders : List Order
  duplicate : Bool

/-- The signals a decision refers to that its research run does not have. -/
def missingTraces (st : State) (decision : SimulationDecision) : List String :=
  (decision.targets.map SimulationTarget.signalTraceId).filter fun traceId =>
    (⟨decision.sourceRunId, decision.sourceDecisionId, traceId⟩ : SignalTrace) ∉ st.signalTraces

def submitDecision (st : State) (decision : SimulationDecision) (now : Timestamp) :
    Except SimulationError DecisionResult := do
  require (st.session.status = .running)
    (.transition [.text "只有 running 模拟会话可以接收策略决策"])
  requireActiveAccount st
  require (decision.sourceRunId = st.session.validationRunId)
    (.isolation [.text "决策来源必须等于会话批准的机器验证运行"])
  match st.decisions.find? (fun row => row.decisionId = decision.decisionId) with
  | some existing => do
      require (existing.checksum = decision.checksum)
        (.conflict [.text "相同 decision_id 对应不同目标仓位"])
      return { state := st, duplicate := true,
               orders := st.orders.filter fun order => order.decisionId = decision.decisionId }
  | none => do
      require (missingTraces st decision = []) (.isolation
        (.text "决策引用的信号 trace 不完整: missing=" :: (missingTraces st decision).map .text))
      let accepted := { st with decisions := st.decisions ++ [⟨decision.decisionId, decision.checksum⟩] }
      let submitted ← decision.targets.foldlM (submitTarget money decision.decisionId now)
        { state := accepted, orders := [] }
      return { state := revalueAccount money submitted.state, orders := submitted.orders,
               duplicate := false }

/-- What `match_order` reads of a row. -/
def pendingOrder (order : Order) : PendingOrder where
  side := order.side
  orderType := order.orderType
  timeInForce := order.timeInForce
  remainingQuantity := order.remaining
  limitPrice := order.price
  eligibleAfter := order.eligibleAfter

/-- The state, the fills and the rejections after some of the listed orders. -/
structure BarProgress where
  state : State
  fillIds : List ℕ := []
  rejected : List ℕ := []

/-- The rows after a fill was attempted: a failed fill rejects the order, the rest of an
immediate order is cancelled. -/
def finishFill (progress : BarProgress) (result : FillResult) (cancelRemainder : Bool) : BarProgress :=
  match result.outcome with
  | .error error =>
      { progress with
        state := closeOrder result.state result.order .rejected error.reason
        rejected := progress.rejected ++ [result.order.orderId] }
  | .ok fillId =>
      { progress with
        state := if cancelRemainder = true ∧ result.order.status ≠ .filled then
            closeOrder result.state result.order .cancelled .iocRemainder
          else result.state
        fillIds := progress.fillIds ++ [fillId] }

/-- One round of the loop over the active orders of the symbol. -/
def matchListed (event : SimulationBarEvent) (previousClose : Option ℚ) (progress : BarProgress)
    (order : Order) : Except SimulationError BarProgress := do
  let rule ← order.resolveRule
  match matchOrder (pendingOrder order) event.bar previousClose rule.rule
      progress.state.session.config.matching with
  | .wait _ => return progress
  | .reject reason =>
      return { progress with
        state := closeOrder progress.state order .rejected reason
        rejected := progress.rejected ++ [order.orderId] }
  | .cancel reason =>
      return { progress with state := closeOrder progress.state order .cancelled reason }
  | .fill quantity rawPrice fillPrice cancelRemainder =>
      let execution : Execution := {
        quantity, fillPrice, rawPrice, rule
        filledAt := event.bar.timestamp, sourceEventId := event.sourceEventId }
      return finishFill progress (applyFill money progress.state order execution) cancelRemainder

/-- The mark of a security at the close of a bar. -/
def Position.markedToMarket (position : Position) (bar : Bar) : Position :=
  { position with
    lastPrice := bar.close
    marketValue := money (position.totalQuantity * bar.close)
    unrealizedPnl := money ((bar.close - position.averagePrice) * position.totalQuantity)
    availableQuantity :=
      max 0 (position.maturedQuantity bar.timestamp.date - position.frozenQuantity) }

/-- `_settle_future`; a margin the account cannot cover pauses the session. -/
def settleFuture (st : State) (position : Position) (bar : Bar) (rule : SimulationAssetRule) : State :=
  if position.lastSettlementDate = some bar.timestamp.date then
    st.setPosition { position with lastPrice := bar.close }
  else
    let direction : ℚ := if position.positionSide = .long then 1 else -1
    let pnl := money ((bar.close - position.settlementBasis) * rule.multiplier *
      position.totalQuantity * direction)
    let cash := st.account.cash + pnl
    let requiredMargin := money (bar.close * rule.multiplier * position.totalQuantity * rule.marginRate)
    let delta := requiredMargin - position.marginUsed
    let called := 0 < delta ∧ cash < delta
    let moved := if called then max 0 cash else delta
    let account := { st.account with
      cash := cash - moved, marginUsed := st.account.marginUsed + moved }
    let settled := { position with
      realizedPnl := position.realizedPnl + pnl
      marginUsed := position.marginUsed + moved
      lastSettlementPrice := bar.close, lastSettlementDate := some bar.timestamp.date
      lastPrice := bar.close, marketValue := 0, unrealizedPnl := 0 }
    let session := if called then { st.session with status := .paused } else st.session
    revalueAccount money ({ st with account, session }.setPosition settled)

/-- One round of the loop of `_mark_to_market_and_settle`. -/
def markPosition (bar : Bar) (st : State) (position : Position) : Except SimulationError State :=
  if position.symbol ≠ bar.symbol.code then return st
  else do
    let rule ← position.resolveRule
    if rule.isFutures then return settleFuture money st position bar rule
    else return st.setPosition (position.markedToMarket money bar)

def markToMarketAndSettle (st : State) (bar : Bar) : Except SimulationError State :=
  st.positions.foldlM (markPosition money bar) st

/-- `SimulationProcessResult` with the rows it was made from. -/
structure ProcessResult where
  state : State
  duplicate : Bool
  fillIds : List ℕ
  rejectedOrderIds : List ℕ
  equity : ℚ
  clockAt : Timestamp

def State.setEventStatus (st : State) (sourceEventId : String) (status : MarketEventStatus) : State :=
  { st with marketEvents := st.marketEvents.map fun event =>
      if event.sourceEventId = sourceEventId then { event with status } else event }

/-- `process_bar` once the event has its row. -/
def advanceBar (st : State) (event : SimulationBarEvent) : Except SimulationError ProcessResult := do
  require (∀ current ∈ st.session.clock, current.instant ≤ event.bar.timestamp.instant)
    (.conflict [.text "模拟市场时钟禁止倒退"])
  let previousClose := (st.latestMarketEvent event.bar.symbol.code event.bar.timestamp).map (·.close)
  let matched ← (st.activeOrdersOf event.bar.symbol.code).foldlM
    (matchListed money event previousClose) { state := st }
  let marked ← markToMarketAndSettle money matched.state event.bar
  let clocked := { marked with session := { marked.session with clock := some event.bar.timestamp } }
  let state := (revalueAccount money clocked).setEventStatus event.sourceEventId .processed
  return { state, duplicate := false, fillIds := matched.fillIds,
           rejectedOrderIds := matched.rejected, equity := state.account.equity,
           clockAt := event.bar.timestamp }

def marketEventRow (event : SimulationBarEvent) : MarketEvent where
  sourceEventId := event.sourceEventId
  checksum := event.checksum
  status := .processing
  symbol := event.bar.symbol.code
  timestamp := event.bar.timestamp
  close := event.bar.close

def processBar (st : State) (event : SimulationBarEvent) : Except SimulationError ProcessResult := do
  require (st.session.status = .running)
    (.transition [.text "只有 running 模拟会话可以推进行情"])
  requireActiveAccount st
  match st.marketEvents.find? (fun row => row.sourceEventId = event.sourceEventId) with
  | none => advanceBar money { st with marketEvents := st.marketEvents ++ [marketEventRow event] } event
  | some existing => do
      require (existing.checksum = event.checksum)
        (.conflict [.text "相同 source_event_id 对应不同 Bar"])
      if existing.status = .processed then
        return { state := st, duplicate := true, fillIds := [], rejectedOrderIds := [],
                 equity := st.account.equity,
                 clockAt := st.session.clock.getD event.bar.timestamp }
      else advanceBar money (st.setEventStatus event.sourceEventId .processing) event

def cancelOrder (st : State) (orderId : ℕ) : Except SimulationError State := do
  require (st.session.status = .running ∨ st.session.status = .paused)
    (.transition [.text "当前会话状态不允许撤销模拟订单"])
  match st.orders[orderId]? with
  | none => .error (.notFound [.text "模拟订单不存在"])
  | some order => do
      require (order.isActive = true) (.transition [.text "模拟订单已处于终态"])
      return revalueAccount money (closeOrder st order .cancelled .manualCancel)

def cancelAllActive (st : State) (reason : Reason) : State :=
  st.activeOrders.foldl (fun st order => closeOrder st order .cancelled reason) st

/-- The sources of `transition_session` a target may be reached from. -/
def SessionStatus.sources : SessionStatus → List SessionStatus
  | .running => [.created, .paused]
  | .paused => [.running]
  | .stopped => [.created, .running, .paused]
  | .archived => [.stopped]
  | .created => []

def SessionStatus.code : SessionStatus → String
  | .created => "created"
  | .running => "running"
  | .paused => "paused"
  | .stopped => "stopped"
  | .archived => "archived"

/-- `transition_session`; stopping cancels what is open and archiving closes the account. -/
def transitionSession (st : State) (target : SessionStatus) : Except SimulationError State := do
  requireActiveAccount st
  require (st.session.status ∈ target.sources) (.transition [.text "模拟会话不能从 ",
    .text st.session.status.code, .text " 转为 ", .text target.code])
  let moved := { st with session := { st.session with status := target } }
  match target with
  | .stopped => return revalueAccount money (cancelAllActive moved .sessionStopped)
  | .archived => return { moved with account := { moved.account with status := .archived } }
  | _ => return moved

/-- The position rows after the loop of `recover_active_sessions`, and whether it met a
position whose reservations exceed it. -/
def recoverPositions (active : List Order) (today : Date) : List Position → List Position × Bool
  | [] => ([], false)
  | position :: rest =>
      let reserved := total Order.reservedQuantity
        (active.filter fun order => order.key = position.key)
      if position.totalQuantity < reserved then (position :: rest, true)
      else
        let (recovered, failed) := recoverPositions active today rest
        ({ position with
            frozenQuantity := reserved
            availableQuantity := max 0 (position.maturedQuantity today - reserved) } :: recovered,
          failed)

/-- The body of the loop of `recover_active_sessions`, and whether the session is listed as
recovered. -/
def recoverSession (st : State) : State × Bool :=
  let requiredFrozen := total Order.reservedCash st.activeOrders
  let liquid := st.account.cash + st.account.frozenCash
  if liquid < requiredFrozen then
    ({ st with session := { st.session with status := .paused } }, false)
  else
    let (positions, failed) := recoverPositions st.activeOrders st.clockDate st.positions
    let account := { st.account with cash := liquid - requiredFrozen, frozenCash := requiredFrozen }
    let status := if failed then SessionStatus.paused else st.session.status
    let session := { st.session with status, recoveryCount := st.session.recoveryCount + 1 }
    let marketEvents := st.marketEvents.map fun event =>
      if event.status = .processing then { event with status := .failed } else event
    (revalueAccount money { st with account, session, positions, marketEvents }, true)

def recoverActiveSessions (st : State) : State × Bool :=
  if st.session.status = .running ∨ st.session.status = .paused then recoverSession money st
  else (st, false)

/-- A call of a client, or a restart. -/
inductive Action
  | submitDecision (decision : SimulationDecision) (now : Timestamp)
  | processBar (event : SimulationBarEvent)
  | cancelOrder (orderId : ℕ)
  | transitionSession (target : SessionStatus)
  | recoverActiveSessions

/-- A call that raises is rolled back. -/
def committed (st : State) (result : Except SimulationError State) : State :=
  match result with
  | .ok st' => st'
  | .error _ => st

def step (st : State) : Action → State
  | .submitDecision decision now =>
      committed st ((submitDecision money st decision now).map DecisionResult.state)
  | .processBar event => committed st ((processBar money st event).map ProcessResult.state)
  | .cancelOrder orderId => committed st (cancelOrder money st orderId)
  | .transitionSession target => committed st (transitionSession money st target)
  | .recoverActiveSessions => (recoverActiveSessions money st).1

/-- The first state of a session on a new account. -/
inductive Opened : State → Prop
  | mk {initialCash : ℚ} {account : Account} (haccount : createAccount money initialCash = .ok account)
      (validationRunId : String) (config : SimulationConfig) (signalTraces : List SignalTrace) :
      Opened (State.opened account validationRunId config signalTraces)

/-- The states of the runs whose calls an admissibility condition allows, from the opening of
the session on. -/
inductive Reachable (allowed : State → Action → Prop) : State → Prop
  | opened {st : State} (h : Opened money st) : Reachable allowed st
  | call {st : State} {action : Action} (h : Reachable allowed st) (hallowed : allowed st action) :
      Reachable allowed (step money st action)

end FinDashboard.Simulation
