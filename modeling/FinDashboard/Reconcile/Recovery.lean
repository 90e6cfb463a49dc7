import FinDashboard.Core.OrderManager

/-!
# Restart recovery

`RecoveryEngine` runs after a restart, before the order manager: each stored active order is
looked up at the broker and moved to the broker's state, if the state machine allows the jump
from the persisted status. No other task runs meanwhile, so a run is one block.
-/

namespace FinDashboard.Reconcile

open Async Core Persistence

def statusText : OrderStatus → String
  | .created => "created"
  | .riskChecked => "risk_checked"
  | .submitting => "submitting"
  | .submitted => "submitted"
  | .acknowledged => "acknowledged"
  | .partiallyFilled => "partially_filled"
  | .filled => "filled"
  | .cancelPending => "cancel_pending"
  | .cancelled => "cancelled"
  | .rejected => "rejected"
  | .unknown => "unknown"

structure OrderRepair where
  clientOrderId : ClientOrderId
  fromStatus : OrderStatus
  toStatus : OrderStatus
  reason : String
  syncedFilledQuantity : Option ℚ := none
  deriving DecidableEq, Repr

structure RecoveryReport where
  repairs : List OrderRepair := []
  unresolvable : List ClientOrderId := []
  deriving DecidableEq, Repr

namespace RecoveryReport

def ok (report : RecoveryReport) : Bool := report.unresolvable.isEmpty

def addRepair (report : RecoveryReport) (repair : OrderRepair) : RecoveryReport :=
  { report with repairs := report.repairs ++ [repair] }

def addUnresolvable (report : RecoveryReport) (clientOrderId : ClientOrderId) : RecoveryReport :=
  { report with unresolvable := report.unresolvable ++ [clientOrderId] }

end RecoveryReport

/-- What `query_order` answers for an id: the broker's order, that there is none, or an error. -/
abbrev BrokerView := ClientOrderId → Except TradingError (Option Order)

/-- The order marked as never received. -/
def rejectedOrder (order : Order) : Order :=
  { order with
    status := .rejected
    rejectReason := some .brokerRejected
    rejectMessage := some "重启恢复:券商无此订单记录" }

def repairNotOnBroker (order : Order) (report : RecoveryReport) : Session RecoveryReport := do
  if !canTransition order.status .rejected then
    return report.addUnresolvable order.clientOrderId
  checkTransition order.status .rejected
  updateState (rejectedOrder order)
  return report.addRepair
    { clientOrderId := order.clientOrderId
      fromStatus := order.status
      toStatus := .rejected
      reason := "券商无此订单 → REJECTED" }

def syncedFilled (order brokerOrder : Order) : Option ℚ :=
  if brokerOrder.filledQuantity ≠ order.filledQuantity then some brokerOrder.filledQuantity
  else none

/-- The local object after the broker id and the execution were taken over. -/
def syncedOrder (order brokerOrder : Order) : Order :=
  let named :=
    if hasText brokerOrder.brokerOrderId && !hasText order.brokerOrderId then
      { order with brokerOrderId := brokerOrder.brokerOrderId }
    else order
  if brokerOrder.filledQuantity ≠ order.filledQuantity then
    { named with
      filledQuantity := brokerOrder.filledQuantity
      averageFillPrice := brokerOrder.averageFillPrice }
  else named

def repairFromBroker (order brokerOrder : Order) (report : RecoveryReport) :
    Session RecoveryReport := do
  let target := brokerOrder.status
  let synced := syncedOrder order brokerOrder
  if order.status = target then
    if (syncedFilled order brokerOrder).isSome then
      updateState synced
      return report.addRepair
        { clientOrderId := order.clientOrderId
          fromStatus := order.status
          toStatus := target
          reason := "同步成交数量"
          syncedFilledQuantity := syncedFilled order brokerOrder }
    else return report
  else if !canTransition order.status target then
    return report.addUnresolvable order.clientOrderId
  else
    checkTransition order.status target
    updateState { synced with status := target }
    return report.addRepair
      { clientOrderId := order.clientOrderId
        fromStatus := order.status
        toStatus := target
        reason := "券商状态同步: " ++ statusText target
        syncedFilledQuantity := syncedFilled order brokerOrder }

def recoverOne (view : BrokerView) (order : Order) (report : RecoveryReport) :
    Session RecoveryReport := do
  match ← requireOk (view order.clientOrderId) with
  | none => repairNotOnBroker order report
  | some brokerOrder => repairFromBroker order brokerOrder report

/-- The loop of `RecoveryEngine.run`: an order whose recovery raises is reported and skipped. -/
def recoverAll (view : BrokerView) : List Order → RecoveryReport → Session RecoveryReport
  | [], report => return report
  | order :: rest, report => do
    let report ← tryCatch (recoverOne view order report) fun _ =>
      return report.addUnresolvable order.clientOrderId
    recoverAll view rest report

/-- `RecoveryEngine.run`. -/
def recover (account : AccountId) (view : BrokerView) : Session RecoveryReport := do
  let localOrders := listActive (← get) account
  recoverAll view localOrders {}

section Specifications

open Async.Block

/-- The status recovery aims at; an order the broker does not know counts as rejected. -/
def repairTarget (found : Option Order) : OrderStatus := found.elim .rejected (·.status)

def resolvable (view : BrokerView) (order : Order) : Bool :=
  match view order.clientOrderId with
  | .ok found => canTransition order.status (repairTarget found)
  | .error _ => false

/-- The object written back for an order the broker has, if one is written. -/
def repairFrom? (order brokerOrder : Order) : Option Order :=
  if order.status = brokerOrder.status then
    if (syncedFilled order brokerOrder).isSome then some (syncedOrder order brokerOrder) else none
  else if canTransition order.status brokerOrder.status then
    some { syncedOrder order brokerOrder with status := brokerOrder.status }
  else none

/-- The object recovery writes back for an order, if it writes one. -/
def repair? (view : BrokerView) (order : Order) : Option Order :=
  match view order.clientOrderId with
  | .error _ => none
  | .ok none =>
    if canTransition order.status .rejected then some (rejectedOrder order) else none
  | .ok (some brokerOrder) => repairFrom? order brokerOrder

@[simp] theorem clientOrderId_syncedOrder (order brokerOrder : Order) :
    (syncedOrder order brokerOrder).clientOrderId = order.clientOrderId := by
  unfold syncedOrder
  dsimp only
  split <;> split <;> rfl

@[simp] theorem status_syncedOrder (order brokerOrder : Order) :
    (syncedOrder order brokerOrder).status = order.status := by
  unfold syncedOrder
  dsimp only
  split <;> split <;> rfl

@[simp] theorem filledQuantity_syncedOrder (order brokerOrder : Order) :
    (syncedOrder order brokerOrder).filledQuantity = brokerOrder.filledQuantity := by
  unfold syncedOrder
  by_cases h : brokerOrder.filledQuantity = order.filledQuantity
  · dsimp only
    rw [if_neg (by simpa using h), h]
    split <;> rfl
  · dsimp only
    rw [if_pos (by simpa using h)]

theorem clientOrderId_of_repairFrom? {order brokerOrder repaired : Order}
    (h : repairFrom? order brokerOrder = some repaired) :
    repaired.clientOrderId = order.clientOrderId := by
  unfold repairFrom? at h
  split at h
  · split at h
    · obtain rfl := Option.some.inj h
      simp
    · cases h
  · split at h
    · obtain rfl := Option.some.inj h
      simp
    · cases h

theorem clientOrderId_of_repair? {view : BrokerView} {order repaired : Order}
    (h : repair? view order = some repaired) : repaired.clientOrderId = order.clientOrderId := by
  unfold repair? at h
  split at h
  · cases h
  · split at h
    · obtain rfl := Option.some.inj h
      rfl
    · cases h
  · exact clientOrderId_of_repairFrom? h

def writeRepair (s : Store) (repaired : Option Order) : Store := repaired.elim s (persist s)

variable {s : Store} {order : Order}

theorem exec_writeBack (hrow : (findOrder s order.clientOrderId).isSome) (repaired : Order)
    (hid : repaired.clientOrderId = order.clientOrderId) (report : RecoveryReport) :
    (do updateState repaired; return report : Session RecoveryReport).exec s =
      (.ok report, persist s repaired) := by
  have hwrite : (updateState repaired).exec s = (.ok (), persist s repaired) := by
    rw [exec_updateState, hid, if_neg (by simpa [Option.isSome_iff_ne_none] using hrow)]
  rw [exec_bind_ok hwrite, exec_pure]

theorem exec_checkTransition {source target : OrderStatus} (h : canTransition source target = true) :
    (checkTransition source target).exec s = (.ok (), s) := by
  unfold checkTransition
  rw [if_pos h, exec_pure]

theorem exec_repairNotOnBroker (report : RecoveryReport)
    (hrow : (findOrder s order.clientOrderId).isSome) :
    ∃ report', (repairNotOnBroker order report).exec s = (.ok report', writeRepair s
        (if canTransition order.status .rejected then some (rejectedOrder order) else none)) ∧
      report'.unresolvable = report.unresolvable ++
        if canTransition order.status .rejected then [] else [order.clientOrderId] := by
  unfold repairNotOnBroker
  by_cases hlegal : canTransition order.status .rejected = true
  · simp only [hlegal, Bool.not_true, Bool.false_eq_true, if_false, if_true]
    rw [exec_bind_ok (exec_checkTransition hlegal), exec_writeBack hrow (rejectedOrder order) rfl]
    exact ⟨_, rfl, by simp [RecoveryReport.addRepair]⟩
  · simp only [hlegal, Bool.not_false, if_true]
    exact ⟨_, rfl, rfl⟩

theorem exec_repairFromBroker (brokerOrder : Order) (report : RecoveryReport)
    (hrow : (findOrder s order.clientOrderId).isSome) :
    ∃ report', (repairFromBroker order brokerOrder report).exec s =
        (.ok report', writeRepair s (repairFrom? order brokerOrder)) ∧
      report'.unresolvable = report.unresolvable ++
        if canTransition order.status brokerOrder.status then [] else [order.clientOrderId] := by
  unfold repairFromBroker repairFrom?
  by_cases hsame : order.status = brokerOrder.status
  · have hlegal : canTransition order.status brokerOrder.status = true := by
      simp [canTransition, hsame]
    dsimp only
    rw [if_pos hsame, if_pos hsame, if_pos hlegal]
    by_cases hsynced : (syncedFilled order brokerOrder).isSome = true
    · rw [if_pos hsynced, if_pos hsynced,
        exec_writeBack hrow _ (clientOrderId_syncedOrder order brokerOrder)]
      exact ⟨_, rfl, by simp [RecoveryReport.addRepair]⟩
    · rw [if_neg hsynced, if_neg hsynced]
      exact ⟨_, rfl, by simp⟩
  · by_cases hlegal : canTransition order.status brokerOrder.status = true
    · simp only [hsame, hlegal, if_false, Bool.not_true, Bool.false_eq_true, if_true]
      rw [exec_bind_ok (exec_checkTransition hlegal),
        exec_writeBack hrow { syncedOrder order brokerOrder with status := brokerOrder.status }
          (clientOrderId_syncedOrder order brokerOrder)]
      exact ⟨_, rfl, by simp [RecoveryReport.addRepair]⟩
    · simp only [hsame, hlegal, if_false, Bool.not_false, if_true]
      exact ⟨_, rfl, rfl⟩

/-- The recovery of one order: it never raises past the loop, writes at most its own row, and
reports the order exactly when it is not resolvable. -/
theorem exec_recoverOne (view : BrokerView) (report : RecoveryReport)
    (hrow : (findOrder s order.clientOrderId).isSome) :
    ∃ report', (tryCatch (recoverOne view order report) fun _ =>
        return report.addUnresolvable order.clientOrderId : Session RecoveryReport).exec s =
        (.ok report', writeRepair s (repair? view order)) ∧ report'.unresolvable = report.unresolvable ++
        if resolvable view order then [] else [order.clientOrderId] := by
  rw [exec_tryCatch]
  unfold recoverOne repair? resolvable
  rw [exec_bind, exec_requireOk]
  cases view order.clientOrderId with
  | error e => exact ⟨_, rfl, rfl⟩
  | ok found =>
    cases found with
    | none =>
      obtain ⟨report', hexec, hreport⟩ := exec_repairNotOnBroker report hrow
      exact ⟨report', by simp only [hexec], hreport⟩
    | some brokerOrder =>
      obtain ⟨report', hexec, hreport⟩ := exec_repairFromBroker brokerOrder report hrow
      exact ⟨report', by simp only [hexec], hreport⟩

end Specifications

end FinDashboard.Reconcile
