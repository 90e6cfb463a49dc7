import FinDashboard.Reconcile.Recovery

/-!
# The start-up reconciliation

`ReconciliationEngine` compares the stored active orders, the local positions and the stored
account row with the broker's. Broker rows are collected in dictionaries: a later row with the
same key replaces the earlier one and keeps its place. The stored logs are left out.
-/

namespace FinDashboard.Reconcile

open Async Core Persistence List

def positionTolerance : ℚ := 1 / 10000

def accountTolerance : ℚ := 1 / 100

structure OrderMismatch where
  clientOrderId : ClientOrderId
  localStatus : String
  brokerStatus : String
  localFilled : ℚ
  brokerFilled : ℚ
  deriving DecidableEq, Repr

structure PositionMismatch where
  symbol : String
  localTotal : ℚ
  brokerTotal : ℚ
  localAvgPrice : ℚ
  brokerAvgPrice : ℚ
  diff : ℚ
  notes : String := ""
  deriving DecidableEq, Repr

structure AccountMismatch where
  fieldName : String
  localValue : ℚ
  brokerValue : ℚ
  diff : ℚ
  deriving DecidableEq, Repr

structure ReconciliationReport where
  orderMismatches : List OrderMismatch := []
  positionMismatches : List PositionMismatch := []
  accountMismatches : List AccountMismatch := []
  localOnlyOrders : List ClientOrderId := []
  brokerOnlyOrders : List ClientOrderId := []
  deriving DecidableEq, Repr

def ReconciliationReport.ok (report : ReconciliationReport) : Bool :=
  report.orderMismatches.isEmpty && report.positionMismatches.isEmpty &&
    report.accountMismatches.isEmpty && report.localOnlyOrders.isEmpty &&
    report.brokerOnlyOrders.isEmpty

section Dictionaries

variable {α : Type}

/-- Assign a dictionary entry. -/
def setEntry (entries : List (String × α)) (key : String) (value : α) : List (String × α) :=
  if entries.any fun entry => entry.1 = key then
    entries.map fun entry => if entry.1 = key then (key, value) else entry
  else entries ++ [(key, value)]

def dictOf (key : α → String) (rows : List α) : List (String × α) :=
  rows.foldl (fun entries row => setEntry entries (key row) row) []

end Dictionaries

/-- The comparison of one order known on both sides. -/
def orderMismatch? (localOrder brokerOrder : Order) : Option OrderMismatch :=
  if localOrder.status ≠ brokerOrder.status ∨
      positionTolerance < |localOrder.filledQuantity - brokerOrder.filledQuantity| then
    some
      { clientOrderId := localOrder.clientOrderId
        localStatus := statusText localOrder.status
        brokerStatus := statusText brokerOrder.status
        localFilled := localOrder.filledQuantity
        brokerFilled := brokerOrder.filledQuantity }
  else none

def reconcileOrders (localOrders brokerOrders : List Order) (report : ReconciliationReport) :
    ReconciliationReport :=
  let brokerById := dictOf (·.clientOrderId)
    (brokerOrders.filter fun order => !order.clientOrderId.isEmpty)
  let localIds := localOrders.map (·.clientOrderId)
  { report with
    localOnlyOrders := report.localOnlyOrders ++
      localIds.filter fun id => (brokerById.lookup id).isNone
    orderMismatches := report.orderMismatches ++ localOrders.filterMap fun localOrder =>
      (brokerById.lookup localOrder.clientOrderId).bind (orderMismatch? localOrder)
    brokerOnlyOrders := report.brokerOnlyOrders ++
      (brokerById.map (·.1)).filter fun id => id ∉ localIds }

def localPositionMismatch? (localPosition : Position) : Option Position → Option PositionMismatch
  | none =>
    if positionTolerance < |localPosition.totalQuantity| then
      some
        { symbol := localPosition.symbol.code
          localTotal := localPosition.totalQuantity
          brokerTotal := 0
          localAvgPrice := localPosition.averagePrice
          brokerAvgPrice := 0
          diff := -localPosition.totalQuantity
          notes := "broker 无此持仓" }
    else none
  | some brokerPosition =>
    let diff := localPosition.totalQuantity - brokerPosition.totalQuantity
    if positionTolerance < |diff| ∨
        positionTolerance < |localPosition.averagePrice - brokerPosition.averagePrice| then
      some
        { symbol := localPosition.symbol.code
          localTotal := localPosition.totalQuantity
          brokerTotal := brokerPosition.totalQuantity
          localAvgPrice := localPosition.averagePrice
          brokerAvgPrice := brokerPosition.averagePrice
          diff }
    else none

def brokerPositionMismatch? (code : String) (brokerPosition : Position) : Option PositionMismatch :=
  if positionTolerance < |brokerPosition.totalQuantity| then
    some
      { symbol := code
        localTotal := 0
        brokerTotal := brokerPosition.totalQuantity
        localAvgPrice := 0
        brokerAvgPrice := brokerPosition.averagePrice
        diff := brokerPosition.totalQuantity
        notes := "本地无此持仓" }
  else none

def reconcilePositions (localPositions brokerPositions : List Position)
    (report : ReconciliationReport) : ReconciliationReport :=
  let brokerBySymbol := dictOf (·.symbol.code) brokerPositions
  let localCodes := localPositions.map (·.symbol.code)
  { report with
    positionMismatches := report.positionMismatches ++
      (localPositions.filterMap fun localPosition =>
        localPositionMismatch? localPosition (brokerBySymbol.lookup localPosition.symbol.code)) ++
      (brokerBySymbol.filter fun entry => entry.1 ∉ localCodes).filterMap fun entry =>
        brokerPositionMismatch? entry.1 entry.2 }

/-- The compared columns of an account. -/
def accountFields : List (String × (Account → ℚ)) :=
  [("cash", (·.cash)), ("frozen_cash", (·.frozenCash)), ("total_asset", (·.totalAsset)),
    ("margin_used", (·.marginUsed))]

def reconcileAccount (localAccount brokerAccount : Account) (report : ReconciliationReport) :
    ReconciliationReport :=
  { report with
    accountMismatches := report.accountMismatches ++ accountFields.filterMap fun field =>
      let diff := field.2 localAccount - field.2 brokerAccount
      if accountTolerance < |diff| then
        some
          { fieldName := field.1
            localValue := field.2 localAccount
            brokerValue := field.2 brokerAccount
            diff }
      else none }

/-- What the broker answers to the queries of one reconciliation. -/
structure BrokerSnapshot where
  activeOrders : Except TradingError (List Order) := .ok []
  positions : Except TradingError (List Position) := .ok []
  account : Except TradingError Account

/-- `ReconciliationEngine.run`: the stored account is read before the broker's is stored. -/
def reconcile (account : AccountId) (snapshot : BrokerSnapshot) :
    Session ReconciliationReport := do
  let localOrders := listActive (← get) account
  let brokerOrders ← requireOk snapshot.activeOrders
  let report := reconcileOrders localOrders brokerOrders {}
  let localPositions := listLocal (← get) account
  let brokerPositions ← requireOk snapshot.positions
  let report := reconcilePositions localPositions brokerPositions report
  let localAccount := (← get).accounts account
  let brokerAccount ← requireOk snapshot.account
  upsertAccount brokerAccount
  match localAccount with
  | some localAccount => return reconcileAccount localAccount brokerAccount report
  | none => return report

section Specifications

open Async.Block

/-- Two account rows agree in every compared column. -/
def AccountAgrees (localAccount brokerAccount : Account) : Prop :=
  ∀ field ∈ accountFields, |field.2 localAccount - field.2 brokerAccount| ≤ accountTolerance

instance (localAccount brokerAccount : Account) :
    Decidable (AccountAgrees localAccount brokerAccount) := by
  unfold AccountAgrees
  infer_instance

theorem ok_iff (report : ReconciliationReport) : report.ok = true ↔
    report.orderMismatches = [] ∧ report.positionMismatches = [] ∧ report.accountMismatches = [] ∧
      report.localOnlyOrders = [] ∧ report.brokerOnlyOrders = [] := by
  simp [ReconciliationReport.ok, and_assoc]

theorem ok_reconcilePositions (localPositions brokerPositions : List Position)
    (report : ReconciliationReport) :
    (reconcilePositions localPositions brokerPositions report).ok = true ↔
      report.ok = true ∧ (reconcilePositions localPositions brokerPositions {}).ok = true := by
  simp only [ok_iff, reconcilePositions, append_eq_nil_iff, nil_append, true_and]
  tauto

/-- The account check adds nothing exactly when the rows agree. -/
theorem ok_reconcileAccount (localAccount brokerAccount : Account) (report : ReconciliationReport) :
    (reconcileAccount localAccount brokerAccount report).ok = true ↔
      report.ok = true ∧ AccountAgrees localAccount brokerAccount := by
  have hnone : (reconcileAccount localAccount brokerAccount {}).accountMismatches = [] ↔
      AccountAgrees localAccount brokerAccount := by
    simp only [reconcileAccount, nil_append, filterMap_eq_nil_iff, ite_eq_right_iff,
      reduceCtorEq, imp_false, not_lt]
    rfl
  rw [← hnone]
  simp only [ok_iff, reconcileAccount, append_eq_nil_iff, nil_append]
  tauto

def reportOn (s : Store) (account : AccountId) (brokerOrders : List Order)
    (brokerPositions : List Position) (brokerAccount : Account) : ReconciliationReport :=
  let report := reconcilePositions (listLocal s account) brokerPositions
    (reconcileOrders (listActive s account) brokerOrders {})
  match s.accounts account with
  | some localAccount => reconcileAccount localAccount brokerAccount report
  | none => report

theorem ok_reportOn (s : Store) (account : AccountId) (brokerOrders : List Order)
    (brokerPositions : List Position) (brokerAccount : Account) :
    (reportOn s account brokerOrders brokerPositions brokerAccount).ok = true ↔
      (reconcileOrders (listActive s account) brokerOrders {}).ok = true ∧
      (reconcilePositions (listLocal s account) brokerPositions {}).ok = true ∧
      ∀ localAccount ∈ s.accounts account, AccountAgrees localAccount brokerAccount := by
  unfold reportOn
  cases s.accounts account with
  | none => simp [ok_reconcilePositions _ _ (reconcileOrders _ _ _)]
  | some localAccount =>
    rw [ok_reconcileAccount, ok_reconcilePositions _ _ (reconcileOrders _ _ _)]
    simp [and_assoc]

/-- A reconciliation whose queries are all answered. -/
theorem exec_reconcile (s : Store) (account : AccountId) {snapshot : BrokerSnapshot}
    {brokerOrders : List Order} {brokerPositions : List Position} {brokerAccount : Account}
    (horders : snapshot.activeOrders = .ok brokerOrders)
    (hpositions : snapshot.positions = .ok brokerPositions)
    (haccount : snapshot.account = .ok brokerAccount) : ((reconcile account snapshot).exec s).1 =
      .ok (reportOn s account brokerOrders brokerPositions brokerAccount) := by
  unfold reconcile reportOn upsertAccount
  rw [horders, hpositions, haccount]
  simp only [exec_bind, exec_get, exec_requireOk, exec_modify]
  cases s.accounts account <;> rfl

/-- An unanswered query ends the reconciliation. -/
theorem answered_of_exec_reconcile {s : Store} {account : AccountId} {snapshot : BrokerSnapshot}
    {report : ReconciliationReport} (h : ((reconcile account snapshot).exec s).1 = .ok report) :
    ∃ brokerOrders brokerPositions brokerAccount, snapshot.activeOrders = .ok brokerOrders ∧
      snapshot.positions = .ok brokerPositions ∧ snapshot.account = .ok brokerAccount := by
  unfold reconcile at h
  simp only [exec_bind, exec_get, exec_requireOk] at h
  cases horders : snapshot.activeOrders with
  | error e => simp [horders] at h
  | ok brokerOrders =>
    cases hpositions : snapshot.positions with
    | error e => simp [horders, hpositions] at h
    | ok brokerPositions =>
      cases haccount : snapshot.account with
      | error e => simp [horders, hpositions, haccount] at h
      | ok brokerAccount => exact ⟨_, _, _, rfl, rfl, rfl⟩

end Specifications

end FinDashboard.Reconcile
