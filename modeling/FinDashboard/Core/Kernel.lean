import FinDashboard.Reconcile.CrashRecovery
import FinDashboard.Reconcile.Engine

/-!
# Starting the trading kernel

`TradingKernel.start` connects, stores a first account snapshot, recovers the orders and
reconciles; only then may orders be placed. The event consumer, started in between, touches no
account row and is left out, so a start is one block.
-/

namespace FinDashboard.Core

open Async Persistence Reconcile

/-- `AccountManager.refresh`: the broker's snapshot replaces the stored row. -/
def refresh (queried : Except TradingError Account) : Session Unit := do
  let account ← requireOk queried
  upsertAccount account

/-- The optional parts a kernel is built with. -/
structure KernelParts where
  recoverer : Bool := true
  reconciler : Bool := true

/-- What the broker answers during one start. -/
structure StartReplies where
  connect : Except TradingError Unit := .ok ()
  account : Except TradingError Account
  positions : Except TradingError (List Position) := .ok []
  orders : BrokerView := fun _ => .ok none
  snapshot : BrokerSnapshot

/-- The first snapshot; its failure is logged and ignored. -/
def initialSnapshot (replies : StartReplies) : Session Unit :=
  tryCatch (do
      refresh replies.account
      let _ ← requireOk replies.positions
      return ())
    fun _ => return ()

/-- The recovery step: true when the start may go on. -/
def recoveryPasses (parts : KernelParts) (account : AccountId) (view : BrokerView) : Session Bool :=
  if parts.recoverer then
    tryCatch (do return (← recover account view).ok) fun _ => return false
  else return true

/-- The reconciliation step: true when the kernel becomes ready. -/
def reconciliationPasses (parts : KernelParts) (account : AccountId) (snapshot : BrokerSnapshot) :
    Session Bool :=
  if parts.reconciler then
    tryCatch (do return (← reconcile account snapshot).ok) fun _ => return false
  else return true

def setReady (ready : Bool) : Session Unit := modify fun s => { s with ready }

def start (parts : KernelParts) (account : AccountId) (replies : StartReplies) : Session Unit := do
  if (← get).ready then
    return ()
  else
    requireOk replies.connect
    initialSnapshot replies
    if ← recoveryPasses parts account replies.orders then
      if ← reconciliationPasses parts account replies.snapshot then setReady true
      else setReady false
    else setReady false

section Specifications

open Async.Block

variable {parts : KernelParts} {account : AccountId} {replies : StartReplies} {s : Store}

/-- The store after the first snapshot. -/
def refreshed (queried : Except TradingError Account) (s : Store) : Store :=
  match queried with
  | .ok account => { s with accounts := Function.update s.accounts account.accountId (some account) }
  | .error _ => s

theorem orders_refreshed (queried : Except TradingError Account) (s : Store) :
    (refreshed queried s).orders = s.orders := by
  cases queried <;> rfl

theorem positions_refreshed (queried : Except TradingError Account) (s : Store) :
    (refreshed queried s).positions = s.positions := by
  cases queried <;> rfl

theorem exec_initialSnapshot :
    (initialSnapshot replies).exec s = (.ok (), refreshed replies.account s) := by
  unfold initialSnapshot refresh upsertAccount
  rw [exec_tryCatch]
  simp only [exec_bind, exec_requireOk]
  cases replies.account with
  | error e => rfl
  | ok queried =>
    simp only [exec_modify]
    cases replies.positions <;> rfl

def afterRecovery (parts : KernelParts) (account : AccountId) (view : BrokerView) (s : Store) : Store :=
  if parts.recoverer then recoverRows view (activeRows s account) s else s

theorem exec_recoveryPasses (parts : KernelParts) (account : AccountId) (view : BrokerView)
    (hs : UniqueIds s) : ∃ passed, (recoveryPasses parts account view).exec s =
        (.ok passed, afterRecovery parts account view s) ∧ (passed = true ↔ (parts.recoverer = true →
        ∀ row ∈ activeRows s account, resolvable view row = true)) := by
  unfold recoveryPasses afterRecovery
  by_cases hparts : parts.recoverer = true
  · obtain ⟨report, hexec, hreport⟩ := exec_recover account view hs
    refine ⟨report.ok, ?_, ?_⟩
    · rw [if_pos hparts, if_pos hparts, exec_tryCatch, exec_bind_ok hexec, exec_pure]
    · unfold RecoveryReport.ok
      rw [hreport]
      simp [hparts, List.isEmpty_iff, List.filter_eq_nil_iff]
  · exact ⟨true, by rw [if_neg hparts, if_neg hparts, exec_pure], by simp [hparts]⟩

/-- The reconciliation step passes when its queries are answered and its report is clean. -/
theorem exec_reconciliationPasses (parts : KernelParts) (account : AccountId)
    (snapshot : BrokerSnapshot) (s : Store) :
    ∃ passed t, (reconciliationPasses parts account snapshot).exec s = (.ok passed, t) ∧
      (passed = true ↔ (parts.reconciler = true → ∃ brokerOrders brokerPositions brokerAccount,
        snapshot.activeOrders = .ok brokerOrders ∧ snapshot.positions = .ok brokerPositions ∧
          snapshot.account = .ok brokerAccount ∧
          (reportOn s account brokerOrders brokerPositions brokerAccount).ok = true)) := by
  unfold reconciliationPasses
  by_cases hparts : parts.reconciler = true
  · rw [if_pos hparts, exec_tryCatch, exec_bind]
    rcases hexec : (reconcile account snapshot).exec s with ⟨_ | report, t⟩
    · refine ⟨false, t, rfl, ?_⟩
      simp only [Bool.false_eq_true, false_iff, hparts, true_imp_iff]
      rintro ⟨brokerOrders, brokerPositions, brokerAccount, horders, hpositions, haccount, -⟩
      have hok := exec_reconcile s account horders hpositions haccount
      rw [hexec] at hok
      cases hok
    · refine ⟨report.ok, t, rfl, ?_⟩
      have hreport : ((reconcile account snapshot).exec s).1 = .ok report := by rw [hexec]
      obtain ⟨brokerOrders, brokerPositions, brokerAccount, horders, hpositions, haccount⟩ :=
        answered_of_exec_reconcile hreport
      have hok := exec_reconcile s account horders hpositions haccount
      rw [hreport] at hok
      obtain rfl := Except.ok.inj hok
      simp [hparts, horders, hpositions, haccount]
  · exact ⟨true, s, by rw [if_neg hparts, exec_pure], by simp [hparts]⟩

end Specifications

end FinDashboard.Core
