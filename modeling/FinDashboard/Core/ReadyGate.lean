import FinDashboard.Core.Kernel

/-!
# What the ready gate compares

The reconciliation compares the stored account row with the broker's, but the first snapshot of
the start has replaced that row by then. The row stored before the start takes part in the
comparison only if the first snapshot fails or is of another account.
-/

namespace FinDashboard.Core

open Async Persistence Reconcile

variable {parts : KernelParts} {account : AccountId} {replies : StartReplies} {s : Store}

def reconciledStore (parts : KernelParts) (account : AccountId) (replies : StartReplies)
    (s : Store) : Store :=
  afterRecovery parts account replies.orders (refreshed replies.account s)

/-- Orders and positions agree with the broker when they are compared. -/
structure TradesReconcile (parts : KernelParts) (account : AccountId) (replies : StartReplies)
    (s : Store) (brokerAccount : Account) : Prop where
  orders : ∃ brokerOrders, replies.snapshot.activeOrders = .ok brokerOrders ∧
    (reconcileOrders (listActive (reconciledStore parts account replies s) account)
      brokerOrders {}).ok = true
  positions : ∃ brokerPositions, replies.snapshot.positions = .ok brokerPositions ∧
    (reconcilePositions (listLocal s account) brokerPositions {}).ok = true
  account : replies.snapshot.account = .ok brokerAccount

/-- The purpose of the gate: a ready kernel has reconciled its orders and positions, and the
account row stored before the start agrees with the broker. -/
def GateSound (parts : KernelParts) (account : AccountId) (replies : StartReplies) (s : Store) : Prop :=
  ((start parts account replies).exec s).2.ready = true →
    ∃ brokerAccount, TradesReconcile parts account replies s brokerAccount ∧
      ∀ stored ∈ s.accounts account, AccountAgrees stored brokerAccount

/-- The first snapshot replaces the stored row of the account. -/
def Overwrites (account : AccountId) (replies : StartReplies) (snapshot : Account) : Prop :=
  replies.account = .ok snapshot ∧ snapshot.accountId = account

/-- All checks of a start but the comparison with the row stored before it. -/
def OtherChecksPass (parts : KernelParts) (account : AccountId) (replies : StartReplies)
    (s : Store) (brokerAccount : Account) : Prop :=
  replies.connect = .ok () ∧
    (parts.recoverer = true → ∀ row ∈ activeRows s account, resolvable replies.orders row = true) ∧
    TradesReconcile parts account replies s brokerAccount

theorem accounts_reconciledStore (parts : KernelParts) (account : AccountId)
    (replies : StartReplies) (s : Store) : (∃ snapshot, Overwrites account replies snapshot ∧
      (reconciledStore parts account replies s).accounts account = some snapshot) ∨
    ((∀ snapshot, ¬Overwrites account replies snapshot) ∧
      (reconciledStore parts account replies s).accounts account = s.accounts account) := by
  have hrecovery : (reconciledStore parts account replies s).accounts =
      (refreshed replies.account s).accounts := by
    unfold reconciledStore afterRecovery
    split <;> rfl
  rw [hrecovery]
  unfold refreshed Overwrites
  cases replies.account with
  | error e => exact .inr ⟨by simp, rfl⟩
  | ok snapshot =>
    by_cases hid : snapshot.accountId = account
    · exact .inl ⟨snapshot, ⟨rfl, hid⟩, by simp [hid]⟩
    · refine .inr ⟨?_, Function.update_of_ne (Ne.symm hid) _ _⟩
      rintro other ⟨heq, hother⟩
      obtain rfl := Except.ok.inj heq
      exact hid hother

theorem activeRows_refreshed (queried : Except TradingError Account) (s : Store) :
    activeRows (refreshed queried s) account = activeRows s account := by
  unfold activeRows
  rw [orders_refreshed]

theorem listLocal_reconciledStore (parts : KernelParts) (account : AccountId) (replies : StartReplies)
    (s : Store) : listLocal (reconciledStore parts account replies s) account = listLocal s account := by
  have hpositions : (reconciledStore parts account replies s).positions = s.positions := by
    rw [← positions_refreshed replies.account s]
    unfold reconciledStore afterRecovery
    split <;> rfl
  unfold listLocal
  rw [hpositions]

theorem exists_ok_reportOn_iff : (∃ brokerOrders brokerPositions brokerAccount,
      replies.snapshot.activeOrders = .ok brokerOrders ∧
        replies.snapshot.positions = .ok brokerPositions ∧ replies.snapshot.account = .ok brokerAccount ∧
        (reportOn (reconciledStore parts account replies s) account brokerOrders brokerPositions
          brokerAccount).ok = true) ↔
    ∃ brokerAccount, TradesReconcile parts account replies s brokerAccount ∧
      ∀ current ∈ (reconciledStore parts account replies s).accounts account,
        AccountAgrees current brokerAccount := by
  constructor
  · rintro ⟨brokerOrders, brokerPositions, brokerAccount, horders, hpositions, haccount, hok⟩
    obtain ⟨hordersOk, hpositionsOk, hcurrent⟩ := (ok_reportOn _ _ _ _ _).mp hok
    rw [listLocal_reconciledStore] at hpositionsOk
    exact ⟨brokerAccount, ⟨⟨_, horders, hordersOk⟩, ⟨_, hpositions, hpositionsOk⟩, haccount⟩, hcurrent⟩
  · rintro ⟨brokerAccount, htrades, hcurrent⟩
    obtain ⟨brokerOrders, horders, hordersOk⟩ := htrades.orders
    obtain ⟨brokerPositions, hpositions, hpositionsOk⟩ := htrades.positions
    rw [← listLocal_reconciledStore parts account replies s] at hpositionsOk
    exact ⟨_, _, _, horders, hpositions, htrades.account,
      (ok_reportOn _ _ _ _ _).mpr ⟨hordersOk, hpositionsOk, hcurrent⟩⟩

/-- A kernel that is not ready becomes ready exactly when all checks pass, the account check
being against the row as the first snapshot left it. -/
theorem ready_start_iff (hs : UniqueIds s) (hready : s.ready = false)
    (hreconciler : parts.reconciler = true) :
    ((start parts account replies).exec s).2.ready = true ↔ ∃ brokerAccount,
      OtherChecksPass parts account replies s brokerAccount ∧
        ∀ current ∈ (reconciledStore parts account replies s).accounts account,
          AccountAgrees current brokerAccount := by
  have hunique : UniqueIds (refreshed replies.account s) := by
    unfold UniqueIds
    rwa [orders_refreshed]
  obtain ⟨recovered, hrecovery, hrecovered⟩ :=
    exec_recoveryPasses parts account replies.orders hunique
  obtain ⟨passed, final, hreconciliation, hpassed⟩ := exec_reconciliationPasses parts account
    replies.snapshot (reconciledStore parts account replies s)
  change _ = (_, reconciledStore parts account replies s) at hrecovery
  rw [activeRows_refreshed] at hrecovered
  rw [hreconciler] at hpassed
  simp only [true_imp_iff] at hpassed
  rw [exists_ok_reportOn_iff] at hpassed
  unfold start OtherChecksPass
  rw [Block.exec_bind_ok (Block.exec_get s), if_neg (by simp [hready]), Block.exec_bind, exec_requireOk]
  cases hconnect : replies.connect with
  | error e => simp [hready]
  | ok _ =>
    dsimp only
    rw [Block.exec_bind_ok exec_initialSnapshot, Block.exec_bind_ok hrecovery]
    cases recovered with
    | false =>
      have hstopped := hrecovered.not.mp (by simp)
      simp only [setReady, Bool.false_eq_true, if_false, Block.exec_modify, false_iff]
      rintro ⟨brokerAccount, ⟨-, hresolvable, -⟩, -⟩
      exact hstopped hresolvable
    | true =>
      have hresolvable := hrecovered.mp rfl
      rw [if_pos rfl, Block.exec_bind_ok hreconciliation]
      cases passed with
      | false =>
        have hstopped := hpassed.not.mp (by simp)
        simp only [setReady, Bool.false_eq_true, if_false, Block.exec_modify, false_iff]
        rintro ⟨brokerAccount, ⟨-, -, htrades⟩, hcurrent⟩
        exact hstopped ⟨brokerAccount, htrades, hcurrent⟩
      | true =>
        obtain ⟨brokerAccount, htrades, hcurrent⟩ := hpassed.mp rfl
        simp only [setReady, if_true, Block.exec_modify, true_iff]
        exact ⟨brokerAccount, ⟨trivial, hresolvable, htrades⟩, hcurrent⟩

/-- The gate is sound exactly when the row stored before the start agrees with the broker anyway,
or is not replaced before the comparison, or another check keeps the kernel from becoming ready. -/
theorem gateSound_iff (hs : UniqueIds s) (hready : s.ready = false)
    (hreconciler : parts.reconciler = true) : GateSound parts account replies s ↔
      (∀ brokerAccount, replies.snapshot.account = .ok brokerAccount →
        ∀ stored ∈ s.accounts account, AccountAgrees stored brokerAccount) ∨
      (∀ snapshot, ¬Overwrites account replies snapshot) ∨
      ∀ brokerAccount, OtherChecksPass parts account replies s brokerAccount →
        ∃ snapshot, Overwrites account replies snapshot ∧ ¬AccountAgrees snapshot brokerAccount := by
  unfold GateSound
  rw [ready_start_iff hs hready hreconciler]
  obtain ⟨snapshot, hoverwrites, hcurrent⟩ | ⟨hkept, hcurrent⟩ :=
    accounts_reconciledStore parts account replies s
  · rw [hcurrent]
    simp only [Option.mem_some_iff, forall_eq']
    constructor
    · intro hsound
      by_cases hgate : ∃ brokerAccount, OtherChecksPass parts account replies s brokerAccount ∧
          AccountAgrees snapshot brokerAccount
      · obtain ⟨compared, htrades, hstored⟩ := hsound hgate
        refine .inl fun brokerAccount haccount => ?_
        obtain rfl := Except.ok.inj (htrades.account.symm.trans haccount)
        exact hstored
      · exact .inr (.inr fun brokerAccount hchecks =>
          ⟨snapshot, hoverwrites, fun hagrees => hgate ⟨brokerAccount, hchecks, hagrees⟩⟩)
    · rintro hcondition ⟨brokerAccount, hchecks, hagrees⟩
      obtain hstored | hkept | hblocked := hcondition
      · exact ⟨brokerAccount, hchecks.2.2, hstored brokerAccount hchecks.2.2.account⟩
      · exact absurd hoverwrites (hkept snapshot)
      · obtain ⟨other, hother, hdiffers⟩ := hblocked brokerAccount hchecks
        obtain rfl := Except.ok.inj (hoverwrites.1.symm.trans hother.1)
        exact absurd hagrees hdiffers
  · rw [hcurrent]
    refine iff_of_true ?_ (.inr (.inl hkept))
    rintro ⟨brokerAccount, hchecks, hstored⟩
    exact ⟨brokerAccount, hchecks.2.2, hstored⟩

section Examples

def brokerCash (cash : ℚ) : Account := { accountId := "acc", cash, totalAsset := cash }

def storedCash (cash : ℚ) : Store :=
  { accounts := fun id => if id = "acc" then some (brokerCash cash) else none }

/-- The broker answers every query of the start, always with the same account. -/
def steadyReplies (cash : ℚ) : StartReplies :=
  { account := .ok (brokerCash cash), snapshot := { account := .ok (brokerCash cash) } }

theorem equalCash_gateSound : GateSound {} "acc" (steadyReplies 1000) (storedCash 1000) :=
  (gateSound_iff (by decide) rfl rfl).mpr (.inl (by
    intro brokerAccount haccount stored hstored
    obtain rfl := Except.ok.inj haccount
    obtain rfl : brokerCash 1000 = stored := by simpa [storedCash] using hstored
    decide +kernel))

/-- The stored row is off by 500, and the kernel becomes ready. -/
theorem differentCash_ready :
    ((start {} "acc" (steadyReplies 1000)).exec (storedCash 500)).2.ready = true ∧
      ¬GateSound {} "acc" (steadyReplies 1000) (storedCash 500) := by
  have hready : ((start {} "acc" (steadyReplies 1000)).exec (storedCash 500)).2.ready = true := by
    decide +kernel
  refine ⟨hready, fun hsound => ?_⟩
  obtain ⟨brokerAccount, htrades, hstored⟩ := hsound hready
  obtain rfl := Except.ok.inj htrades.account
  exact absurd (hstored (brokerCash 500) (by simp [storedCash])) (by decide +kernel)

end Examples

end FinDashboard.Core
