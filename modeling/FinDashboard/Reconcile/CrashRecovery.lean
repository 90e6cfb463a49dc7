import FinDashboard.Core.FillDelivery
import FinDashboard.Core.CacheAgreement
import FinDashboard.Reconcile.Recovery

/-!
# Recovery after a crash

A crash may come between any two awaits; what survives is the database. Recovery rewrites each
active row on its own, so its outcome is decided row by row: by the persisted status, the
broker's status and the transition table.
-/

namespace FinDashboard.Reconcile

open Async Core Persistence List

variable {account : AccountId} {view : BrokerView} {s s' : Store}

def recoveredRow (view : BrokerView) (row : Order) : Order :=
  (repair? view (orderFromOrm row)).elim row fun repaired => writeState repaired row

/-- A row in the state of the broker; an order the broker does not know is rejected. -/
def agreesWithBroker (view : BrokerView) (row : Order) : Prop :=
  match view row.clientOrderId with
  | .ok found => row.status = repairTarget found ∧
      ∀ brokerOrder ∈ found, row.filledQuantity = brokerOrder.filledQuantity
  | .error _ => False

instance (view : BrokerView) (row : Order) : Decidable (agreesWithBroker view row) := by
  unfold agreesWithBroker
  split <;> infer_instance

/-- What recovery needs of a row: the table allows the jump from an active status, and a settled
row, which recovery does not look at, agrees already. -/
def Recoverable (view : BrokerView) (row : Order) : Prop :=
  if row.isActive then resolvable view row = true else agreesWithBroker view row

instance (view : BrokerView) (row : Order) : Decidable (Recoverable view row) := by
  unfold Recoverable
  infer_instance

/-- Recovery ends with an empty list of unresolvable orders and every row as at the broker. -/
def Recovered (account : AccountId) (view : BrokerView) (s : Store) : Prop :=
  ∃ report s', (recover account view).exec s = (.ok report, s') ∧ report.ok = true ∧
    ∀ row ∈ s'.orders, row.accountId = account → agreesWithBroker view row

/-- The database after a crash; the memory of the process is lost. -/
def crashed (s : Store) : Store :=
  { orders := s.orders, fills := s.fills, positions := s.positions, accounts := s.accounts }

variable {row : Order}

section Rows

theorem clientOrderId_recoveredRow (view : BrokerView) (row : Order) :
    (recoveredRow view row).clientOrderId = row.clientOrderId := by
  unfold recoveredRow
  cases repair? view (orderFromOrm row) <;> rfl

theorem agreesWithBroker_recoveredRow (h : resolvable view row = true) :
    agreesWithBroker view (recoveredRow view row) := by
  unfold agreesWithBroker
  rw [clientOrderId_recoveredRow]
  unfold resolvable at h
  cases hview : view row.clientOrderId with
  | error e => simp [hview] at h
  | ok found =>
    have hlegal : canTransition row.status (repairTarget found) = true := by simpa [hview] using h
    have hcopy : view (orderFromOrm row).clientOrderId = .ok found := hview
    change _ = repairTarget found ∧ _
    unfold recoveredRow repair?
    rw [hcopy]
    cases found with
    | none =>
      have hreject : canTransition (orderFromOrm row).status .rejected = true := hlegal
      dsimp only
      rw [if_pos hreject]
      exact ⟨rfl, by simp⟩
    | some brokerOrder =>
      have hjump : canTransition (orderFromOrm row).status brokerOrder.status = true := hlegal
      have hfilled := filledQuantity_syncedOrder (orderFromOrm row) brokerOrder
      have hstatus := status_syncedOrder (orderFromOrm row) brokerOrder
      simp only [Option.mem_some_iff, forall_eq']
      unfold repairFrom?
      by_cases hsame : (orderFromOrm row).status = brokerOrder.status
      · rw [if_pos hsame]
        by_cases hsynced : (syncedFilled (orderFromOrm row) brokerOrder).isSome = true
        · rw [if_pos hsynced]
          exact ⟨hstatus.trans hsame, hfilled⟩
        · rw [if_neg hsynced]
          unfold syncedFilled at hsynced
          split at hsynced
          · simp at hsynced
          · rename_i hequal
            exact ⟨hsame, (not_not.mp hequal).symm⟩
      · rw [if_neg hsame, if_pos hjump]
        exact ⟨rfl, hfilled⟩

end Rows

section Loop

def recoverRows (view : BrokerView) (rows : List Order) (s : Store) : Store :=
  { s with orders := s.orders.map fun row => if row ∈ rows then recoveredRow view row else row }

theorem writeRepair_row (hunique : (s.orders.map (·.clientOrderId)).Nodup) (hmem : row ∈ s.orders) :
    writeRepair s (repair? view (orderFromOrm row)) = recoverRows view [row] s := by
  unfold recoverRows
  simp only [mem_singleton]
  cases hrepair : repair? view (orderFromOrm row) with
  | none =>
    have hkeep : s.orders.map (fun other =>
        if other = row then recoveredRow view other else other) = s.orders := by
      conv_rhs => rw [← map_id s.orders]
      apply map_congr_left
      intro other _
      split
      · rename_i heq
        simp [heq, recoveredRow, hrepair]
      · rfl
    rw [hkeep]
    rfl
  | some repaired =>
    have hcopy := clientOrderId_of_repair? hrepair
    have hid : repaired.clientOrderId = row.clientOrderId := hcopy
    change persist s repaired = _
    unfold persist
    congr 1
    apply map_congr_left
    intro other hother
    unfold updateRow
    by_cases heq : other = row
    · simp [heq, hid, recoveredRow, hrepair]
    · have hne : other.clientOrderId ≠ repaired.clientOrderId := fun h =>
        heq (inj_on_of_nodup_map hunique hother hmem (h.trans hid))
      rw [if_neg hne, if_neg heq]

theorem clientOrderIds_recoverRows (view : BrokerView) (rows : List Order) (s : Store) :
    (recoverRows view rows s).orders.map (·.clientOrderId) = s.orders.map (·.clientOrderId) := by
  unfold recoverRows
  rw [map_map]
  apply map_congr_left
  intro row _
  simp only [Function.comp_apply]
  split
  · exact clientOrderId_recoveredRow view row
  · rfl

theorem recoverRows_cons (hunique : (s.orders.map (·.clientOrderId)).Nodup) {first : Order}
    {rest : List Order} (hmem : ∀ row ∈ first :: rest, row ∈ s.orders) (hnew : first ∉ rest) :
    recoverRows view rest (recoverRows view [first] s) = recoverRows view (first :: rest) s := by
  unfold recoverRows
  congr 1
  rw [map_map]
  apply map_congr_left
  intro row _
  simp only [Function.comp_apply, mem_cons]
  by_cases heq : row = first
  · have hgone : recoveredRow view first ∉ rest := by
      intro hmemRest
      have hsame :=
        inj_on_of_nodup_map hunique (hmem _ (mem_cons_of_mem _ hmemRest))
          (hmem _ mem_cons_self) (clientOrderId_recoveredRow view first)
      exact hnew (hsame ▸ hmemRest)
    simp [heq, hgone]
  · simp [heq]

/-- The loop rewrites the listed rows and reports those that are not resolvable. -/
theorem exec_recoverAll (view : BrokerView) (rows : List Order) (report : RecoveryReport)
    (hunique : (s.orders.map (·.clientOrderId)).Nodup) (hmem : ∀ row ∈ rows, row ∈ s.orders)
    (hnodup : rows.Nodup) : ∃ report', (recoverAll view (rows.map orderFromOrm) report).exec s =
        (.ok report', recoverRows view rows s) ∧ report'.unresolvable = report.unresolvable ++
        (rows.filter fun row => !resolvable view row).map (·.clientOrderId) := by
  induction rows generalizing s report with
  | nil => exact ⟨report, by simp [recoverAll, recoverRows], by simp⟩
  | cons first rest ih =>
    have hfirst := hmem first mem_cons_self
    obtain ⟨hnew, hrest⟩ := nodup_cons.mp hnodup
    have hrow : (findOrder s (orderFromOrm first).clientOrderId).isSome :=
      findOrder_isSome.mpr ⟨first, hfirst, rfl⟩
    obtain ⟨next, hexec, hnext⟩ := exec_recoverOne view report hrow
    rw [writeRepair_row hunique hfirst] at hexec
    have hkept : ∀ row ∈ rest, row ∈ (recoverRows view [first] s).orders := by
      intro row hmemRest
      have hne : row ∉ [first] := by
        rw [mem_singleton]
        rintro rfl
        exact hnew hmemRest
      exact mem_map.mpr ⟨row, hmem row (mem_cons_of_mem _ hmemRest), if_neg hne⟩
    obtain ⟨report', hloop, hreport⟩ := ih next
      (by rw [clientOrderIds_recoverRows]; exact hunique) hkept hrest
    refine ⟨report', ?_, ?_⟩
    · rw [map_cons, recoverAll, Block.exec_bind_ok hexec, hloop, recoverRows_cons hunique hmem hnew]
    · have hcopy : resolvable view (orderFromOrm first) = resolvable view first := rfl
      rw [hreport, hnext, hcopy]
      cases hresolvable : resolvable view first <;> simp [hresolvable, orderFromOrm]

/-- A whole run: the listed rows are rewritten and the rest stays. -/
theorem exec_recover (account : AccountId) (view : BrokerView) (hunique : (s.orders.map (·.clientOrderId)).Nodup) :
    ∃ report, (recover account view).exec s = (.ok report, recoverRows view (activeRows s account) s) ∧
      report.unresolvable =
        ((activeRows s account).filter fun row => !resolvable view row).map (·.clientOrderId) := by
  have hnodup : (activeRows s account).Nodup := (List.Nodup.of_map _ hunique).filter _
  obtain ⟨report, hexec, hreport⟩ := exec_recoverAll view (activeRows s account) {} hunique
    (fun row hrow => mem_of_mem_filter hrow) hnodup
  refine ⟨report, ?_, by simpa using hreport⟩
  unfold recover
  rw [Block.exec_bind_ok (Block.exec_get s)]
  exact hexec

end Loop

theorem mem_activeRows : row ∈ activeRows s account ↔
    row ∈ s.orders ∧ row.accountId = account ∧ row.isActive = true := by
  simp [activeRows, mem_listActiveStatuses, Order.isActive]

theorem recovered_iff (hunique : (s.orders.map (·.clientOrderId)).Nodup) : Recovered account view s ↔
      ∀ row ∈ s.orders, row.accountId = account → Recoverable view row := by
  obtain ⟨report, hexec, hreport⟩ := exec_recover account view hunique
  have hok : report.ok = true ↔ ∀ row ∈ activeRows s account, resolvable view row = true := by
    unfold RecoveryReport.ok
    rw [hreport]
    simp [List.isEmpty_iff, List.filter_eq_nil_iff]
  constructor
  · rintro ⟨report', s', hexec', hdone, hagree⟩ row hmem haccount
    rw [hexec] at hexec'
    obtain ⟨rfl, rfl⟩ : report = report' ∧ _ = s' := by simpa using hexec'
    unfold Recoverable
    split
    · rename_i hactive
      exact hok.mp hdone row (mem_activeRows.mpr ⟨hmem, haccount, hactive⟩)
    · rename_i hsettled
      have hkept : row ∉ activeRows s account := fun h => hsettled (mem_activeRows.mp h).2.2
      exact hagree row (mem_map.mpr ⟨row, hmem, if_neg hkept⟩) haccount
  · intro hall
    refine ⟨report, _, hexec, hok.mpr fun row hrow => ?_, fun row' hrow' haccount => ?_⟩
    · obtain ⟨hmem, haccount, hactive⟩ := mem_activeRows.mp hrow
      have hrecoverable := hall row hmem haccount
      unfold Recoverable at hrecoverable
      rwa [if_pos hactive] at hrecoverable
    · obtain ⟨row, hmem, rfl⟩ := mem_map.mp hrow'
      by_cases hlisted : row ∈ activeRows s account
      · obtain ⟨-, hof, hactive⟩ := mem_activeRows.mp hlisted
        have hrecoverable := hall row hmem hof
        unfold Recoverable at hrecoverable
        rw [if_pos hactive] at hrecoverable
        rw [if_pos hlisted]
        exact agreesWithBroker_recoveredRow hrecoverable
      · rw [if_neg hlisted] at haccount ⊢
        have hsettled : ¬row.isActive = true := fun h =>
          hlisted (mem_activeRows.mpr ⟨hmem, haccount, h⟩)
        have hrecoverable := hall row hmem haccount
        unfold Recoverable at hrecoverable
        rwa [if_neg hsettled] at hrecoverable

/-- Order ids are unique in the order table. -/
abbrev UniqueIds (s : Store) : Prop := (s.orders.map (·.clientOrderId)).Nodup

section Repetition

theorem findOrder_of_mem (hs : UniqueIds s) (member : row ∈ s.orders) :
    findOrder s row.clientOrderId = some row := by
  obtain ⟨found, located⟩ := Option.isSome_iff_exists.mp
    (findOrder_isSome.mpr ⟨row, member, rfl⟩)
  have same := inj_on_of_nodup_map hs (findOrder_mem located) member
    (findOrder_clientOrderId located)
  rw [located, same]

theorem known_of_agrees (active : row.isActive = true) (agrees : agreesWithBroker view row) :
    ∃ brokerOrder, view row.clientOrderId = .ok (some brokerOrder) ∧
      row.status = brokerOrder.status ∧ row.filledQuantity = brokerOrder.filledQuantity := by
  unfold agreesWithBroker at agrees
  cases answered : view row.clientOrderId with
  | error e => simp [answered] at agrees
  | ok found =>
    simp only [answered] at agrees
    cases found with
    | none =>
      unfold Order.isActive at active
      rw [agrees.1] at active
      cases active
    | some brokerOrder => exact ⟨brokerOrder, rfl, agrees.1, agrees.2 brokerOrder rfl⟩

theorem exec_recoverOne_settled (active : row.isActive = true) (agrees : agreesWithBroker view row)
    (report : RecoveryReport) : (recoverOne view (orderFromOrm row) report).exec s = (.ok report, s) := by
  obtain ⟨brokerOrder, known, status, filled⟩ := known_of_agrees active agrees
  have answered : view (orderFromOrm row).clientOrderId = .ok (some brokerOrder) := known
  have same : (orderFromOrm row).status = brokerOrder.status := status
  have synced : syncedFilled (orderFromOrm row) brokerOrder = none :=
    if_neg (not_not.mpr filled.symm)
  unfold recoverOne
  rw [answered, Block.exec_bind_ok (exec_requireOk _)]
  dsimp only
  unfold repairFromBroker
  dsimp only
  rw [if_pos same, synced, if_neg (by simp)]
  rfl

theorem exec_recoverAll_settled {rows : List Order}
    (settled : ∀ row ∈ rows, row.isActive = true ∧ agreesWithBroker view row) (report : RecoveryReport) :
    (recoverAll view (rows.map orderFromOrm) report).exec s = (.ok report, s) := by
  induction rows with
  | nil => rfl
  | cons row rest ih =>
    obtain ⟨⟨active, agrees⟩, later⟩ := forall_mem_cons.mp settled
    have first : (tryCatch (recoverOne view (orderFromOrm row) report) fun _ =>
        return report.addUnresolvable (orderFromOrm row).clientOrderId :
          Session RecoveryReport).exec s = (.ok report, s) := by
      rw [Block.exec_tryCatch, exec_recoverOne_settled active agrees]
    rw [map_cons, recoverAll, Block.exec_bind_ok first]
    exact ih later

/-- A recovery that leaves nothing unresolved has put every active row into the state of the
broker. -/
theorem agrees_of_recover (hs : UniqueIds s) {report : RecoveryReport}
    (ran : (recover account view).exec s = (.ok report, s')) (ok : report.ok = true) :
    s' = recoverRows view (activeRows s account) s ∧
      ∀ row ∈ activeRows s account, agreesWithBroker view (recoveredRow view row) := by
  obtain ⟨again, exec, unresolvable⟩ := exec_recover account view hs
  rw [ran] at exec
  obtain ⟨rfl, rfl⟩ : report = again ∧ s' = recoverRows view (activeRows s account) s := by
    simpa using exec
  refine ⟨rfl, fun row active => agreesWithBroker_recoveredRow ?_⟩
  unfold RecoveryReport.ok at ok
  rw [unresolvable, List.isEmpty_iff, List.map_eq_nil_iff, List.filter_eq_nil_iff] at ok
  simpa using ok row active

/-- Recovery is sound, and a second run against the same answers finds nothing to do. -/
theorem recover_sound (account : AccountId) (view : BrokerView) {s s' : Store} (hs : UniqueIds s)
    {report : RecoveryReport} (ran : (recover account view).exec s = (.ok report, s'))
    (ok : report.ok = true) :
    (∀ row ∈ activeRows s account, ∃ row', findOrder s' row.clientOrderId = some row' ∧
        agreesWithBroker view row') ∧ (recover account view).exec s' = (.ok {}, s') := by
  obtain ⟨rfl, agrees⟩ := agrees_of_recover hs ran ok
  constructor
  · intro row active
    have member : recoveredRow view row ∈ (recoverRows view (activeRows s account) s).orders :=
      mem_map.mpr ⟨row, (mem_filter.mp active).1, if_pos active⟩
    have unique : UniqueIds (recoverRows view (activeRows s account) s) := by
      unfold UniqueIds
      rwa [clientOrderIds_recoverRows]
    refine ⟨recoveredRow view row, ?_, agrees row active⟩
    rw [← clientOrderId_recoveredRow view row]
    exact findOrder_of_mem unique member
  · have settled : ∀ row ∈ activeRows (recoverRows view (activeRows s account) s) account,
        row.isActive = true ∧ agreesWithBroker view row := by
      intro row active
      obtain ⟨member, owned, stillOpen⟩ := mem_activeRows.mp active
      obtain ⟨before, there, rfl⟩ := mem_map.mp member
      refine ⟨stillOpen, ?_⟩
      by_cases listed : before ∈ activeRows s account
      · rw [if_pos listed]
        exact agrees before listed
      · rw [if_neg listed] at owned stillOpen
        exact absurd (mem_activeRows.mpr ⟨there, owned, stillOpen⟩) listed
    unfold recover
    rw [Block.exec_bind_ok (Block.exec_get _)]
    exact exec_recoverAll_settled settled {}

/-- A filled order, an order the broker has never seen, and one to be left alone. -/
def interrupted : Store where
  orders := [{ newOrder "acc" buyRequest "o1" with status := .acknowledged },
    { newOrder "acc" buyRequest "o2" with status := .unknown },
    { newOrder "acc" buyRequest "o3" with status := .submitted }]

def interruptedView : BrokerView := fun clientOrderId =>
  if clientOrderId = "o2" then .ok none
  else .ok (some { newOrder "acc" buyRequest clientOrderId with
    status := if clientOrderId = "o1" then .filled else .submitted
    filledQuantity := if clientOrderId = "o1" then 100 else 0 })

theorem recover_sound_interrupted :
    (∀ row ∈ activeRows interrupted "acc", ∃ row',
        findOrder ((recover "acc" interruptedView).exec interrupted).2 row.clientOrderId =
          some row' ∧ agreesWithBroker interruptedView row') ∧
      (recover "acc" interruptedView).exec ((recover "acc" interruptedView).exec interrupted).2 =
        (.ok {}, ((recover "acc" interruptedView).exec interrupted).2) := by
  have unique : UniqueIds interrupted := by decide +kernel
  obtain ⟨report, ran, unresolvable⟩ :=
    exec_recover (s := interrupted) "acc" interruptedView unique
  have none : report.unresolvable = [] := by
    rw [unresolvable]
    decide +kernel
  have ok : report.ok = true := by
    rw [RecoveryReport.ok, none]
    rfl
  have after := recover_sound "acc" interruptedView unique ran ok
  rw [ran]
  exact after

end Repetition

section Runs

variable {config : Risk.RiskConfig}

theorem uniqueIds_of_step {point : Point} (h : Step account config point s s')
    (hs : UniqueIds s) : UniqueIds s' :=
  h.kept.ids hs

/-- Whatever calls and events are interrupted by a crash, at whatever await, and whatever the
broker has done with the orders since: recovery resolves everything and leaves every row as at
the broker if and only if every row is recoverable. -/
theorem crashRecovery_iff_recoverable {events : List Broker.BrokerEvent} {calls : List Call}
    (hs : UniqueIds s) (schedule : List (ℕ × Broker.Reply)) (view : BrokerView) {crash : Store}
    (hcrash : crash = crashed ((orderManager account config events calls s).exec schedule).shared) :
    Recovered account view crash ↔
      ∀ row ∈ crash.orders, row.accountId = account → Recoverable view row := by
  subst hcrash
  refine recovered_iff ?_
  exact Pool.exec_preserves _ schedule (fun turn hturn =>
    uniqueIds_of_step (orderManager_steps events calls s schedule turn hturn)) hs

end Runs

section Examples

def placing : TaskPool := orderManager "acc" {} [] [.place buyRequest "o1"] { ready := true }

def brokerHas (status : OrderStatus) (filledQuantity : ℚ) : BrokerView := fun clientOrderId =>
  if clientOrderId = "o1" then
    .ok (some { newOrder "acc" buyRequest "o1" with
      brokerOrderId := some "B1"
      status
      filledQuantity })
  else .ok none

/-- The submission timed out; the order was filled meanwhile. -/
theorem timedOut_recovered :
    Recovered "acc" (brokerHas .filled 100)
      (crashed (placing.exec (turnsOf 1 9 { submission := .timeout })).shared) :=
  (crashRecovery_iff_recoverable (s := { ready := true }) (by decide +kernel)
    (turnsOf 1 9 { submission := .timeout }) (brokerHas .filled 100) rfl).mpr
    (by decide +kernel)

/-- The process stops in the broker call: the row is still `RISK_CHECKED`, from where the table
has no way to the acknowledged order of the broker. -/
theorem acceptedOrder_unresolvable :
    (crashed (placing.exec (turnsOf 1 7 {})).shared).orders.map (·.status) = [.riskChecked] ∧
      ((recover "acc" (brokerHas .acknowledged 0)).exec
        (crashed (placing.exec (turnsOf 1 7 {})).shared)).1.map (·.unresolvable) = .ok ["o1"] ∧
      ¬Recovered "acc" (brokerHas .acknowledged 0)
        (crashed (placing.exec (turnsOf 1 7 {})).shared) := by
  refine ⟨by decide +kernel, by decide +kernel, ?_⟩
  rw [recovered_iff (by decide +kernel)]
  decide +kernel

end Examples

end FinDashboard.Reconcile
