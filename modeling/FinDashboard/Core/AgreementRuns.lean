import FinDashboard.Core.Operations

/-!
# Runs of completed operations

Agreement of cache and rows is an invariant of every operation whose blocks meet the
agreement condition, hence of every finite sequence of operations. A cancellation that was
sent is therefore confirmed in both places.
-/

namespace FinDashboard.Core

open Async Async.Block Broker Persistence Risk List Solo

variable {account : AccountId} {config : RiskConfig} {s : Store} {clientOrderId : ClientOrderId}
variable {order : Order}

section Place

theorem InSync.insertCached (h : InSync s) (habsent : findOrder s order.clientOrderId = none) :
    order.clientOrderId ∉ s.cancelRequests ∧ InSyncExcept order.clientOrderId
      ((s.insertOrder order).cache order.clientOrderId { order with status := .submitting }) := by
  have hrequest : order.clientOrderId ∉ s.cancelRequests := by
    intro hmem
    have hrow := (h.requested _ hmem).1
    rw [habsent] at hrow
    cases hrow
  have hkeyed : CacheKeyed (s.insertOrder order) :=
    h.keyed.of_inflight_eq rfl (.ofInsertOrder s order)
  have hrow : (findOrder (s.insertOrder order) order.clientOrderId).isSome := by
    rw [findOrder_insertOrder, Option.isSome_or]
    simp
  refine ⟨hrequest, hkeyed.ofCache rfl hrow, nodup_insertOrder h.unique habsent, ?_, ?_,
    ⟨_, inflight_cache_self _ _ _, fun hmem => absurd hmem hrequest⟩⟩
  · intro other order' hne hother row hmem hid
    rcases mem_append.mp hmem with hold | hnew
    · exact h.agree other order' (by simpa [hne] using hother) row hold hid
    · rw [mem_singleton.mp hnew] at hid
      exact absurd hid.symm hne
  · intro other hother
    obtain ⟨hexists, hstatus⟩ := h.requested other hother
    refine ⟨RowsPersist.ofInsertOrder s order other hexists, fun hne row hmem hid => ?_⟩
    rcases mem_append.mp hmem with hold | hnew
    · exact hstatus row hold hid
    · rw [mem_singleton.mp hnew] at hid
      exact absurd hid.symm hne

/-- The broker's own id goes into the cell; nothing else of the order changes. -/
theorem brokerReceive_inSyncExcept (h : InSyncExcept clientOrderId s)
    (hcached : s.inflight clientOrderId = some order) (stampedOrderId : Option String) :
    ∃ t order', (brokerReceive clientOrderId stampedOrderId).exec s = (.ok (), t) ∧
      InSyncExcept clientOrderId t ∧ t.inflight clientOrderId = some order' ∧
      order'.status = order.status ∧ t.cancelRequests = s.cancelRequests := by
  have hlog : InSyncExcept clientOrderId
      { s with submissions := s.submissions ++ [clientOrderId] } :=
    ⟨h.keyed.of_inflight_eq rfl (.of_orders_eq rfl), h.unique, h.agree, h.requested, h.cell⟩
  unfold brokerReceive
  rw [exec_bind_ok (exec_modify _ _)]
  cases stampedOrderId with
  | none => exact ⟨_, order, rfl, hlog, hcached, rfl, rfl⟩
  | some id =>
    refine ⟨_, _, exec_mutateOrder _ hcached, ?_, inflight_cache_self _ _ _, rfl, rfl⟩
    exact hlog.transition hcached (by simp [canTransition]) rfl

theorem exec_checkAdmission_state (request : OrderRequest) (s : Store) :
    ((checkAdmission account config request).exec s).2 = s := by
  unfold checkAdmission
  simp only [exec_bind, exec_get, exec_ite, exec_throw, exec_requireOk]
  split
  · rfl
  · split <;> rfl

theorem placeOrder_solo (h : InSync s) (request : OrderRequest) (clientOrderId : ClientOrderId) :
    Keeps (placeOrder account config request clientOrderId) s := by
  unfold placeOrder
  refine seq (last fun _ _ => ?_)
  rw [exec_checkAdmission_state]
  cases ((checkAdmission account config request).exec s).1 with
  | error _ => exact h
  | ok _ =>
    refine seq (Safe.mono (fun _ _ _ h => h) (fun _ _ h => h) (fun _ _ _ _ _ h => h) ?_
      (checkContext_solo request h))
    intro result t ht
    cases result with
    | error _ => exact ht
    | ok _ =>
      refine step fun _ _ => ?_
      rw [exec_addOrder]
      cases hfind : findOrder t (newOrder account request clientOrderId).clientOrderId with
      | some row => exact .inr ⟨_, _, rfl, ht⟩
      | none =>
        obtain ⟨hrequest, hcell⟩ := ht.insertCached hfind
        refine .inl ⟨(), _, rfl, step fun _ _ => .inl ⟨(), _, exec_cacheOrder rfl, ?_⟩⟩
        refine step fun reply _ => .inl ?_
        obtain ⟨u, order, hexec, hnext, hcached, hstatus, hrequests⟩ :=
          brokerReceive_inSyncExcept hcell (inflight_cache_self _ _ _) reply.stampedOrderId
        exact ⟨(), u, hexec, awaitSubmission_solo hnext hcached hstatus (by rwa [hrequests])⟩

end Place

section Cancel

/-- The rows of an order wait for the confirmation of a cancellation or have it. -/
def CancelRequested (s : Store) (clientOrderId : ClientOrderId) : Prop :=
  (findOrder s clientOrderId).isSome ∧
    ∀ row ∈ s.orders, row.clientOrderId = clientOrderId → row.status ∈ cancelStatuses

theorem InSync.request (h : InSync s)
    (hrequested : CancelRequested s clientOrderId) :
    InSync { s with cancelRequests := s.cancelRequests ++ [clientOrderId] } where
  keyed := h.keyed.of_inflight_eq rfl (.of_orders_eq rfl)
  agree := h.agree
  unique := h.unique
  requested other hother := by
    rcases mem_append.mp hother with hold | hnew
    · exact h.requested other hold
    · rw [mem_singleton.mp hnew]
      exact hrequested

/-- Sending the cancellation only adds it to the log. -/
theorem exec_brokerCancel_state (clientOrderId : ClientOrderId) (outcome : CallOutcome Unit) :
    ((brokerCancel clientOrderId outcome).exec s).2 =
      { s with cancelRequests := s.cancelRequests ++ [clientOrderId] } := by
  cases outcome <;> rfl

theorem cancelRequested_persist (hrow : (findOrder s order.clientOrderId).isSome)
    (hstatus : order.status = .cancelPending) :
    CancelRequested (persist s order) order.clientOrderId := by
  refine ⟨RowsPersist.ofPersist s order _ hrow, fun row hmem hid => ?_⟩
  obtain ⟨hne, -⟩ | ⟨-, old, -, -, hwrite⟩ := mem_persist hmem
  · exact absurd hid hne
  · rw [hwrite]
    change order.status ∈ cancelStatuses
    rw [hstatus]
    decide

theorem cancelOrder_solo (h : InSync s) (clientOrderId : ClientOrderId) :
    Keeps (cancelOrder clientOrderId) s := by
  unfold cancelOrder
  refine step fun _ _ => ?_
  unfold requestCancel
  obtain ⟨order, t, hexec, ht, hcached, -, -, -⟩ | ⟨hexec, -⟩ := h.getOrderInflight clientOrderId
  · rw [exec_bind_ok hexec]
    dsimp only
    rw [exec_ite]
    by_cases hactive : order.isActive = true
    · rw [if_neg (by simp [hactive]), exec_transition _ hcached]
      by_cases hlegal : canTransition order.status .cancelPending = true
      · rw [if_pos hlegal]
        have hid := ht.keyed.id _ _ hcached
        have hcell : InSyncExcept clientOrderId
            (t.cache clientOrderId { order with status := .cancelPending }) :=
          (ht.except hcached).transition hcached hlegal rfl
        refine .inl ⟨(), _, rfl, writeBack hcell (inflight_cache_self _ _ _) ?_⟩
        refine last fun reply _ => ?_
        rw [exec_brokerCancel_state]
        refine (hcell.write (inflight_cache_self _ _ _)).request ?_
        have hrow := ht.keyed.row clientOrderId (by rw [hcached]; rfl)
        rw [← hid] at hrow ⊢
        exact cancelRequested_persist hrow rfl
      · rw [if_neg hlegal]
        exact .inr ⟨_, t, rfl, ht⟩
    · rw [if_pos (by simp [hactive]), exec_bind_error (exec_throw _ t)]
      exact .inr ⟨_, t, rfl, ht⟩
  · rw [exec_bind_ok hexec]
    exact .inr ⟨_, s, rfl, h⟩

/-- A copy as `list_active` made it: it has a row, and the fields of its cached object. -/
structure CopyOf (s : Store) (copy : Order) : Prop where
  row : (findOrder s copy.clientOrderId).isSome
  cached : ∀ order, s.inflight copy.clientOrderId = some order →
    order.filledQuantity = copy.filledQuantity ∧
      order.averageFillPrice = copy.averageFillPrice ∧ order.brokerOrderId = copy.brokerOrderId

/-- Writing a copy whose cached object already waits for the cancellation. -/
theorem InSync.persistCopy (h : InSync s) {copy : Order} (hcopy : CopyOf s copy)
    (hpending : copy.status = .cancelPending)
    (hcached : ∀ order, s.inflight copy.clientOrderId = some order →
      order.status = .cancelPending) : InSync (persist s copy) where
  keyed := h.keyed.of_inflight_eq rfl (.ofPersist _ _)
  agree other order hother row hmem hid := by
    obtain ⟨-, hold⟩ | ⟨hsame, old, -, -, hwrite⟩ := mem_persist hmem
    · exact h.agree other order hother row hold hid
    · rw [hid] at hsame
      rw [inflight_persist, hsame] at hother
      obtain ⟨hfilled, haverage, hbroker⟩ := hcopy.cached order hother
      rw [hwrite]
      exact ⟨(hcached order hother).trans hpending.symm, hfilled, haverage, hbroker⟩
  unique := by
    rw [map_clientOrderId_persist]
    exact h.unique
  requested other hother := by
    obtain ⟨hrow, hstatus⟩ := h.requested other hother
    refine ⟨RowsPersist.ofPersist s copy other hrow, fun row hmem hid => ?_⟩
    obtain ⟨-, hold⟩ | ⟨-, old, -, -, hwrite⟩ := mem_persist hmem
    · exact hstatus row hold hid
    · rw [hwrite]
      change copy.status ∈ cancelStatuses
      rw [hpending]
      decide

theorem CancelRequested.persistCopy {copy : Order} (h : CancelRequested s clientOrderId)
    (hpending : copy.status = .cancelPending) : CancelRequested (persist s copy) clientOrderId := by
  refine ⟨RowsPersist.ofPersist s copy _ h.1, fun row hmem hid => ?_⟩
  obtain ⟨-, hold⟩ | ⟨-, old, -, -, hwrite⟩ := mem_persist hmem
  · exact h.2 row hold hid
  · rw [hwrite]
    change copy.status ∈ cancelStatuses
    rw [hpending]
    decide

/-- Phase one of the bulk cancel leaves every candidate waiting for its confirmation. -/
theorem markCopies_solo (h : InSync s) {orders : List Order} (horders : ∀ o ∈ orders, CopyOf s o) :
    Solo agreementCondition (fun result t => InSync t ∧ (result = .ok () →
      (∀ o ∈ orders, CancelRequested t o.clientOrderId) ∧
        ∀ clientOrderId, CancelRequested s clientOrderId → CancelRequested t clientOrderId))
      (markCopies orders) s := by
  induction orders generalizing s with
  | nil => exact ret ⟨h, fun _ => ⟨by simp, fun _ h => h⟩⟩
  | cons order rest ih =>
    unfold markCopies
    by_cases hlegal : canTransition order.status .cancelPending = true
    · rw [if_neg (by simp [hlegal])]
      refine step fun _ hok => ?_
      have hcopy : CopyOf s { order with status := .cancelPending } :=
        ⟨(horders order mem_cons_self).row, (horders order mem_cons_self).cached⟩
      have hsync := h.persistCopy hcopy rfl hok
      rw [exec_updateState, if_neg (by simpa [Option.isSome_iff_ne_none] using hcopy.row)]
      refine .inl ⟨(), _, rfl, ?_⟩
      refine Safe.mono (fun _ _ _ h => h) (fun _ _ h => h) (fun _ _ _ _ _ h => h) ?_
        (ih hsync fun o ho => ?_)
      · rintro result t ⟨ht, hdone⟩
        refine ⟨ht, fun hresult => ?_⟩
        obtain ⟨hlater, hkept⟩ := hdone hresult
        refine ⟨fun o ho => ?_, fun id hid => hkept id (hid.persistCopy rfl)⟩
        rcases mem_cons.mp ho with rfl | hlater'
        · exact hkept _ (cancelRequested_persist hcopy.row rfl)
        · exact hlater o hlater'
      · have hcopy' := horders o (mem_cons_of_mem _ ho)
        exact ⟨RowsPersist.ofPersist _ _ _ hcopy'.row, hcopy'.cached⟩
    · rw [if_pos (by simp [hlegal])]
      exact raise ⟨h, by simp⟩

/-- Phase two of the bulk cancel only sends requests. -/
theorem requestCancels_solo (h : InSync s) {orders : List Order}
    (horders : ∀ o ∈ orders, CancelRequested s o.clientOrderId) : Keeps (requestCancels orders) s := by
  induction orders generalizing s with
  | nil => exact ret h
  | cons order rest ih =>
    have hrest : ∀ sent : List ClientOrderId, Keeps
        (do return sent ++ (← requestCancels rest))
        { s with cancelRequests := s.cancelRequests ++ [order.clientOrderId] } := by
      intro sent
      refine seq (Safe.mono (fun _ _ _ h => h) (fun _ _ h => h) (fun _ _ _ _ _ h => h) ?_
        (ih (h.request (horders order mem_cons_self)) fun o ho =>
          horders o (mem_cons_of_mem _ ho)))
      intro result t ht
      cases result with
      | ok _ => exact ret ht
      | error _ => exact ht
    unfold requestCancels
    refine seq (Safe.tryCatch (fun _ => rfl) (seq (last fun reply _ => ?_)))
    rw [exec_brokerCancel_state]
    cases ((brokerCancel order.clientOrderId reply.cancellation).exec s).1 with
    | ok _ => exact ret (ret (hrest _))
    | error _ => exact ret (hrest _)

theorem cancelAllActive_solo (h : InSync s) : Keeps (cancelAllActive account) s := by
  unfold cancelAllActive
  refine step fun _ _ => .inl ⟨listActive s account, s, rfl, ?_⟩
  have hcopies : ∀ o ∈ (listActive s account).filter (·.isActive), CopyOf s o := by
    intro o ho
    obtain ⟨row, hrow, rfl⟩ := mem_map.mp (mem_filter.mp ho).1
    have hmem := (mem_filter.mp hrow).1
    refine ⟨findOrder_isSome.mpr ⟨row, hmem, rfl⟩, fun order hcached => ?_⟩
    have hsame := h.agree _ _ hcached row hmem rfl
    exact ⟨hsame.filledQuantity, hsame.averageFillPrice, hsame.brokerOrderId⟩
  refine seq (Safe.mono (fun _ _ _ h => h) (fun _ _ h => h) (fun _ _ _ _ _ h => h) ?_
    (markCopies_solo h hcopies))
  rintro result t ⟨ht, hdone⟩
  cases result with
  | error _ => exact ht
  | ok _ => exact requestCancels_solo ht (hdone rfl).1

end Cancel

end FinDashboard.Core
