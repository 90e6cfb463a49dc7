import FinDashboard.Core.AgreementRuns

/-!
# Cache and rows agree between operations

The event handlers keep the agreement as the calls do; so does every finite sequence of
completed calls and handled events.
-/

namespace FinDashboard.Core

open Async Async.Block Broker Persistence Risk Solo

variable {account : AccountId} {config : RiskConfig} {Ok : PointCondition} {s : Store}

/-- The order is `CANCELLED` in the cache and in its row. -/
def CancelledEverywhere (s : Store) (clientOrderId : ClientOrderId) : Prop :=
  (∃ order, s.inflight clientOrderId = some order ∧ order.status = .cancelled) ∧
    (findOrder s clientOrderId).isSome ∧
    ∀ row ∈ s.orders, row.clientOrderId = clientOrderId → row.status = .cancelled

theorem onAccepted_solo (h : InSync s) (event : BrokerEvent) : Keeps (onAccepted event) s := by
  unfold onAccepted
  cases event.clientOrderId with
  | none => exact ret h
  | some clientOrderId =>
    refine step fun _ hok => .inl ?_
    unfold acknowledge
    obtain ⟨order, t, hexec, ht, hcached, -, -, hlookup⟩ | ⟨hexec, -⟩ :=
      h.getOrderInflight clientOrderId
    · rw [exec_bind_ok hexec]
      dsimp only
      rw [exec_ite]
      have hcell := ht.except hcached
      have hack : ∀ {u : Store} {order' : Order}, InSyncExcept clientOrderId u →
          u.inflight clientOrderId = some order' → order'.status = order.status →
          order.status ∈ [OrderStatus.submitting, .submitted, .unknown] →
          ∃ b v, (do
            transition clientOrderId .acknowledged
            return true : Session Bool).exec u = (.ok b, v) ∧
            Keeps (if b = true then
              .atomically (.updateState clientOrderId) fun _ => updateCached clientOrderId
              else pure ()) v := by
        intro u order' hu hu' hstatus hmem
        have hlegal : canTransition order'.status .acknowledged = true := by
          rw [hstatus]
          revert hmem
          cases order.status <;> decide
        refine ⟨true, _, by rw [exec_bind_ok (exec_transition_ok hu' hlegal)]; rfl, ?_⟩
        have hnext : InSyncExcept clientOrderId
            (u.cache clientOrderId { order' with status := .acknowledged }) :=
          hu.transition hu' hlegal rfl
        exact writeLast hnext (inflight_cache_self _ _ _)
          (hnext.write (inflight_cache_self _ _ _))
      by_cases hbroker : (hasText event.brokerOrderId && order.brokerOrderId.isNone) = true
      · rw [if_pos hbroker, exec_bind_ok (exec_mutateOrder _ hcached)]
        simp only [Bool.and_eq_true, Option.isNone_iff_eq_none] at hbroker
        have hmem := hok order hlookup hbroker.1 hbroker.2
        rw [exec_ite, if_pos hmem]
        exact hack (hcell.transition hcached (by simp [canTransition]) rfl)
          (inflight_cache_self _ _ _) rfl hmem
      · rw [if_neg hbroker, exec_ite]
        by_cases hmem : order.status ∈ [OrderStatus.submitting, .submitted, .unknown]
        · rw [if_pos hmem]
          exact hack hcell hcached rfl hmem
        · rw [if_neg hmem]
          exact ⟨false, t, rfl, ret ht⟩
    · rw [exec_bind_ok hexec]
      exact ⟨false, s, rfl, ret h⟩

variable {clientOrderId : ClientOrderId}

/-- Reports that move an order along the state machine, in the cell and then in the row. -/
theorem settle_solo (h : InSync s) {point : Point} {change : Session Unit} (target : OrderStatus)
    (hchange : ∀ {t order}, t.inflight clientOrderId = some order →
      (canTransition order.status target = true ∧ ∃ order',
        change.exec t = (.ok (), t.cache clientOrderId order') ∧
          order'.clientOrderId = order.clientOrderId ∧ order'.status = target) ∨
      (canTransition order.status target = false ∧ ∃ e, change.exec t = (.error e, t))) :
    Solo Ok (fun _ t => InSync t ∧ (target = .cancelled → CancelRequested s clientOrderId →
        clientOrderId ∈ s.cancelRequests → CancelledEverywhere t clientOrderId))
      (do
        let found ← .atomically point fun _ => settle clientOrderId change
        if found then
          .atomically (.updateState clientOrderId) fun _ => updateCached clientOrderId) s := by
  refine step fun _ _ => ?_
  unfold settle
  obtain ⟨order, t, hexec, ht, hcached, horders, hrequests, -⟩ | ⟨hexec, habsent⟩ :=
    h.getOrderInflight clientOrderId
  · rw [exec_bind_ok hexec]
    dsimp only
    obtain ⟨hlegal, order', hmove, hid, hstatus⟩ | ⟨hillegal, e, hstop⟩ := hchange hcached
    · rw [exec_bind_ok hmove]
      refine .inl ⟨true, _, rfl, ?_⟩
      have hnext := (ht.except hcached).transition hcached (by rw [hstatus]; exact hlegal) hid
      have hcell := inflight_cache_self t order' clientOrderId
      refine writeLast hnext hcell ⟨hnext.write hcell, fun htarget _ _ => ?_⟩
      have hkey := hid.trans (ht.keyed.id _ _ hcached)
      have hrow := ht.keyed.row clientOrderId (by rw [hcached]; rfl)
      refine ⟨⟨order', hcell, hstatus.trans htarget⟩, RowsPersist.ofPersist _ _ _ hrow, ?_⟩
      intro row hmem hrowid
      obtain ⟨hne, -⟩ | ⟨-, old, -, -, hwrite⟩ := mem_persist hmem
      · exact absurd (hrowid.trans hkey.symm) hne
      · rw [hwrite]
        exact hstatus.trans htarget
    · rw [exec_bind_error hstop]
      refine .inr ⟨e, t, rfl, ht, fun htarget _ hrequest => ?_⟩
      have hpending := ht.cached_requested hcached (by rwa [hrequests])
      have hlegal : canTransition order.status target = true := by
        rw [htarget]
        revert hpending
        cases order.status <;> decide
      rw [hillegal] at hlegal
      cases hlegal
  · rw [exec_bind_ok hexec]
    refine .inl ⟨false, s, rfl, ret ⟨h, fun _ hrequested _ => ?_⟩⟩
    rw [CancelRequested, habsent] at hrequested
    cases hrequested.1

/-- A confirmed cancellation reaches the cache and the row. -/
theorem onCancelled_solo (h : InSync s) {event : BrokerEvent}
    (hevent : event.clientOrderId = some clientOrderId) : Solo Ok (fun _ t => InSync t ∧
      (clientOrderId ∈ s.cancelRequests → CancelledEverywhere t clientOrderId))
      (onCancelled event) s := by
  unfold onCancelled
  rw [hevent]
  refine Safe.mono (fun _ _ _ h => h) (fun _ _ h => h) (fun _ _ _ _ _ h => h) ?_
    (settle_solo h .cancelled ?_)
  · rintro result t ⟨ht, hdone⟩
    exact ⟨ht, fun hrequest => hdone rfl (h.requested _ hrequest) hrequest⟩
  · intro t order hcached
    by_cases hlegal : canTransition order.status .cancelled = true
    · exact .inl ⟨hlegal, _, exec_transition_ok hcached hlegal, rfl, rfl⟩
    · exact .inr ⟨by simpa using hlegal, _, by rw [exec_transition _ hcached, if_neg hlegal]⟩

theorem onRejected_solo (h : InSync s) (event : BrokerEvent) : Keeps (onRejected event) s := by
  unfold onRejected
  cases event.clientOrderId with
  | none => exact ret h
  | some clientOrderId =>
    refine Safe.mono (fun _ _ _ h => h) (fun _ _ h => h) (fun _ _ _ _ _ h => h)
      (fun _ _ h => h.1) (settle_solo h .rejected ?_)
    intro t order hcached
    unfold reject
    by_cases hlegal : canTransition order.status .rejected = true
    · refine .inl ⟨hlegal, { order with
        status := .rejected
        rejectReason := some (event.rejectReason.getD .brokerRejected)
        rejectMessage := some event.message }, ?_, rfl, rfl⟩
      rw [exec_bind_ok (exec_transition_ok hcached hlegal),
        exec_mutateOrder _ (inflight_cache_self _ _ _), cache_cache]
    · refine .inr ⟨by simpa using hlegal, .invalidStateTransition order.status .rejected, ?_⟩
      rw [exec_bind_error (by rw [exec_transition _ hcached, if_neg hlegal])]

/-- Updating the position touches neither orders nor cancellations. -/
theorem applyFill_solo (h : InSync s) (fill : Fill) : Keeps (applyFill account fill) s := by
  unfold applyFill
  refine step fun _ _ => .inl ⟨_, s, rfl, last fun _ _ => ?_⟩
  refine h.of_eq (inflight_upsertLocal _ s) (orders_upsertLocal _ s) ?_
  change (upsertLocal _ s).cancelRequests = s.cancelRequests
  unfold upsertLocal
  split <;> rfl

theorem onFilled_solo (h : InSync s) (event : BrokerEvent) : Keeps (onFilled account event) s := by
  unfold onFilled
  split
  · rename_i fill clientOrderId _ _
    refine step fun _ _ => .inl ⟨getFill s fill.fillId, s, rfl, ?_⟩
    cases getFill s fill.fillId with
    | some known => exact ret h
    | none =>
      refine step fun _ _ => .inl ?_
      obtain ⟨order, t, hexec, ht, hcached, -, -, -⟩ | ⟨hexec, -⟩ :=
        h.getOrderInflight clientOrderId
      · refine ⟨some order, t, hexec, ?_⟩
        refine step fun _ _ => .inl ⟨(), _, exec_addFill fill t, ?_⟩
        have hstored : ∀ u : Store, (u = t ∨ u = { t with fills := t.fills ++ [fill] }) →
            InSync u ∧ u.inflight clientOrderId = some order := by
          rintro u (rfl | rfl)
          · exact ⟨ht, hcached⟩
          · exact ⟨ht.of_eq rfl rfl rfl, hcached⟩
        generalize hu : (if (getFill t fill.fillId).isSome then t
          else { t with fills := t.fills ++ [fill] }) = u
        obtain ⟨husync, hucached⟩ := hstored u (by
          rw [← hu]
          split
          · exact .inl rfl
          · exact .inr rfl)
        refine step fun _ hok => .inl ?_
        have hadmitted := hok order hucached
        rw [exec_bookFill fill hucached, if_pos hadmitted]
        refine ⟨(), _, rfl, ?_⟩
        have hcell : InSyncExcept clientOrderId (u.cache clientOrderId (executed fill order)) :=
          (husync.except hucached).transition hucached hadmitted rfl
        have hlogged : InSyncExcept clientOrderId
            { u.cache clientOrderId (executed fill order) with
              bookedFills := u.bookedFills ++ [fill] } :=
          ⟨hcell.keyed.of_inflight_eq rfl (.of_orders_eq rfl), hcell.unique, hcell.agree,
            hcell.requested, hcell.cell⟩
        have hnow := inflight_cache_self u (executed fill order) clientOrderId
        exact writeBack hlogged hnow (applyFill_solo (hlogged.write hnow) fill)
      · exact ⟨none, s, hexec, ret h⟩
  · exact ret h

theorem handleBrokerEvent_solo (h : InSync s) (event : BrokerEvent) :
    Keeps (handleBrokerEvent account event) s := by
  unfold handleBrokerEvent
  cases event.type with
  | orderAccepted => exact onAccepted_solo h event
  | orderFilled => exact onFilled_solo h event
  | orderRejected => exact onRejected_solo h event
  | orderCancelled =>
    cases hevent : event.clientOrderId with
    | none =>
      unfold onCancelled
      rw [hevent]
      exact ret h
    | some clientOrderId =>
      exact Safe.mono (fun _ _ _ h => h) (fun _ _ h => h) (fun _ _ _ _ _ h => h)
        (fun _ _ h => h.1) (onCancelled_solo h hevent)
  | connected => exact ret h
  | disconnected => exact ret h
  | orderCancelRejected => exact ret h
  | error => exact ret h

theorem operation_solo (h : InSync s) (operation : Operation) :
    Keeps (operation.task account config) s := by
  have hcatch : ∀ {p : TradingTask Unit}, Keeps p s →
      Keeps (tryCatch p fun _ => return ()) s := by
    intro p hp
    refine Safe.tryCatch (fun _ => rfl)
      (Safe.mono (fun _ _ _ h => h) (fun _ _ h => h) (fun _ _ _ _ _ h => h) ?_ hp)
    intro result t ht
    cases result with
    | ok _ => exact ret ht
    | error _ => exact ret ht
  cases operation with
  | event event => exact hcatch (handleBrokerEvent_solo h event)
  | call call =>
    refine hcatch ?_
    cases call with
    | place request clientOrderId => exact placeOrder_solo h request clientOrderId
    | cancel clientOrderId => exact cancelOrder_solo h clientOrderId
    | cancelAll =>
      refine seq (Safe.mono (fun _ _ _ h => h) (fun _ _ h => h) (fun _ _ _ _ _ h => h) ?_
        (cancelAllActive_solo h))
      intro result t ht
      cases result with
      | ok _ => exact ret ht
      | error _ => exact ht

theorem runOperations_solo (h : InSync s) (operations : List Operation) :
    Keeps (runOperations account config operations) s := by
  induction operations generalizing s with
  | nil => exact ret h
  | cons operation rest ih =>
    refine seq (Safe.mono (fun _ _ _ h => h) (fun _ _ h => h) (fun _ _ _ _ _ h => h) ?_
      (operation_solo h operation))
    intro result t ht
    cases result with
    | ok _ => exact ih ht
    | error _ => exact ht

theorem inSync_of_result {operations : List Operation} (h : InSync s) {schedule : List (ℕ × Reply)}
    (hok : (sequentially account config operations s).Admits agreementCondition schedule)
    (hdone : ((sequentially account config operations s).exec schedule).result? 0 = some (.ok ())) :
    InSync ((sequentially account config operations s).exec schedule).shared :=
  Pool.result_of_safe_alone (runOperations_solo h operations) hok hdone

/-- The handling of a `CANCELLED` report, alone in its pool. -/
theorem cancelledEverywhere_of_result (h : InSync s) (hrequest : clientOrderId ∈ s.cancelRequests)
    {report : BrokerEvent} (htype : report.type = .orderCancelled)
    (hid : report.clientOrderId = some clientOrderId) {schedule : List (ℕ × Reply)}
    (hdone : ((sequentially account config [.event report] s).exec schedule).result? 0 = some (.ok ())) :
    CancelledEverywhere ((sequentially account config [.event report] s).exec schedule).shared
      clientOrderId := by
  have hhandle : Solo (fun _ _ _ => True) (fun _ t => CancelledEverywhere t clientOrderId)
      (handleBrokerEvent account report) s := by
    unfold handleBrokerEvent
    rw [htype]
    exact Safe.mono (fun _ _ _ h => h) (fun _ _ h => h) (fun _ _ _ _ _ h => h)
      (fun _ _ hdone => hdone.2 hrequest) (onCancelled_solo h hid)
  have hrun : Solo (fun _ _ _ => True) (fun _ t => CancelledEverywhere t clientOrderId)
      (runOperations account config [.event report]) s := by
    refine seq (Safe.tryCatch (fun _ => rfl) (Safe.mono (fun _ _ _ h => h) (fun _ _ h => h)
      (fun _ _ _ _ _ h => h) ?_ hhandle))
    intro result t ht
    cases result with
    | ok _ => exact ret (ret ht)
    | error _ => exact ret (ret ht)
  exact Pool.result_of_safe_alone hrun (fun _ _ => trivial) hdone

theorem inSync_empty : InSync { ready := true } where
  keyed := ⟨by simp, by simp⟩
  agree := by simp
  unique := by simp
  requested := by simp

section Examples

/-- One order is placed, acknowledged and cancelled alone. -/
def cancelOne : List Operation :=
  [.call (.place buyRequest "o1"), .event acceptedEvent, .call (.cancel "o1")]

def withOrderId : Reply := { submission := .returned { brokerOrderId := some "B1" } }

/-- One order is placed and acknowledged, then everything is cancelled, and the broker confirms. -/
def cancelEverything : TaskPool :=
  sequentially "acc" {} [.call (.place buyRequest "o1"), .event acceptedEvent, .call .cancelAll,
    .event { type := .orderCancelled, clientOrderId := some "o1" }] { ready := true }

end Examples

end FinDashboard.Core
