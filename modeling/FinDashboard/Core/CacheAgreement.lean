import FinDashboard.Core.Booking
import Mathlib.Data.List.Nodup

/-!
# Settled rows

A row whose status is terminal belongs to a cached object whose status is terminal, so a
write-back of the cache never reopens a settled row. Only the bulk cancel can: it writes
copies that it listed earlier.
-/

namespace FinDashboard.Core

open Async Broker Persistence Risk List

variable {account : AccountId} {config : RiskConfig}

/-- The bulk cancel writes a copy only while the order's row is still active. -/
def copiesActive : PointCondition
  | .updateCopy copy, _, s =>
      ∀ row ∈ s.orders, row.clientOrderId = copy.clientOrderId → row.status.isActive = true
  | _, _, _ => True

instance : ∀ point reply s, Decidable (copiesActive point reply s) := by
  intro point reply s
  apply Point.casesOn (motive := fun point => Decidable (copiesActive point reply s)) point <;>
    intros <;> (unfold copiesActive; infer_instance)

/-- Order ids are unique, and a settled row has a settled object. -/
structure RowsSettled (s : Store) : Prop where
  keyed : CacheKeyed s
  unique : (s.orders.map (·.clientOrderId)).Nodup
  settled : ∀ row ∈ s.orders, row.status.isTerminal = true →
    ∀ order, s.inflight row.clientOrderId = some order → order.status.isTerminal = true

/-- A legal change of status does not reopen a settled order. -/
theorem isTerminal_of_canTransition {source target : OrderStatus} (h : canTransition source target = true)
    (hterminal : source.isTerminal = true) : target.isTerminal = true := by
  rwa [← (canTransition_of_isTerminal hterminal).mp h]

theorem map_clientOrderId_persist (s : Store) (order : Order) :
    (persist s order).orders.map (·.clientOrderId) = s.orders.map (·.clientOrderId) := by
  unfold persist
  rw [map_map]
  apply map_congr_left
  intro row _
  simp

theorem nodup_insertOrder {s : Store} {order : Order} (hunique : (s.orders.map (·.clientOrderId)).Nodup)
    (habsent : findOrder s order.clientOrderId = none) :
    ((s.insertOrder order).orders.map (·.clientOrderId)).Nodup := by
  have hnew : ∀ row ∈ s.orders, row.clientOrderId ≠ order.clientOrderId := fun row hmem heq =>
    find?_eq_none.mp habsent row hmem (decide_eq_true heq)
  rw [orders_insertOrder, map_append, nodup_append]
  refine ⟨hunique, by simp, ?_⟩
  intro id hid other hother
  obtain ⟨row, hrow, rfl⟩ := mem_map.mp hid
  obtain rfl := mem_singleton.mp hother
  exact hnew row hrow

theorem row_eq_of_findOrder {s : Store} (hunique : (s.orders.map (·.clientOrderId)).Nodup)
    {clientOrderId : ClientOrderId} {row other : Order} (hrow : findOrder s clientOrderId = some row)
    (hmem : other ∈ s.orders) (hid : other.clientOrderId = clientOrderId) : other = row :=
  inj_on_of_nodup_map hunique hmem (findOrder_mem hrow)
    (hid.trans (findOrder_clientOrderId hrow).symm)

/-- A write-back changes neither owner nor terms of an order. -/
theorem updateRow_terms (order row : Order) :
    (updateRow order.clientOrderId (writeState order) row).accountId = row.accountId ∧
      (updateRow order.clientOrderId (writeState order) row).side = row.side ∧
      (updateRow order.clientOrderId (writeState order) row).symbol = row.symbol ∧
      (updateRow order.clientOrderId (writeState order) row).orderType = row.orderType ∧
      (updateRow order.clientOrderId (writeState order) row).price = row.price ∧
      (updateRow order.clientOrderId (writeState order) row).quantity = row.quantity := by
  unfold updateRow
  split <;> exact ⟨rfl, rfl, rfl, rfl, rfl, rfl⟩

/-- No row that is active after the write-back was settled before. -/
def KeepsSettled (order : Order) (s : Store) : Prop :=
  ∀ row ∈ s.orders, row.clientOrderId = order.clientOrderId →
    order.status.isActive = true → row.status.isActive = true

theorem isActive_of_updateRow {s : Store} {order row : Order} (hkeeps : KeepsSettled order s)
    (hmem : row ∈ s.orders)
    (hactive : (updateRow order.clientOrderId (writeState order) row).status.isActive = true) :
    row.status.isActive = true := by
  by_cases hid : row.clientOrderId = order.clientOrderId
  · simp only [updateRow, hid, if_true] at hactive
    exact hkeeps row hmem hid hactive
  · simpa [updateRow, hid] using hactive

namespace RowsSettled

variable {s s' : Store}

/-- Writing back a cached object does not reopen its row. -/
theorem keepsSettled (h : RowsSettled s) {clientOrderId : ClientOrderId} {order : Order}
    (hcached : s.inflight clientOrderId = some order) : KeepsSettled order s := by
  intro row hmem hid hactive
  by_contra hsettled
  have hterminal := h.settled row hmem (by simpa [OrderStatus.isActive] using hsettled) order
    (by rw [hid, h.keyed.id _ _ hcached]; exact hcached)
  simp [OrderStatus.isActive, hterminal] at hactive

/-- Caching an object that is settled if its row is. -/
theorem ofCache (h : RowsSettled s) {clientOrderId : ClientOrderId} {order : Order}
    (hid : order.clientOrderId = clientOrderId) (hrow : (findOrder s clientOrderId).isSome)
    (hsettled : ∀ row ∈ s.orders, row.clientOrderId = clientOrderId →
      row.status.isTerminal = true → order.status.isTerminal = true) :
    RowsSettled (s.cache clientOrderId order) where
  keyed := h.keyed.ofCache hid hrow
  unique := h.unique
  settled row hmem hterminal order' horder' := by
    by_cases heq : row.clientOrderId = clientOrderId
    · have hsame : order = order' := by simpa [heq] using horder'
      rw [← hsame]
      exact hsettled row hmem heq hterminal
    · exact h.settled row hmem hterminal order' (by simpa [heq] using horder')

theorem ofMutate (h : RowsSettled s) {clientOrderId : ClientOrderId} {order order' : Order}
    (hcached : s.inflight clientOrderId = some order)
    (hlegal : canTransition order.status order'.status = true)
    (hid : order'.clientOrderId = order.clientOrderId) : RowsSettled (s.cache clientOrderId order') := by
  refine h.ofCache (hid.trans (h.keyed.id _ _ hcached)) (h.keyed.row _ (by rw [hcached]; rfl)) ?_
  intro row hmem heq hterminal
  exact isTerminal_of_canTransition hlegal (h.settled row hmem hterminal order (by rwa [heq]))

/-- Writing back an object that is settled only if it is the cached one. -/
theorem ofPersist (h : RowsSettled s) {order : Order}
    (horder : order.status.isTerminal = true → s.inflight order.clientOrderId = some order) :
    RowsSettled (persist s order) where
  keyed := h.keyed.of_inflight_eq rfl (.ofPersist _ _)
  unique := by
    rw [map_clientOrderId_persist]
    exact h.unique
  settled row hmem hterminal order' horder' := by
    obtain ⟨-, hold⟩ | ⟨hid, old, -, -, hwrite⟩ := mem_persist hmem
    · exact h.settled row hold hterminal order' horder'
    · have hstatus : row.status = order.status := by rw [hwrite]; rfl
      rw [hstatus] at hterminal
      rw [hid, inflight_persist, horder hterminal] at horder'
      rwa [← Option.some.inj horder']

theorem of_eq (h : RowsSettled s) (hinflight : s'.inflight = s.inflight)
    (horders : s'.orders = s.orders) : RowsSettled s' where
  keyed := h.keyed.of_inflight_eq hinflight (.of_orders_eq horders)
  unique := by rw [horders]; exact h.unique
  settled := by rw [horders, hinflight]; exact h.settled

theorem ofRoutine (hroutine : Routine s s') (h : RowsSettled s) : RowsSettled s' := by
  induction hroutine with
  | other hinflight horders => exact h.of_eq hinflight horders
  | load _ hrow =>
    have hid := findOrder_clientOrderId hrow
    refine h.ofCache hid (by rw [hrow]; rfl) ?_
    intro other hmem heq hterminal
    rw [row_eq_of_findOrder h.unique hrow hmem heq] at hterminal
    exact hterminal
  | mutate hcached hlegal _ hsame => exact h.ofMutate hcached hlegal (by rw [← hsame])
  | persist hcached _ =>
    have hid := h.keyed.id _ _ hcached
    exact h.ofPersist fun _ => by rw [hid]; exact hcached
  | trans _ _ ih ih' => exact ih' (ih h)

theorem ofStep {point : Point} {reply : Reply} (hlegal : brokerLegal point reply s)
    (hstep : Step account config point s s') (h : RowsSettled s) : RowsSettled s' := by
  have hkeyed := CacheKeyed.ofStep hstep h.keyed
  unfold Step at hstep
  split at hstep
  · obtain rfl | ⟨⟨request, id, level, rfl, -⟩, hnone, rfl⟩ := hstep
    · exact h
    · refine ⟨hkeyed, nodup_insertOrder h.unique hnone, ?_⟩
      · intro row hmem hterminal order horder
        rcases mem_append.mp hmem with hold | hnew
        · exact h.settled row hold hterminal order horder
        · obtain rfl := mem_singleton.mp hnew
          cases hterminal
  · obtain ⟨⟨request, id, level, rfl, -⟩, hrow, rfl⟩ := hstep
    have hid : (newOrder account request id).clientOrderId = id := rfl
    refine h.ofCache hid hrow ?_
    intro row hmem heq hterminal
    rw [hlegal.2 row hmem heq] at hterminal
    cases hterminal
  · obtain rfl | ⟨hpending, -, rfl⟩ := hstep
    · exact h
    · exact h.ofPersist fun hterminal => by rw [hpending] at hterminal; cases hterminal
  · obtain rfl | ⟨-, rfl⟩ := hstep
    · exact h
    · exact h.of_eq rfl rfl
  · rename_i clientOrderId fill
    obtain ⟨-, rfl⟩ | ⟨order, hcached, ⟨hadmitted, rfl⟩ | ⟨-, rfl⟩⟩ := hstep
    · exact h
    · have hcache : RowsSettled (s.cache clientOrderId (executed fill order)) :=
        h.ofMutate hcached hadmitted rfl
      exact hcache.of_eq rfl rfl
    · exact h.ofMutate hcached (by simp [canTransition, addExecution]) rfl
  · obtain ⟨position, rfl⟩ := hstep
    exact h.of_eq (inflight_upsertLocal position s) (orders_upsertLocal position s)
  · exact ofRoutine hstep h

end RowsSettled

/-!
## Agreement of cache and rows

Operations run one after the other, each to its end. An operation changes the cell of one
order and then writes it back; between operations every cached object has the state of its
row. The bulk cancel is the exception: it writes copies of the rows and leaves the cache.
-/

/-- What `update_state` writes and `list_active` reads, less the rejection texts. -/
structure SameState (order row : Order) : Prop where
  status : order.status = row.status
  filledQuantity : order.filledQuantity = row.filledQuantity
  averageFillPrice : order.averageFillPrice = row.averageFillPrice
  brokerOrderId : order.brokerOrderId = row.brokerOrderId

/-- Every cached order has a row, and its rows have its state. -/
structure Agreement (s : Store) : Prop where
  keyed : CacheKeyed s
  agree : ∀ clientOrderId order, s.inflight clientOrderId = some order →
    ∀ row ∈ s.orders, row.clientOrderId = clientOrderId → SameState order row

def cancelStatuses : List OrderStatus := [.cancelPending, .cancelled]

/-- The invariant between operations: agreement, and every order whose cancellation was sent
waits for the confirmation or has it. -/
structure InSync (s : Store) : Prop extends Agreement s where
  unique : (s.orders.map (·.clientOrderId)).Nodup
  requested : ∀ clientOrderId ∈ s.cancelRequests, (findOrder s clientOrderId).isSome ∧
    ∀ row ∈ s.orders, row.clientOrderId = clientOrderId → row.status ∈ cancelStatuses

/-- The invariant while the cell of one order waits to be written back. -/
structure InSyncExcept (clientOrderId : ClientOrderId) (s : Store) : Prop where
  keyed : CacheKeyed s
  unique : (s.orders.map (·.clientOrderId)).Nodup
  agree : ∀ other order, other ≠ clientOrderId → s.inflight other = some order →
    ∀ row ∈ s.orders, row.clientOrderId = other → SameState order row
  requested : ∀ other ∈ s.cancelRequests, (findOrder s other).isSome ∧
    (other ≠ clientOrderId → ∀ row ∈ s.orders, row.clientOrderId = other → row.status ∈ cancelStatuses)
  cell : ∃ order, s.inflight clientOrderId = some order ∧
    (clientOrderId ∈ s.cancelRequests → order.status ∈ cancelStatuses)

/-- The object an event handler works on. -/
def lookup (s : Store) (clientOrderId : ClientOrderId) : Option Order :=
  (s.inflight clientOrderId).or (getOrder s clientOrderId)

/-- The steps that keep cache and rows together: the bulk cancel writes a copy only of an order
that is not cached or is already `CANCEL_PENDING` in the cache, the state machine admits each
fill, and an `ACCEPTED` report brings a broker id only to an order it acknowledges. -/
def agreementCondition : PointCondition
  | .updateCopy copy, _, s =>
      ∀ order ∈ s.inflight copy.clientOrderId, order.status = .cancelPending
  | .bookFill clientOrderId fill, _, s =>
      ∀ order ∈ s.inflight clientOrderId, admitsFill fill order = true
  | .markAccepted clientOrderId brokerOrderId, _, s =>
      ∀ order ∈ lookup s clientOrderId, hasText brokerOrderId = true →
        order.brokerOrderId = none → order.status ∈ [OrderStatus.submitting, .submitted, .unknown]
  | _, _, _ => True

instance : ∀ point reply s, Decidable (agreementCondition point reply s) := by
  intro point reply s
  apply Point.casesOn (motive := fun point => Decidable (agreementCondition point reply s)) point <;>
    intros <;> (unfold agreementCondition; infer_instance)

/-- A sent cancellation is only ever confirmed. -/
theorem cancelStatuses_of_canTransition {source target : OrderStatus}
    (h : canTransition source target = true) (hsource : source ∈ cancelStatuses) :
    target ∈ cancelStatuses := by
  revert h hsource
  cases source <;> cases target <;> decide

namespace InSync

variable {s s' : Store}

/-- Only the cache, the rows and the sent cancellations matter. -/
theorem of_eq (h : InSync s) (hinflight : s'.inflight = s.inflight) (horders : s'.orders = s.orders)
    (hrequests : s'.cancelRequests = s.cancelRequests) : InSync s' where
  keyed := h.keyed.of_inflight_eq hinflight (.of_orders_eq horders)
  agree := by rw [hinflight, horders]; exact h.agree
  unique := by rw [horders]; exact h.unique
  requested := by
    unfold findOrder
    rw [hrequests, horders]
    exact h.requested

/-- The cell of an order in agreement, as one that could be written back. -/
theorem except (h : InSync s) {clientOrderId : ClientOrderId} {order : Order}
    (hcached : s.inflight clientOrderId = some order) : InSyncExcept clientOrderId s where
  keyed := h.keyed
  unique := h.unique
  agree other order' _ := h.agree other order'
  requested other hother := ⟨(h.requested other hother).1, fun _ => (h.requested other hother).2⟩
  cell := by
    refine ⟨order, hcached, fun hrequest => ?_⟩
    obtain ⟨hrow, hstatus⟩ := h.requested clientOrderId hrequest
    obtain ⟨row, hmem, hid⟩ := findOrder_isSome.mp hrow
    rw [(h.agree _ _ hcached row hmem hid).status]
    exact hstatus row hmem hid

/-- A cached order whose cancellation was sent waits for the confirmation or has it. -/
theorem cached_requested (h : InSync s) {clientOrderId : ClientOrderId} {order : Order}
    (hcached : s.inflight clientOrderId = some order)
    (hrequest : clientOrderId ∈ s.cancelRequests) : order.status ∈ cancelStatuses := by
  obtain ⟨current, hcurrent, hstatus⟩ := (h.except hcached).cell
  rw [hcached] at hcurrent
  rw [Option.some.inj hcurrent]
  exact hstatus hrequest

theorem load (h : InSync s) {clientOrderId : ClientOrderId} {row : Order}
    (hrow : findOrder s clientOrderId = some row) :
    InSync (s.cache clientOrderId (orderFromOrm row)) where
  keyed := by
    have hid := findOrder_clientOrderId hrow
    exact h.keyed.ofCache hid (by rw [hrow]; rfl)
  agree other order hother other' hmem hid := by
    by_cases heq : other = clientOrderId
    · have hsame : orderFromOrm row = order := by simpa [heq] using hother
      rw [row_eq_of_findOrder h.unique hrow hmem (hid.trans heq), ← hsame]
      exact ⟨rfl, rfl, rfl, rfl⟩
    · exact h.agree other order (by simpa [heq] using hother) other' hmem hid
  unique := h.unique
  requested := h.requested

theorem getOrderInflight (h : InSync s) (clientOrderId : ClientOrderId) :
    (∃ order t, (Core.getOrderInflight clientOrderId).exec s = (.ok (some order), t) ∧ InSync t ∧
      t.inflight clientOrderId = some order ∧ t.orders = s.orders ∧
      t.cancelRequests = s.cancelRequests ∧ lookup s clientOrderId = some order) ∨
    ((Core.getOrderInflight clientOrderId).exec s = (.ok none, s) ∧
      findOrder s clientOrderId = none) := by
  cases hcached : s.inflight clientOrderId with
  | some order =>
    exact .inl ⟨order, s, exec_getOrderInflight hcached, h, hcached, rfl, rfl, by simp [lookup, hcached]⟩
  | none =>
    rw [exec_getOrderInflight_none hcached]
    unfold getOrder
    cases hrow : findOrder s clientOrderId with
    | none => exact .inr ⟨rfl, rfl⟩
    | some row =>
      exact .inl ⟨_, _, rfl, h.load hrow, by simp, rfl, rfl, by simp [lookup, hcached, getOrder, hrow]⟩

end InSync

namespace InSyncExcept

variable {s : Store} {clientOrderId : ClientOrderId} {order : Order}

theorem cache (h : InSyncExcept clientOrderId s) (hid : order.clientOrderId = clientOrderId)
    (hrequest : clientOrderId ∈ s.cancelRequests → order.status ∈ cancelStatuses) :
    InSyncExcept clientOrderId (s.cache clientOrderId order) where
  keyed := by
    obtain ⟨current, hcurrent, -⟩ := h.cell
    exact h.keyed.ofCache hid (h.keyed.row _ (by rw [hcurrent]; rfl))
  unique := h.unique
  agree other order' hne hother := h.agree other order' hne (by simpa [hne] using hother)
  requested := h.requested
  cell := ⟨order, by simp, hrequest⟩

theorem transition (h : InSyncExcept clientOrderId s) {order' : Order}
    (hcached : s.inflight clientOrderId = some order)
    (hlegal : canTransition order.status order'.status = true)
    (hid : order'.clientOrderId = order.clientOrderId) :
    InSyncExcept clientOrderId (s.cache clientOrderId order') := by
  obtain ⟨current, hcurrent, hstatus⟩ := h.cell
  rw [hcached] at hcurrent
  obtain rfl := Option.some.inj hcurrent
  exact h.cache (hid.trans (h.keyed.id _ _ hcached)) fun hrequest =>
    cancelStatuses_of_canTransition hlegal (hstatus hrequest)

/-- Writing the cell back restores the agreement. -/
theorem write (h : InSyncExcept clientOrderId s) (hcached : s.inflight clientOrderId = some order) :
    InSync (persist s order) := by
  have hid := h.keyed.id _ _ hcached
  have hrequested : clientOrderId ∈ s.cancelRequests → order.status ∈ cancelStatuses := by
    obtain ⟨current, hcurrent, hstatus⟩ := h.cell
    rw [hcached] at hcurrent
    rwa [Option.some.inj hcurrent]
  refine ⟨⟨h.keyed.of_inflight_eq rfl (.ofPersist _ _), ?_⟩, ?_, ?_⟩
  · intro other order' hother row hmem hrow
    obtain ⟨hne, hold⟩ | ⟨hsame, old, -, -, hwrite⟩ := mem_persist hmem
    · refine h.agree other order' (fun heq => hne ?_) hother row hold hrow
      rw [hrow, heq, hid]
    · have heq := hrow.symm.trans (hsame.trans hid)
      rw [heq, inflight_persist, hcached] at hother
      obtain rfl := Option.some.inj hother
      rw [hwrite]
      exact ⟨rfl, rfl, rfl, rfl⟩
  · rw [map_clientOrderId_persist]
    exact h.unique
  · intro other hother
    obtain ⟨hrow, hstatus⟩ := h.requested other hother
    refine ⟨RowsPersist.ofPersist s order other hrow, fun row hmem heq => ?_⟩
    obtain ⟨hne, hold⟩ | ⟨hsame, old, -, -, hwrite⟩ := mem_persist hmem
    · exact hstatus (fun h' => hne (by rw [heq, h', hid])) row hold heq
    · have hcell := heq.symm.trans (hsame.trans hid)
      rw [hwrite]
      exact hrequested (hcell ▸ hother)

end InSyncExcept

end FinDashboard.Core
