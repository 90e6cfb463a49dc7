import FinDashboard.Core.AgreementRuns

/-!
# A submission and the events of its order

`place_order` is suspended inside the broker call while the consumer handles the reports of
the same order. Both move the one cached object through the state machine and both write it
back. The relations of this module say what each of them may do to the other.
-/

namespace FinDashboard.Core

open Async Broker Persistence

variable {account : AccountId} {clientOrderId : ClientOrderId} {s s' t u : Store} {order : Order}

/-- The place of a status in the life of an accepted order; the exits come last. -/
def rank : OrderStatus → ℕ
  | .created => 0
  | .riskChecked => 1
  | .submitting => 2
  | .submitted => 3
  | .acknowledged => 4
  | .partiallyFilled => 5
  | .filled => 6
  | .cancelPending | .cancelled | .rejected | .unknown => 7

def rankOf (order : Option Order) : ℕ := order.elim 0 fun order => rank order.status

def cachedStatus (s : Store) (clientOrderId : ClientOrderId) : Option OrderStatus :=
  (s.inflight clientOrderId).map (·.status)

def storedStatus (s : Store) (clientOrderId : ClientOrderId) : Option OrderStatus :=
  (findOrder s clientOrderId).map (·.status)

/-- Neither the cached object nor the row moves backwards. -/
structure Forward (clientOrderId : ClientOrderId) (s s' : Store) : Prop where
  cached : rankOf (s.inflight clientOrderId) ≤ rankOf (s'.inflight clientOrderId)
  stored : rankOf (findOrder s clientOrderId) ≤ rankOf (findOrder s' clientOrderId)

theorem status_of_rank {status target : OrderStatus} (h : rank status = rank target)
    (htarget : rank target ≤ 6) : status = target := by
  revert h htarget
  cases status <;> cases target <;> decide

/-- The row is not ahead of the cached object. -/
def RowBehind (clientOrderId : ClientOrderId) (s : Store) : Prop :=
  rankOf (findOrder s clientOrderId) ≤ rankOf (s.inflight clientOrderId)

/-- The cached object advances, and so does the row as long as it stays behind. -/
structure Progress (clientOrderId : ClientOrderId) (s s' : Store) : Prop where
  cached : rankOf (s.inflight clientOrderId) ≤ rankOf (s'.inflight clientOrderId)
  stored : RowBehind clientOrderId s → RowBehind clientOrderId s' ∧
    rankOf (findOrder s clientOrderId) ≤ rankOf (findOrder s' clientOrderId)
  row : (findOrder s clientOrderId).isSome → (findOrder s' clientOrderId).isSome

namespace Progress

theorem refl (s : Store) : Progress clientOrderId s s := ⟨le_rfl, fun h => ⟨h, le_rfl⟩, id⟩

theorem trans (h : Progress clientOrderId s t) (h' : Progress clientOrderId t u) :
    Progress clientOrderId s u where
  cached := h.cached.trans h'.cached
  stored hs := by
    obtain ⟨ht, hst⟩ := h.stored hs
    obtain ⟨hu, htu⟩ := h'.stored ht
    exact ⟨hu, hst.trans htu⟩
  row := h'.row ∘ h.row

theorem of_eq (hinflight : s'.inflight = s.inflight) (horders : s'.orders = s.orders) :
    Progress clientOrderId s s' := by
  have hrow : findOrder s' clientOrderId = findOrder s clientOrderId := by
    unfold findOrder
    rw [horders]
  refine ⟨by rw [hinflight], fun h => ?_, by rw [hrow]; exact id⟩
  unfold RowBehind
  rw [hinflight, hrow]
  exact ⟨h, le_rfl⟩

theorem ofCache (hcached : s.inflight clientOrderId = some order) {order' : Order}
    (hrank : rank order.status ≤ rank order'.status) :
    Progress clientOrderId s (s.cache clientOrderId order') := by
  have hadvance : rankOf (s.inflight clientOrderId) ≤
      rankOf ((s.cache clientOrderId order').inflight clientOrderId) := by
    rw [hcached, inflight_cache_self]
    exact hrank
  exact ⟨hadvance, fun h => ⟨h.trans hadvance, le_rfl⟩, id⟩

/-- Writing the cached object back lets the row catch up. -/
theorem ofPersist (hcached : s.inflight clientOrderId = some order)
    (hid : order.clientOrderId = clientOrderId) : Progress clientOrderId s (persist s order) := by
  refine ⟨le_rfl, fun h => ?_, RowsPersist.ofPersist s order clientOrderId⟩
  unfold RowBehind at h ⊢
  rw [findOrder_persist, inflight_persist]
  rw [hcached] at h ⊢
  cases hrow : findOrder s clientOrderId with
  | none => simp [rankOf]
  | some row =>
    have hrowId := findOrder_clientOrderId hrow
    rw [hrow] at h
    simp only [Option.map_some, updateRow, hrowId, hid, if_true]
    exact ⟨le_rfl, h⟩

end Progress

/-- The row carries the status of an object that was just written back. -/
theorem storedStatus_persist (hid : order.clientOrderId = clientOrderId)
    (hrow : (findOrder s clientOrderId).isSome) :
    storedStatus (persist s order) clientOrderId = some order.status := by
  obtain ⟨row, hfound⟩ := Option.isSome_iff_exists.mp hrow
  have hrowId := findOrder_clientOrderId hfound
  unfold storedStatus
  rw [findOrder_persist, hfound]
  simp [updateRow, hrowId, hid, writeState]

/-- How one task may change the cached object: its identity, quantity and execution stay. -/
structure SameOrder (order order' : Order) : Prop where
  clientOrderId : order'.clientOrderId = order.clientOrderId
  quantity : order'.quantity = order.quantity
  filledQuantity : order'.filledQuantity = order.filledQuantity

/-- What the suspended call does to the consumer: it moves the object from `SUBMITTING` to the
acknowledged status once, and may write it back. -/
structure ReplyStep (target : OrderStatus) (clientOrderId : ClientOrderId) (s s' : Store) :
    Prop extends Progress clientOrderId s s' where
  fills : s'.fills = s.fills
  object : ∀ order, s.inflight clientOrderId = some order →
    ∃ order', s'.inflight clientOrderId = some order' ∧ SameOrder order order' ∧
      (order'.status = order.status ∨ order.status = .submitting ∧ order'.status = target)

namespace ReplyStep

variable {target : OrderStatus}

theorem refl (s : Store) : ReplyStep target clientOrderId s s :=
  ⟨.refl s, rfl, fun order h => ⟨order, h, ⟨rfl, rfl, rfl⟩, .inl rfl⟩⟩

theorem trans (h : ReplyStep target clientOrderId s t) (h' : ReplyStep target clientOrderId t u) :
    ReplyStep target clientOrderId s u := by
  refine ⟨h.toProgress.trans h'.toProgress, h'.fills.trans h.fills, fun order hcached => ?_⟩
  obtain ⟨next, hnext, hsame, hstatus⟩ := h.object order hcached
  obtain ⟨last, hlast, hsame', hstatus'⟩ := h'.object next hnext
  refine ⟨last, hlast, ⟨hsame'.clientOrderId.trans hsame.clientOrderId,
    hsame'.quantity.trans hsame.quantity, hsame'.filledQuantity.trans hsame.filledQuantity⟩, ?_⟩
  obtain hkeep | ⟨hfrom, hto⟩ := hstatus
  · rwa [hkeep] at hstatus'
  · obtain hkeep' | ⟨-, hto'⟩ := hstatus'
    · exact .inr ⟨hfrom, hkeep'.trans hto⟩
    · exact .inr ⟨hfrom, hto'⟩

end ReplyStep

/-- What the consumer does to the suspended call: the object stays cached, and a change of its
status leads to `ACKNOWLEDGED` or beyond. -/
structure ReportStep (clientOrderId : ClientOrderId) (s s' : Store) : Prop
    extends Progress clientOrderId s s' where
  object : ∀ order, s.inflight clientOrderId = some order →
    ∃ order', s'.inflight clientOrderId = some order' ∧
      order'.clientOrderId = order.clientOrderId ∧
      (order'.status = order.status ∨ rank .acknowledged ≤ rank order'.status)

namespace ReportStep

theorem refl (s : Store) : ReportStep clientOrderId s s :=
  ⟨.refl s, fun order h => ⟨order, h, rfl, .inl rfl⟩⟩

theorem trans (h : ReportStep clientOrderId s t) (h' : ReportStep clientOrderId t u) :
    ReportStep clientOrderId s u := by
  refine ⟨h.toProgress.trans h'.toProgress, fun order hcached => ?_⟩
  obtain ⟨next, hnext, hid, hstatus⟩ := h.object order hcached
  obtain ⟨last, hlast, hid', hstatus'⟩ := h'.object next hnext
  refine ⟨last, hlast, hid'.trans hid, ?_⟩
  obtain hkeep | hbeyond := hstatus
  · rwa [hkeep] at hstatus'
  · obtain hkeep' | hbeyond' := hstatus'
    · rw [hkeep']
      exact .inr hbeyond
    · exact .inr hbeyond'

/-- Steps that leave the cache and the rows alone. -/
theorem of_eq (hinflight : s'.inflight = s.inflight) (horders : s'.orders = s.orders) :
    ReportStep clientOrderId s s' :=
  ⟨.of_eq hinflight horders, fun order h => ⟨order, by rw [hinflight]; exact h, rfl, .inl rfl⟩⟩

theorem ofCache (hcached : s.inflight clientOrderId = some order) {order' : Order}
    (hid : order'.clientOrderId = order.clientOrderId) (hrank : rank order.status ≤ rank order'.status)
    (hstatus : order'.status = order.status ∨ rank .acknowledged ≤ rank order'.status) :
    ReportStep clientOrderId s (s.cache clientOrderId order') := by
  refine ⟨.ofCache hcached hrank, fun order₀ h => ⟨order', inflight_cache_self _ _ _, ?_⟩⟩
  obtain rfl : order = order₀ := Option.some.inj (hcached.symm.trans h)
  exact ⟨hid, hstatus⟩

theorem ofPersist (hcached : s.inflight clientOrderId = some order)
    (hid : order.clientOrderId = clientOrderId) : ReportStep clientOrderId s (persist s order) :=
  ⟨.ofPersist hcached hid, fun order₀ h => ⟨order₀, h, rfl, .inl rfl⟩⟩

end ReportStep

section Reply

variable {submission : SubmissionResult}

/-- The status an accepted submission leads to: with a broker order id the order counts as
acknowledged at once. -/
def replyStatus (submission : SubmissionResult) : OrderStatus :=
  if hasText submission.brokerOrderId then .acknowledged else .submitted

theorem rank_replyStatus (submission : SubmissionResult) :
    rank .submitted ≤ rank (replyStatus submission) := by
  unfold replyStatus
  split <;> decide

theorem status_confirmed (submission : SubmissionResult) (order : Order) :
    (confirmed submission.brokerOrderId order).status = replyStatus submission := by
  unfold confirmed replyStatus
  split <;> rfl

theorem sameOrder_confirmed (brokerOrderId : Option String) (order : Order) :
    SameOrder order (confirmed brokerOrderId order) := by
  unfold confirmed
  split <;> exact ⟨rfl, rfl, rfl⟩

/-- The suspended call before its reply: the object is `SUBMITTING`, or a report was first. -/
structure AwaitsReply (clientOrderId : ClientOrderId) (s : Store) : Prop where
  object : ∃ order, s.inflight clientOrderId = some order ∧ order.clientOrderId = clientOrderId ∧
    (order.status = .submitting ∨ rank .acknowledged ≤ rank order.status)
  row : (findOrder s clientOrderId).isSome
  behind : RowBehind clientOrderId s

theorem AwaitsReply.rely (h : AwaitsReply clientOrderId s) (hst : ReportStep clientOrderId s t) :
    AwaitsReply clientOrderId t := by
  obtain ⟨order, hcached, hid, hstatus⟩ := h.object
  obtain ⟨order', hcached', hid', hstatus'⟩ := hst.object order hcached
  refine ⟨⟨order', hcached', hid'.trans hid, ?_⟩, hst.row h.row, (hst.stored h.behind).1⟩
  obtain hkeep | hbeyond := hstatus'
  · rwa [hkeep]
  · exact .inr hbeyond

/-- The object a cell holds, written to it again. -/
theorem cache_self (hcached : s.inflight clientOrderId = some order) :
    s.cache clientOrderId order = s := by
  unfold Store.cache
  rw [← hcached, Function.update_eq_self]

theorem settleSubmission_accepted (haccepted : submission.accepted = true) :
    settleSubmission clientOrderId (.returned submission) =
      confirmSubmission clientOrderId submission.brokerOrderId := if_pos haccepted

theorem exec_reply (haccepted : submission.accepted = true)
    (hcached : s.inflight clientOrderId = some order) (hstatus : order.status = .submitting) :
    (settleSubmission clientOrderId (.returned submission)).exec s =
      (.ok (), s.cache clientOrderId (confirmed submission.brokerOrderId order)) := by
  rw [settleSubmission_accepted haccepted]
  exact exec_confirmSubmission hcached hstatus _

/-- When a report was first the reply raises: there is no way back to `SUBMITTED`. -/
theorem exec_lateReply (haccepted : submission.accepted = true)
    (hcached : s.inflight clientOrderId = some order) (hstatus : rank .acknowledged ≤ rank order.status) :
    ∃ order', (settleSubmission clientOrderId (.returned submission)).exec s =
        (.error (.invalidStateTransition order.status .submitted), s.cache clientOrderId order') ∧
      SameOrder order order' ∧ order'.status = order.status := by
  have hrefused : ¬canTransition order.status .submitted = true := by
    revert hstatus
    cases order.status <;> decide
  rw [settleSubmission_accepted haccepted]
  unfold confirmSubmission
  rw [Block.exec_ite]
  split
  · refine ⟨{ order with brokerOrderId := submission.brokerOrderId }, ?_, ⟨rfl, rfl, rfl⟩, rfl⟩
    rw [Block.exec_bind_ok (exec_mutateOrder _ hcached), Block.exec_bind,
      exec_transition _ (inflight_cache_self _ _ _), if_neg hrefused]
  · refine ⟨order, ?_, ⟨rfl, rfl, rfl⟩, rfl⟩
    rw [exec_transition _ hcached, if_neg hrefused, cache_self hcached]

end Reply

end FinDashboard.Core
