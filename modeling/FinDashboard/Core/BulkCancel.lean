import FinDashboard.Core.OrderManager

/-!
# Cancelling all active orders

The bulk cancel first marks every active order and then sends the requests. Marking stops at the
first order whose status does not admit a cancellation, and then no request is sent at all.
-/

namespace FinDashboard.Core

open Async Broker Persistence List

variable {account : AccountId} {s t : Store}

/-- The status admits a cancel request. -/
def Cancellable (order : Order) : Prop := canTransition order.status .cancelPending = true

instance : DecidablePred Cancellable := fun order =>
  inferInstanceAs (Decidable (canTransition order.status .cancelPending = true))

/-- The requests that a call has sent. -/
def newRequests (before after : Store) : List ClientOrderId :=
  after.cancelRequests.drop before.cancelRequests.length

/-- Every active order that admits it is requested to be cancelled, and none is left waiting for a
cancellation that was never requested. -/
structure BulkCancelled (account : AccountId) (before after : Store) : Prop where
  requested : ∀ row ∈ activeRows before account, Cancellable row →
    row.clientOrderId ∈ newRequests before after
  pending : ∀ row ∈ activeRows after account, row.status = .cancelPending →
    row.clientOrderId ∈ after.cancelRequests

/-- The object phase one writes back. -/
def pendingCopy (order : Order) : Order := { order with status := .cancelPending }

def markAll (orders : List Order) (s : Store) : Store :=
  orders.foldl (fun s order => persist s (pendingCopy order)) s

theorem cancelRequests_markAll (orders : List Order) (s : Store) :
    (markAll orders s).cancelRequests = s.cancelRequests := by
  induction orders generalizing s with
  | nil => rfl
  | cons order rest ih => exact ih (persist s (pendingCopy order))

variable {orders : List Order}

theorem mem_markAll {row : Order} (member : row ∈ (markAll orders s).orders) :
    row ∈ s.orders ∨ ∃ order ∈ orders, row.clientOrderId = order.clientOrderId := by
  induction orders generalizing s with
  | nil => exact Or.inl member
  | cons order rest ih =>
    obtain before | ⟨other, there, same⟩ := ih member
    · obtain ⟨old, oldMember, rfl⟩ := mem_map.mp before
      unfold updateRow
      split_ifs with same
      · exact Or.inr ⟨order, mem_cons_self, same⟩
      · exact Or.inl oldMember
    · exact Or.inr ⟨other, mem_cons_of_mem _ there, same⟩

section Runs

variable (answer : Point → Store → Reply)

/-- The row of a listed order is there, so writing it back does not fail. -/
theorem run_markCopies_cons {order : Order} {rest : List Order}
    (row : (findOrder s order.clientOrderId).isSome) : (markCopies (order :: rest)).run answer s =
      if Cancellable order then (markCopies rest).run answer (persist s (pendingCopy order))
      else (.error (.invalidStateTransition order.status .cancelPending), s) := by
  rw [markCopies]
  by_cases admitted : Cancellable order
  · have legal : canTransition order.status .cancelPending = true := admitted
    have written : (Coroutine.atomically (.updateCopy (pendingCopy order))
        fun _ => updateState (pendingCopy order) : TradingTask Unit).run answer s =
        (.ok (), persist s (pendingCopy order)) := by
      rw [Coroutine.run_atomically, exec_updateState, if_neg]
      simpa [Option.isSome_iff_ne_none, pendingCopy] using row
    rw [if_neg (by simp [legal]), if_pos admitted]
    exact Coroutine.run_bind_ok (f := fun _ => markCopies rest) answer s written
  · have illegal : canTransition order.status .cancelPending = false := by
      simpa [Cancellable] using admitted
    rw [if_pos (by simp [illegal]), if_neg admitted]
    rfl

theorem rows_persist (order : Order) (rows : ∀ order ∈ orders, (findOrder s order.clientOrderId).isSome) :
    ∀ other ∈ orders, (findOrder (persist s order) other.clientOrderId).isSome := by
  intro other member
  rw [findOrder_persist, Option.isSome_map]
  exact rows other member

theorem run_markCopies_ok (rows : ∀ order ∈ orders, (findOrder s order.clientOrderId).isSome)
    (admitted : ∀ order ∈ orders, Cancellable order) :
    (markCopies orders).run answer s = (.ok (), markAll orders s) := by
  induction orders generalizing s with
  | nil => rfl
  | cons order rest ih =>
    obtain ⟨row, later⟩ := forall_mem_cons.mp rows
    obtain ⟨first, remaining⟩ := forall_mem_cons.mp admitted
    rw [run_markCopies_cons answer row, if_pos first]
    exact ih (rows_persist (pendingCopy order) later) remaining

/-- The first order that does not admit a cancellation ends the call before any request. -/
theorem run_markCopies_error (rows : ∀ order ∈ orders, (findOrder s order.clientOrderId).isSome)
    {stuck : Order} (member : stuck ∈ orders) (refused : ¬ Cancellable stuck) :
    ∃ e t, (markCopies orders).run answer s = (.error e, t) ∧ t.cancelRequests = s.cancelRequests := by
  induction orders generalizing s with
  | nil => cases member
  | cons order rest ih =>
    obtain ⟨row, later⟩ := forall_mem_cons.mp rows
    rw [run_markCopies_cons answer row]
    by_cases first : Cancellable order
    · have behind : stuck ∈ rest := by
        obtain rfl | behind := mem_cons.mp member
        · exact absurd first refused
        · exact behind
      rw [if_pos first]
      exact ih (rows_persist (pendingCopy order) later) behind
    · rw [if_neg first]
      exact ⟨_, s, rfl, rfl⟩

theorem listed_rows (account : AccountId) (s : Store) :
    ∀ order ∈ listActive s account, (findOrder s order.clientOrderId).isSome := by
  intro order member
  obtain ⟨row, active, rfl⟩ := mem_map.mp member
  exact findOrder_isSome.mpr ⟨row, (mem_filter.mp active).1, rfl⟩

theorem listed_cancellable (admitted : ∀ row ∈ activeRows s account, Cancellable row) :
    ∀ order ∈ listActive s account, Cancellable order := by
  intro order member
  obtain ⟨row, active, rfl⟩ := mem_map.mp member
  exact admitted row active

/-- Every listed order is active, so the second filter keeps them all. -/
theorem run_cancelAllActive (account : AccountId) (s : Store) :
    (cancelAllActive account).run answer s =
      (do markCopies (listActive s account); requestCancels (listActive s account) :
        TradingTask (List ClientOrderId)).run answer s := by
  have kept : (listActive s account).filter (·.isActive) = listActive s account := by
    refine filter_eq_self.mpr fun order member => ?_
    obtain ⟨row, active, rfl⟩ := mem_map.mp member
    have selected := (mem_filter.mp active).2
    have status : row.status ∈ listActiveStatuses := by
      simp only [Bool.and_eq_true, decide_eq_true_eq] at selected
      exact selected.2
    exact (mem_listActiveStatuses row.status).mp status
  unfold cancelAllActive
  have listed : (Coroutine.atomically .listActive fun _ => return listActive (← get) account :
      TradingTask (List Order)).run answer s = (.ok (listActive s account), s) := by
    rw [Coroutine.run_atomically]
    rfl
  rw [Coroutine.run_bind_ok answer s listed, kept]

/-- One request of phase two: an error of the broker is logged. -/
theorem run_request (order : Order) :
    ∃ sent, Coroutine.run answer (tryCatch (do
        .atomically (.brokerCancel order.clientOrderId) fun reply =>
          brokerCancel order.clientOrderId reply.cancellation
        return [order.clientOrderId])
      fun _ => return [] : TradingTask (List ClientOrderId)) s =
      (.ok sent, { s with cancelRequests := s.cancelRequests ++ [order.clientOrderId] }) := by
  change ∃ sent, Coroutine.run answer (Coroutine.tryCatch _ _) s = _
  simp only [Coroutine.run_tryCatch, Coroutine.run_bind, Coroutine.run_atomically]
  cases outcome : (answer (.brokerCancel order.clientOrderId) s).cancellation with
  | returned => exact ⟨[order.clientOrderId], rfl⟩
  | timeout => exact ⟨[], rfl⟩
  | failed => exact ⟨[], rfl⟩

theorem run_requestCancels (orders : List Order) :
    ∃ sent, (requestCancels orders).run answer s =
      (.ok sent, { s with
        cancelRequests := s.cancelRequests ++ orders.map (·.clientOrderId) }) := by
  induction orders generalizing s with
  | nil =>
    refine ⟨[], ?_⟩
    rw [map_nil, append_nil]
    rfl
  | cons order rest ih =>
    obtain ⟨sent, first⟩ := run_request (s := s) answer order
    obtain ⟨later, remaining⟩ := ih
      (s := { s with cancelRequests := s.cancelRequests ++ [order.clientOrderId] })
    refine ⟨sent ++ later, ?_⟩
    unfold requestCancels
    rw [Coroutine.run_bind_ok answer s first, Coroutine.run_bind_ok answer _ remaining,
      map_cons, append_assoc]
    rfl

/-- The call marks the active orders and sends a request for each, where all admit it. -/
theorem run_cancelAllActive_ok (admitted : ∀ row ∈ activeRows s account, Cancellable row) :
    ((cancelAllActive account).run answer s).2 =
      { markAll (listActive s account) s with
        cancelRequests := s.cancelRequests ++
          (listActive s account).map (·.clientOrderId) } := by
  have marked := run_markCopies_ok answer (listed_rows account s) (listed_cancellable admitted)
  obtain ⟨sent, requested⟩ := run_requestCancels (s := markAll (listActive s account) s) answer
    (listActive s account)
  rw [run_cancelAllActive, Coroutine.run_bind_ok answer s marked, requested, cancelRequests_markAll]

theorem run_cancelAllActive_error {stuck : Order} (member : stuck ∈ activeRows s account)
    (refused : ¬ Cancellable stuck) :
    ((cancelAllActive account).run answer s).2.cancelRequests = s.cancelRequests := by
  have listed : orderFromOrm stuck ∈ listActive s account := mem_map_of_mem member
  obtain ⟨e, t, raised, same⟩ := run_markCopies_error answer (listed_rows account s) listed refused
  rw [run_cancelAllActive, Coroutine.run_bind_error answer s raised, same]

theorem bulkCancelled_of_all (admitted : ∀ row ∈ activeRows s account, Cancellable row) :
    BulkCancelled account s ((cancelAllActive account).run answer s).2 := by
  have ids : (listActive s account).map (·.clientOrderId) =
      (activeRows s account).map (·.clientOrderId) := by
    rw [listActive, map_map]
    rfl
  rw [run_cancelAllActive_ok answer admitted, ids]
  constructor
  · intro row active _
    rw [newRequests, drop_left]
    exact mem_map_of_mem active
  · intro row active waiting
    rw [mem_append]
    obtain ⟨member, selected⟩ := mem_filter.mp active
    simp only [Bool.and_eq_true, decide_eq_true_eq] at selected
    obtain before | ⟨order, listed, same⟩ := mem_markAll member
    · exact Or.inr (mem_map_of_mem (mem_filter.mpr
        ⟨before, by simpa only [Bool.and_eq_true, decide_eq_true_eq] using selected⟩))
    · obtain ⟨old, oldActive, rfl⟩ := mem_map.mp listed
      rw [same]
      exact Or.inr (mem_map_of_mem (f := (·.clientOrderId)) oldActive)

theorem run_cancel_refused (rows : ∀ order ∈ orders, (findOrder s order.clientOrderId).isSome)
    (refused : ∀ order ∈ orders, ¬ Cancellable order) :
    ((do markCopies orders; requestCancels orders :
      TradingTask (List ClientOrderId)).run answer s).2 = s := by
  cases orders with
  | nil => rfl
  | cons first rest =>
    have raised : (markCopies (first :: rest)).run answer s =
        (.error (.invalidStateTransition first.status .cancelPending), s) := by
      rw [run_markCopies_cons answer (rows first mem_cons_self), if_neg (refused first mem_cons_self)]
    rw [Coroutine.run_bind_error answer s raised]

/-- Without an order that admits a cancellation there is nothing to request. -/
theorem bulkCancelled_of_none (refused : ∀ row ∈ activeRows s account, ¬ Cancellable row) :
    BulkCancelled account s ((cancelAllActive account).run answer s).2 := by
  have kept : ((cancelAllActive account).run answer s).2 = s := by
    have refusals : ∀ order ∈ listActive s account, ¬ Cancellable order := by
      intro order member
      obtain ⟨row, active, rfl⟩ := mem_map.mp member
      exact refused row active
    rw [run_cancelAllActive]
    exact run_cancel_refused answer (listed_rows account s) refusals
  rw [kept]
  constructor
  · intro row member admitted
    exact absurd admitted (refused row member)
  · intro row member waiting
    refine absurd ?_ (refused row member)
    rw [Cancellable, waiting]
    decide

/-- Bulk cancelling keeps its promise exactly when the active orders do not mix statuses that admit
a cancellation with statuses that do not. -/
theorem bulkCancelled_iff (account : AccountId) (answer : Point → Store → Reply) (s : Store) :
    BulkCancelled account s ((cancelAllActive account).run answer s).2 ↔
      (∀ row ∈ activeRows s account, Cancellable row) ∨
        ∀ row ∈ activeRows s account, ¬ Cancellable row := by
  constructor
  · intro cancelled
    by_contra mixed
    obtain ⟨notAll, notNone⟩ := not_or.mp mixed
    push Not at notAll notNone
    obtain ⟨stuck, stuckActive, refused⟩ := notAll
    obtain ⟨row, active, admitted⟩ := notNone
    have requested := cancelled.requested row active admitted
    rw [newRequests, run_cancelAllActive_error answer stuckActive refused, drop_length] at requested
    cases requested
  · rintro (all | none)
    · exact bulkCancelled_of_all answer all
    · exact bulkCancelled_of_none answer none

end Runs

def acknowledgedOrder : Order where
  clientOrderId := "a"
  accountId := "acc"
  symbol := { code := "600000", market := .aShare }
  side := .buy
  orderType := .limit
  quantity := 100
  price := some 10
  status := .acknowledged

def mixedStore : Store where
  orders := [acknowledgedOrder, { acknowledgedOrder with clientOrderId := "b", status := .unknown }]

/-- The acknowledged order is marked, and its cancellation never requested. -/
theorem bulkCancelled_fails :
    ¬ BulkCancelled "acc" mixedStore
      ((cancelAllActive "acc").run (fun _ _ => {}) mixedStore).2 := by
  intro cancelled
  have member : acknowledgedOrder ∈ activeRows mixedStore "acc" := by decide +kernel
  have requested := cancelled.requested _ member (by decide)
  have sent : newRequests mixedStore ((cancelAllActive "acc").run (fun _ _ => {}) mixedStore).2 =
      [] := by decide +kernel
  rw [sent] at requested
  cases requested

end FinDashboard.Core
