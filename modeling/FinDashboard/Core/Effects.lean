import FinDashboard.Core.OrderManager

/-!
# What one block can do

Every block of the order manager either changes the rows and the cache in a `Routine` way
(load a row, move an object along the state machine, write an object back) or is one of six
blocks with an effect of their own, named by their label. `Step` says so once, for all
blocks; the invariants of the following modules are derived from it.
-/

namespace FinDashboard.Core

section Effects

open Async Broker Persistence

/-- Two objects differ at most in status, broker id and rejection. -/
def SameExecution (order order' : Order) : Prop :=
  { order with
    status := order'.status
    brokerOrderId := order'.brokerOrderId
    rejectReason := order'.rejectReason
    rejectMessage := order'.rejectMessage } = order'

/-- The effects shared by most blocks; only executions make an order `FILLED`. -/
inductive Routine : Store → Store → Prop
  | other {s s' : Store} (hinflight : s'.inflight = s.inflight) (horders : s'.orders = s.orders)
      (hfills : s'.fills = s.fills) (hbooked : s'.bookedFills = s.bookedFills)
      (happlied : s'.appliedFills = s.appliedFills) (hpositions : s'.positions = s.positions) :
      Routine s s'
  | load {s : Store} {clientOrderId : ClientOrderId} {row : Order}
      (huncached : s.inflight clientOrderId = none)
      (hrow : findOrder s clientOrderId = some row) :
      Routine s (s.cache clientOrderId (orderFromOrm row))
  | mutate {s : Store} {clientOrderId : ClientOrderId} {order order' : Order}
      (hcached : s.inflight clientOrderId = some order)
      (hlegal : canTransition order.status order'.status = true)
      (hfilled : order'.status = .filled → order.status = .filled)
      (hsame : SameExecution order order') : Routine s (s.cache clientOrderId order')
  | persist {s : Store} {clientOrderId : ClientOrderId} {order : Order}
      (hcached : s.inflight clientOrderId = some order)
      (hrow : (findOrder s order.clientOrderId).isSome) : Routine s (persist s order)
  | trans {s t u : Store} : Routine s t → Routine t u → Routine s u

namespace Routine

theorem refl (s : Store) : Routine s s := .other rfl rfl rfl rfl rfl rfl

end Routine

/-- A block all of whose effects are routine, whether or not it raises. -/
def IsRoutine {α : Type} (block : Session α) : Prop := ∀ s, Routine s (block.exec s).2

namespace IsRoutine

open Async.Block

variable {α β : Type}

theorem ret (a : α) : IsRoutine (pure a : Session α) := fun s => .refl s

theorem raise (e : TradingError) : IsRoutine (throw e : Session α) := fun s => .refl s

theorem getStore : IsRoutine (get : Session Store) := fun s => .refl s

theorem bind {block : Session α} {f : α → Session β} (hblock : IsRoutine block)
    (hf : ∀ a, IsRoutine (f a)) : IsRoutine (block >>= f) := by
  intro s
  have hfirst := hblock s
  rw [exec_bind]
  rcases hexec : block.exec s with ⟨_ | a, t⟩
  · rwa [hexec] at hfirst
  · rw [hexec] at hfirst
    exact hfirst.trans (hf a t)

theorem cond {c : Prop} [Decidable c] {yes no : Session α} (hyes : IsRoutine yes)
    (hno : IsRoutine no) : IsRoutine (if c then yes else no) := by
  split
  · exact hyes
  · exact hno

theorem guarded {c : Prop} [Decidable c] {e : TradingError} {rest : Session α}
    (hrest : IsRoutine rest) :
    IsRoutine (if c then do throw e; rest else rest) := cond (bind (raise e) fun _ => hrest) hrest

theorem ofRequireOk (result : Except TradingError α) : IsRoutine (requireOk result) := by
  cases result with
  | ok a => exact ret a
  | error e => exact raise e

theorem ofMutateOrder (clientOrderId : ClientOrderId) {change : Order → Order}
    (hstatus : ∀ order, (change order).status = order.status)
    (hsame : ∀ order, SameExecution order (change order)) :
    IsRoutine (mutateOrder clientOrderId change) := by
  intro s
  cases h : s.inflight clientOrderId with
  | none => rw [exec_mutateOrder_none _ h]; exact .refl s
  | some order =>
    rw [exec_mutateOrder _ h]
    exact .mutate h (by simp [canTransition, hstatus]) (by rw [hstatus]; exact id) (hsame order)

theorem ofTransition (clientOrderId : ClientOrderId) {target : OrderStatus}
    (htarget : target ≠ .filled) : IsRoutine (transition clientOrderId target) := by
  intro s
  cases h : s.inflight clientOrderId with
  | none => rw [exec_transition_none _ h]; exact .refl s
  | some order =>
    rw [exec_transition _ h]
    split
    · rename_i hlegal
      exact .mutate h hlegal (fun hfilled => absurd hfilled htarget) rfl
    · exact .refl s

theorem ofUpdateCached (clientOrderId : ClientOrderId) : IsRoutine (updateCached clientOrderId) := by
  intro s
  cases h : s.inflight clientOrderId with
  | none => rw [exec_updateCached_none h]; exact .refl s
  | some order =>
    rw [exec_updateCached h]
    split
    · exact .refl s
    · rename_i hrow
      exact .persist h (by simpa [Option.isSome_iff_ne_none] using hrow)

theorem ofGetOrderInflight (clientOrderId : ClientOrderId) :
    IsRoutine (getOrderInflight clientOrderId) := by
  intro s
  cases h : s.inflight clientOrderId with
  | some order => rw [exec_getOrderInflight h]; exact .refl s
  | none =>
    rw [exec_getOrderInflight_none h]
    unfold getOrder
    cases hrow : findOrder s clientOrderId with
    | none => exact .refl s
    | some row => exact .load h hrow

theorem ofReject (clientOrderId : ClientOrderId) (reason : RejectReason) (message : String) :
    IsRoutine (reject clientOrderId reason message) :=
  bind (ofTransition _ nofun) fun _ => ofMutateOrder _ (fun _ => rfl) fun _ => rfl

theorem ofConfirmSubmission (clientOrderId : ClientOrderId) (brokerOrderId : Option String) :
    IsRoutine (confirmSubmission clientOrderId brokerOrderId) :=
  cond
    (bind (ofMutateOrder _ (fun _ => rfl) fun _ => rfl) fun _ =>
      bind (ofTransition _ nofun) fun _ => ofTransition _ nofun)
    (ofTransition _ nofun)

theorem ofSettleSubmission (clientOrderId : ClientOrderId)
    (outcome : CallOutcome SubmissionResult) : IsRoutine (settleSubmission clientOrderId outcome) := by
  cases outcome with
  | returned submission => exact cond (ofConfirmSubmission _ _) (ofReject _ _ _)
  | timeout => exact ofTransition _ nofun
  | failed => exact bind (ofTransition _ nofun) fun _ => ofMutateOrder _ (fun _ => rfl) fun _ => rfl

theorem ofBrokerReceive (clientOrderId : ClientOrderId) (stampedOrderId : Option String) :
    IsRoutine (brokerReceive clientOrderId stampedOrderId) := by
  refine bind (fun s => .other rfl rfl rfl rfl rfl rfl) fun _ => ?_
  cases stampedOrderId with
  | none => exact ret ()
  | some id => exact ofMutateOrder _ (fun _ => rfl) fun _ => rfl

theorem ofRequestCancel (clientOrderId : ClientOrderId) : IsRoutine (requestCancel clientOrderId) := by
  refine bind (ofGetOrderInflight _) fun found => ?_
  cases found with
  | none => exact raise _
  | some order => exact guarded (ofTransition _ nofun)

theorem ofBrokerCancel (clientOrderId : ClientOrderId) (outcome : CallOutcome Unit) :
    IsRoutine (brokerCancel clientOrderId outcome) := by
  refine bind (fun s => .other rfl rfl rfl rfl rfl rfl) fun _ => ?_
  cases outcome with
  | returned a => exact ret ()
  | timeout => exact raise _
  | failed => exact raise _

theorem ofAcknowledge (clientOrderId : ClientOrderId) (brokerOrderId : Option String) :
    IsRoutine (acknowledge clientOrderId brokerOrderId) := by
  refine bind (ofGetOrderInflight _) fun found => ?_
  have hrest : ∀ order : Order, IsRoutine
      (if order.status ∈ [OrderStatus.submitting, .submitted, .unknown] then do
        transition clientOrderId .acknowledged
        return true
      else return false) := fun order =>
    cond (bind (ofTransition _ nofun) fun _ => ret _) (ret _)
  cases found with
  | none => exact ret _
  | some order =>
    exact cond (bind (ofMutateOrder _ (fun _ => rfl) fun _ => rfl) fun _ => hrest order)
      (hrest order)

theorem ofSettle (clientOrderId : ClientOrderId) {change : Session Unit}
    (hchange : IsRoutine change) : IsRoutine (settle clientOrderId change) := by
  refine bind (ofGetOrderInflight _) fun found => ?_
  cases found with
  | none => exact ret _
  | some order => exact bind hchange fun _ => ret _

theorem ofCheckRateLimit (config : Risk.RiskConfig) (now : ℤ) :
    IsRoutine (Risk.checkRateLimit config now) := by
  refine bind (fun s => .other rfl rfl rfl rfl rfl rfl) fun _ => bind getStore fun s => ?_
  have hrest : IsRoutine (modify fun s : Store => { s with
      callTimestamps := s.callTimestamps ++ [now] } : Session Unit) :=
    fun s => .other rfl rfl rfl rfl rfl rfl
  exact guarded hrest

theorem ofAdmit (account : AccountId) (config : Risk.RiskConfig) (request : OrderRequest) :
    IsRoutine (checkAdmission account config request) :=
  bind getStore fun _ => guarded (guarded (ofRequireOk _))

end IsRoutine

end Effects

/-!
## The turns of a run

`Step` gives the effect of a block from its label. Every task of the order manager only
takes such steps, in any interleaving; a row, once inserted, stays.
-/

section Turns

open Async Broker Persistence Risk

/-- The state machine admits the status a fill leads to. -/
def admitsFill (fill : Fill) (order : Order) : Bool :=
  canTransition order.status (fillTarget (addExecution fill order))

/-- The object after an admitted fill. -/
def executed (fill : Fill) (order : Order) : Order :=
  { addExecution fill order with status := fillTarget (addExecution fill order) }

/-- An order as `place_order` builds it from a request that passed the synchronous checks. -/
def IsPlaced (account : AccountId) (config : RiskConfig) (order : Order) : Prop :=
  ∃ request clientOrderId level, order = newOrder account request clientOrderId ∧
    screen config level request = .ok ()

def Point.isRoutine : Point → Bool
  | .addOrder _ | .cacheOrder _ | .updateCopy _ | .addFill _ | .bookFill _ _ | .applyFill _ => false
  | _ => true

/-- The effect of a block, by its label. -/
def Step (account : AccountId) (config : RiskConfig) (point : Point) (s s' : Store) : Prop :=
  match point with
  | .addOrder order => s' = s ∨
      (IsPlaced account config order ∧ findOrder s order.clientOrderId = none ∧ s' = s.insertOrder order)
  | .cacheOrder order =>
      IsPlaced account config order ∧ (findOrder s order.clientOrderId).isSome ∧
        s' = s.cache order.clientOrderId { order with status := .submitting }
  | .updateCopy copy => s' = s ∨
      (copy.status = .cancelPending ∧ (findOrder s copy.clientOrderId).isSome ∧ s' = persist s copy)
  | .addFill fill => s' = s ∨
      (getFill s fill.fillId = none ∧ s' = { s with fills := s.fills ++ [fill] })
  | .bookFill clientOrderId fill =>
      (s.inflight clientOrderId = none ∧ s' = s) ∨
      ∃ order, s.inflight clientOrderId = some order ∧
        (admitsFill fill order = true ∧ s' = { s.cache clientOrderId (executed fill order) with
            bookedFills := s.bookedFills ++ [fill] } ∨
          admitsFill fill order = false ∧
            s' = s.cache clientOrderId (addExecution fill order))
  | .applyFill fill => ∃ position,
      s' = { upsertLocal position s with appliedFills := s.appliedFills ++ [fill] }
  | _ => Routine s s'

theorem Step.of_routine {account : AccountId} {config : RiskConfig} {point : Point} {s s' : Store}
    (hpoint : point.isRoutine = true) (h : Routine s s') : Step account config point s s' := by
  cases point <;> first | exact h | cases hpoint

/-- The broker reports nothing of an order it was not handed: while the order is on its way
from the risk check to the broker it has no fill, and its row stays as inserted. -/
def brokerLegal : PointCondition
  | .addOrder order, _, s =>
      ∀ fill ∈ s.fills, fill.clientOrderId ≠ order.clientOrderId
  | .cacheOrder order, _, s =>
      (∀ fill ∈ s.fills, fill.clientOrderId ≠ order.clientOrderId) ∧
        ∀ row ∈ s.orders, row.clientOrderId = order.clientOrderId → row = order
  | _, _, _ => True

instance : ∀ point reply s, Decidable (brokerLegal point reply s) := by
  intro point reply s
  apply Point.casesOn (motive := fun point => Decidable (brokerLegal point reply s)) point <;>
    intros <;> (unfold brokerLegal; infer_instance)

/-- Rows are never deleted. -/
def RowsPersist (s s' : Store) : Prop :=
  ∀ clientOrderId, (findOrder s clientOrderId).isSome → (findOrder s' clientOrderId).isSome

namespace RowsPersist

theorem refl (s : Store) : RowsPersist s s := fun _ h => h

theorem trans {s t u : Store} (h : RowsPersist s t) (h' : RowsPersist t u) : RowsPersist s u :=
  fun clientOrderId hrow => h' clientOrderId (h clientOrderId hrow)

theorem of_orders_eq {s s' : Store} (h : s'.orders = s.orders) : RowsPersist s s' := by
  intro clientOrderId hrow
  unfold findOrder at hrow ⊢
  rwa [h]

theorem ofPersist (s : Store) (order : Order) : RowsPersist s (persist s order) := by
  intro clientOrderId hrow
  rw [findOrder_persist, Option.isSome_map]
  exact hrow

theorem ofInsertOrder (s : Store) (order : Order) : RowsPersist s (s.insertOrder order) := by
  intro clientOrderId hrow
  rw [findOrder_insertOrder, Option.isSome_or, hrow]
  rfl

theorem ofRoutine {s s' : Store} (h : Routine s s') : RowsPersist s s' := by
  induction h with
  | other _ horders => exact of_orders_eq horders
  | load => exact of_orders_eq rfl
  | mutate => exact of_orders_eq rfl
  | persist => exact ofPersist _ _
  | trans _ _ ih ih' => exact ih.trans ih'

end RowsPersist

variable (position : Position)

@[simp] theorem orders_upsertLocal (s : Store) : (upsertLocal position s).orders = s.orders := by
  unfold upsertLocal
  split <;> rfl

@[simp] theorem inflight_upsertLocal (s : Store) : (upsertLocal position s).inflight = s.inflight := by
  unfold upsertLocal
  split <;> rfl

@[simp] theorem fills_upsertLocal (s : Store) : (upsertLocal position s).fills = s.fills := by
  unfold upsertLocal
  split <;> rfl

@[simp] theorem bookedFills_upsertLocal (s : Store) :
    (upsertLocal position s).bookedFills = s.bookedFills := by
  unfold upsertLocal
  split <;> rfl

theorem Step.rowsPersist {account : AccountId} {config : RiskConfig} {point : Point}
    {s s' : Store} (h : Step account config point s s') : RowsPersist s s' := by
  unfold Step at h
  split at h
  · obtain rfl | ⟨-, -, rfl⟩ := h
    · exact .refl _
    · exact .ofInsertOrder _ _
  · obtain ⟨-, -, rfl⟩ := h
    exact .of_orders_eq rfl
  · obtain rfl | ⟨-, -, rfl⟩ := h
    · exact .refl _
    · exact .ofPersist _ _
  · obtain rfl | ⟨-, rfl⟩ := h
    · exact .refl _
    · exact .of_orders_eq rfl
  · obtain ⟨-, rfl⟩ | ⟨order, -, ⟨-, rfl⟩ | ⟨-, rfl⟩⟩ := h
    · exact .refl _
    · exact .of_orders_eq rfl
    · exact .of_orders_eq rfl
  · obtain ⟨position, rfl⟩ := h
    exact .of_orders_eq (orders_upsertLocal position s)
  · exact .ofRoutine h

section Specifications

open Async.Block

variable {s : Store} {clientOrderId : ClientOrderId} {order : Order}

/-- The last of two writes to a cache cell counts. -/
@[simp] theorem cache_cache (s : Store) (clientOrderId : ClientOrderId) (order order' : Order) :
    (s.cache clientOrderId order).cache clientOrderId order' = s.cache clientOrderId order' := by
  simp [Store.cache]

theorem exec_bookFill (fill : Fill) (h : s.inflight clientOrderId = some order) :
    (bookFill clientOrderId fill).exec s =
      if admitsFill fill order then
        (.ok (), { s.cache clientOrderId (executed fill order) with
          bookedFills := s.bookedFills ++ [fill] })
      else (.error (.invalidStateTransition order.status (fillTarget (addExecution fill order))),
        s.cache clientOrderId (addExecution fill order)) := by
  have hcached : (s.cache clientOrderId (addExecution fill order)).inflight clientOrderId =
      some (addExecution fill order) := by simp
  have hstatus : (addExecution fill order).status = order.status := rfl
  unfold bookFill admitsFill executed
  rw [exec_bind_ok (exec_mutateOrder _ h), exec_bind_ok (exec_cachedOrder hcached), exec_bind,
    exec_transition _ hcached, hstatus]
  by_cases hlegal : canTransition order.status (fillTarget (addExecution fill order)) = true
  · simp only [hlegal, if_true, cache_cache]
    rfl
  · simp only [hlegal, if_false, Bool.false_eq_true]

theorem exec_bookFill_none (fill : Fill) (h : s.inflight clientOrderId = none) :
    (bookFill clientOrderId fill).exec s = (.error (.orderNotFound clientOrderId), s) := by
  unfold bookFill
  rw [exec_bind_error (exec_mutateOrder_none _ h)]

theorem exec_cacheOrder (h : order.status = .riskChecked) :
    (cacheOrder order).exec s =
      (.ok (), s.cache order.clientOrderId { order with status := .submitting }) := by
  have hcached : (s.cache order.clientOrderId order).inflight order.clientOrderId = some order := by
    simp
  unfold cacheOrder
  rw [exec_bind_ok (exec_modify _ s), exec_transition _ hcached, h]
  simp only [cache_cache]
  rfl

theorem exec_addFill (fill : Fill) (s : Store) : (addFill fill).exec s =
    (.ok (), if (getFill s fill.fillId).isSome then s else { s with fills := s.fills ++ [fill] }) :=
  rfl

end Specifications

end Turns

end FinDashboard.Core
