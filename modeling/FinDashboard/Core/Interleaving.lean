import FinDashboard.Core.Effects

/-!
# Every turn of the order manager is a step

`Performs` says that all blocks of a task are steps with admitted labels, whatever rows the
other tasks insert meanwhile. It holds of the event consumer and of every call, hence of
every turn of every interleaving.
-/

namespace FinDashboard.Core

open Async Broker Persistence Risk

variable {account : AccountId} {config : RiskConfig} {allowed : Point → Prop} {α β : Type}

def Point.ofCall : Point → Prop
  | .addFill _ | .bookFill _ _ | .applyFill _ => False
  | _ => True

/-- The blocks of the event consumer. -/
def Point.ofConsumer : Point → Prop
  | .addOrder _ | .cacheOrder _ | .updateCopy _ => False
  | _ => True

variable {point : Point}

theorem Point.ofCall_of_isRoutine (h : point.isRoutine = true) : point.ofCall := by
  cases point <;> simp_all [Point.isRoutine, Point.ofCall]

theorem Point.ofConsumer_of_isRoutine (h : point.isRoutine = true) : point.ofConsumer := by
  cases point <;> simp_all [Point.isRoutine, Point.ofConsumer]

/-- The contract of a task whose blocks are steps. -/
abbrev StepSafe (account : AccountId) (config : RiskConfig) (allowed : Point → Prop)
    (Q : Except TradingError α → Store → Prop) (p : TradingTask α) (s : Store) : Prop :=
  Safe (fun _ _ _ => True) RowsPersist
    (fun point _ s s' => allowed point ∧ Step account config point s s') Q p s

/-- All blocks of the task are steps with admitted labels. -/
def Performs (account : AccountId) (config : RiskConfig) (allowed : Point → Prop)
    (p : TradingTask α) : Prop :=
  ∀ s, StepSafe account config allowed (fun _ _ => True) p s

namespace Performs

theorem ret (a : α) : Performs account config allowed (pure a) := fun _ _ _ => trivial

theorem raise (e : TradingError) : Performs account config allowed (throw e : TradingTask α) :=
  fun _ _ _ => trivial

theorem bind {p : TradingTask α} {f : α → TradingTask β} (hp : Performs account config allowed p)
    (hf : ∀ a, Performs account config allowed (f a)) :
    Performs account config allowed (p >>= f) := fun s =>
  Safe.bind_any .refl (hp s) hf fun _ _ => trivial

theorem catching {p : TradingTask α} {handler : TradingError → TradingTask α}
    (hp : Performs account config allowed p)
    (hhandler : ∀ e, Performs account config allowed (handler e)) :
    Performs account config allowed (tryCatch p handler) := by
  refine fun s => Safe.tryCatch .refl ?_
  refine Safe.mono (fun _ _ _ h => h) (fun _ _ h => h) (fun _ _ _ _ _ h => h) ?_ (hp s)
  intro result t _
  cases result with
  | ok a => exact ret a t
  | error e => exact hhandler e t

theorem block {body : Reply → Session α} (hallowed : allowed point)
    (hstep : ∀ reply s, Step account config point s ((body reply).exec s).2) :
    Performs account config allowed (.atomically point body) := fun _ =>
  Safe.atomically fun t _ reply _ => ⟨⟨hallowed, hstep reply t⟩, fun _ _ => trivial⟩

theorem routine {body : Reply → Session α} (hallowed : allowed point)
    (hpoint : point.isRoutine = true) (hbody : ∀ reply, IsRoutine (body reply)) :
    Performs account config allowed (.atomically point body) :=
  block hallowed fun reply s => .of_routine hpoint (hbody reply s)

end Performs

section Calls

open Performs

theorem updateCached_performs (hallowed : ∀ point, point.isRoutine = true → allowed point)
    (clientOrderId : ClientOrderId) : Performs account config allowed
      (.atomically (.updateState clientOrderId) fun _ => updateCached clientOrderId) :=
  routine (hallowed _ rfl) rfl fun _ => .ofUpdateCached _

theorem awaitSubmission_performs (clientOrderId : ClientOrderId) :
    Performs account config Point.ofCall (awaitSubmission clientOrderId) := by
  refine bind (routine trivial rfl fun reply => ?_) fun outcome => ?_
  · exact .bind (.ofSettleSubmission _ _) fun _ => .ret _
  · refine bind (updateCached_performs (fun _ => Point.ofCall_of_isRoutine) _) fun _ => ?_
    cases outcome with
    | returned submission => exact ret ()
    | timeout => exact raise _
    | failed => exact raise _

theorem checkContext_performs (request : OrderRequest) :
    Performs account config Point.ofCall (checkContext account config request) := by
  have hread : ∀ {point : Point} (result : Reply → Store → Except TradingError Unit),
      point.isRoutine = true → Performs account config Point.ofCall
        (.atomically point fun reply => do requireOk (result reply (← get))) :=
    fun result hpoint => routine (Point.ofCall_of_isRoutine hpoint) hpoint fun _ =>
      .bind .getStore fun _ => .ofRequireOk _
  have hbuy : Performs account config Point.ofCall (awaitDailyBuyValue account config request) := by
    unfold awaitDailyBuyValue
    split
    · exact hread _ rfl
    · exact ret ()
  have hsell : Performs account config Point.ofCall (awaitSellAvailable account config request) := by
    unfold awaitSellAvailable
    split
    · exact hread (fun _ s => checkSellAvailable config request (listLocal s account)) rfl
    · exact ret ()
  refine bind hbuy fun _ => bind (routine trivial rfl fun _ => .ofCheckRateLimit _ _) fun _ => ?_
  exact bind (hread (fun _ s => checkActiveOrders config (listActive s account).length) rfl)
    fun _ => hsell

theorem screen_of_checkAdmission {request : OrderRequest} {s : Store}
    (h : ((checkAdmission account config request).exec s).1 = .ok ()) :
    screen config s.killSwitch request = .ok () := by
  unfold checkAdmission at h
  simp only [Async.Block.exec_bind, Async.Block.exec_get, Async.Block.exec_ite,
    Async.Block.exec_throw, exec_requireOk] at h
  split at h
  · cases h
  · split at h
    · cases h
    · exact h

theorem placeOrder_performs (request : OrderRequest) (clientOrderId : ClientOrderId) :
    Performs account config Point.ofCall (placeOrder account config request clientOrderId) := by
  intro s
  unfold placeOrder
  refine Safe.atomically_bind fun t _ reply _ => ⟨⟨trivial, IsRoutine.ofAdmit _ _ _ t⟩, ?_⟩
  split
  · rename_i hadmitted
    have hplaced : IsPlaced account config (newOrder account request clientOrderId) :=
      ⟨request, clientOrderId, t.killSwitch, rfl, screen_of_checkAdmission hadmitted⟩
    refine Safe.bind_any .refl (checkContext_performs request _) (fun _ u => ?_) fun _ _ => trivial
    refine Safe.atomically_bind fun v _ reply _ => ?_
    rw [exec_addOrder]
    split
    · exact ⟨⟨trivial, .inl rfl⟩, fun _ _ => trivial⟩
    · rename_i hfree
      have hnone := Option.not_isSome_iff_eq_none.mp hfree
      refine ⟨⟨trivial, .inr ⟨hplaced, hnone, rfl⟩⟩, ?_⟩
      refine Safe.atomically_bind fun w hw reply _ => ?_
      have hrow : (findOrder w clientOrderId).isSome := by
        refine hw clientOrderId ?_
        rw [findOrder_insertOrder, Option.isSome_or]
        simp [newOrder]
      rw [exec_cacheOrder rfl]
      refine ⟨⟨trivial, hplaced, hrow, rfl⟩, ?_⟩
      refine Safe.atomically_bind fun x _ reply _ =>
        ⟨⟨trivial, IsRoutine.ofBrokerReceive _ _ x⟩, ?_⟩
      split
      · exact awaitSubmission_performs clientOrderId _
      · exact fun _ _ => trivial
  · exact fun _ _ => trivial

theorem cancelOrder_performs (clientOrderId : ClientOrderId) :
    Performs account config Point.ofCall (cancelOrder clientOrderId) :=
  bind (routine trivial rfl fun _ => .ofRequestCancel _) fun _ =>
    bind (updateCached_performs (fun _ => Point.ofCall_of_isRoutine) _) fun _ =>
      routine trivial rfl fun _ => .ofBrokerCancel _ _

theorem markCopies_performs (orders : List Order) :
    Performs account config Point.ofCall (markCopies orders) := by
  induction orders with
  | nil => exact ret ()
  | cons order rest ih =>
    have hwrite : Performs account config Point.ofCall (do
        let copy := { order with status := .cancelPending }
        .atomically (.updateCopy copy) fun _ => Persistence.updateState copy
        markCopies rest) := by
      refine bind (block trivial fun _ s => ?_) fun _ => ih
      rw [exec_updateState]
      split
      · exact .inl rfl
      · rename_i hrow
        exact .inr ⟨rfl, by simpa [Option.isSome_iff_ne_none] using hrow, rfl⟩
    unfold markCopies
    split
    · exact bind (raise _) fun _ => hwrite
    · exact hwrite

theorem requestCancels_performs (orders : List Order) :
    Performs account config Point.ofCall (requestCancels orders) := by
  induction orders with
  | nil => exact ret []
  | cons order rest ih =>
    refine bind (catching (bind (routine trivial rfl fun _ => ?_) fun _ => ret _) fun _ => ret _)
      fun _ => bind ih fun _ => ret _
    exact .ofBrokerCancel _ _

theorem cancelAllActive_performs : Performs account config Point.ofCall (cancelAllActive account) :=
  bind (routine trivial rfl fun _ => .bind .getStore fun _ => .ret _) fun _ =>
    bind (markCopies_performs _) fun _ => requestCancels_performs _

theorem Call.task_performs (call : Call) :
    Performs account config Point.ofCall (call.task account config) := by
  cases call with
  | place request clientOrderId => exact placeOrder_performs request clientOrderId
  | cancel clientOrderId => exact cancelOrder_performs clientOrderId
  | cancelAll => exact bind cancelAllActive_performs fun _ => ret ()

end Calls

section Consumer

open Performs

theorem onAccepted_performs (hallowed : ∀ point, point.isRoutine = true → allowed point)
    (event : BrokerEvent) : Performs account config allowed (onAccepted event) := by
  unfold onAccepted
  cases event.clientOrderId with
  | none => exact ret ()
  | some clientOrderId =>
    refine bind (routine (hallowed _ rfl) rfl fun _ => .ofAcknowledge _ _) fun acknowledged => ?_
    cases acknowledged with
    | false => exact ret ()
    | true => exact updateCached_performs hallowed _

theorem settle_performs (hallowed : ∀ point, point.isRoutine = true → allowed point)
    {clientOrderId : ClientOrderId} {change : Session Unit}
    (hpoint : point.isRoutine = true) (hchange : IsRoutine change) :
    Performs account config allowed (do
      let found ← .atomically point fun _ => settle clientOrderId change
      if found then
        .atomically (.updateState clientOrderId) fun _ => updateCached clientOrderId) := by
  refine bind (routine (hallowed _ hpoint) hpoint fun _ => .ofSettle _ hchange) fun found => ?_
  cases found with
  | false => exact ret ()
  | true => exact updateCached_performs hallowed _

theorem onCancelled_performs (hallowed : ∀ point, point.isRoutine = true → allowed point)
    (event : BrokerEvent) : Performs account config allowed (onCancelled event) := by
  unfold onCancelled
  cases event.clientOrderId with
  | none => exact ret ()
  | some clientOrderId => exact settle_performs hallowed rfl (.ofTransition _ nofun)

theorem onRejected_performs (hallowed : ∀ point, point.isRoutine = true → allowed point)
    (event : BrokerEvent) : Performs account config allowed (onRejected event) := by
  unfold onRejected
  cases event.clientOrderId with
  | none => exact ret ()
  | some clientOrderId => exact settle_performs hallowed rfl (.ofReject _ _ _)

theorem applyFill_performs (fill : Fill) :
    Performs account config Point.ofConsumer (applyFill account fill) :=
  bind (routine trivial rfl fun _ => .bind .getStore fun _ => .ret _) fun _ =>
    block trivial fun _ _ => ⟨_, rfl⟩

theorem onFilled_performs (event : BrokerEvent) :
    Performs account config Point.ofConsumer (onFilled account event) := by
  unfold onFilled
  split
  · rename_i fill clientOrderId _ _
    refine bind (routine trivial rfl fun _ => .bind .getStore fun _ => .ret _) fun known => ?_
    cases known with
    | some row => exact ret ()
    | none =>
      refine bind (routine trivial rfl fun _ => .ofGetOrderInflight _) fun order => ?_
      cases order with
      | none => exact ret ()
      | some order =>
        refine bind (block trivial fun _ s => ?_) fun _ => ?_
        · rw [exec_addFill]
          by_cases hknown : (getFill s fill.fillId).isSome = true
          · exact .inl (by simp [hknown])
          · exact .inr ⟨Option.not_isSome_iff_eq_none.mp hknown, by simp [hknown]⟩
        refine bind (block trivial fun _ s => ?_) fun _ => ?_
        · cases h : s.inflight clientOrderId with
          | none => exact .inl ⟨h, by rw [exec_bookFill_none fill h]⟩
          | some order =>
            refine .inr ⟨order, h, ?_⟩
            rw [exec_bookFill fill h]
            by_cases hlegal : admitsFill fill order = true
            · exact .inl ⟨hlegal, by simp [hlegal]⟩
            · exact .inr ⟨by simpa using hlegal, by simp [hlegal]⟩
        exact bind (updateCached_performs (fun _ => Point.ofConsumer_of_isRoutine) _) fun _ =>
          applyFill_performs fill
  · exact ret ()

theorem handleBrokerEvent_performs (event : BrokerEvent) :
    Performs account config Point.ofConsumer (handleBrokerEvent account event) := by
  unfold handleBrokerEvent
  cases event.type with
  | orderAccepted => exact onAccepted_performs (fun _ => Point.ofConsumer_of_isRoutine) event
  | orderFilled => exact onFilled_performs event
  | orderCancelled => exact onCancelled_performs (fun _ => Point.ofConsumer_of_isRoutine) event
  | orderRejected => exact onRejected_performs (fun _ => Point.ofConsumer_of_isRoutine) event
  | connected => exact ret ()
  | disconnected => exact ret ()
  | orderCancelRejected => exact ret ()
  | error => exact ret ()

theorem consumeBrokerEvents_performs (events : List BrokerEvent) :
    Performs account config Point.ofConsumer (consumeBrokerEvents account events) := by
  induction events with
  | nil => exact ret ()
  | cons event rest ih =>
    exact bind (catching (handleBrokerEvent_performs event) fun _ => ret ()) fun _ => ih

end Consumer

section Runs

/-- The contracts of a pool: the consumer's own, and what calls guarantee to it. -/
def contracts (account : AccountId) (config : RiskConfig) (consumer : Contract Store Reply Point
    TradingError Unit) : ℕ → Contract Store Reply Point TradingError Unit
  | 0 => consumer
  | _ + 1 =>
    {
      rely := RowsPersist
      guar := fun point _ s s' =>
        point.ofCall ∧ Step account config point s s' ∧ consumer.rely s s'
      post := fun _ _ => True
      rely_refl := .refl
      rely_trans := fun _ _ _ => .trans }

/-- Along every interleaving the consumer keeps its contract, provided that the steps of calls
are within what it relies on. -/
theorem orderManager_safe (Ok : PointCondition) (consumer : Contract Store Reply Point TradingError Unit)
    {events : List BrokerEvent} {calls : List Call} {s : Store}
    (hcalls : ∀ point reply s s', Ok point reply s → point.ofCall →
      Step account config point s s' → consumer.rely s s')
    (hrows : ∀ point reply s s', consumer.guar point reply s s' → RowsPersist s s')
    (hconsumer : consumer.Holds Ok (consumeBrokerEvents account events) s) {schedule : List (ℕ × Reply)}
    (hok : (orderManager account config events calls s).Admits Ok schedule) :
    ((orderManager account config events calls s).exec schedule).Safe
        (contracts account config consumer) Ok ∧
      ∀ t ∈ (orderManager account config events calls s).turns schedule,
        (contracts account config consumer t.task).guar t.label t.reply t.before t.after := by
  refine Pool.Safe.exec ?_ ?_ schedule hok
  · rintro (_ | n) (_ | m) hnm point reply s s' hguar
    · exact absurd rfl hnm
    · exact hrows point reply s s' hguar
    · exact hguar.2.2
    · exact hguar.2.1.rowsPersist
  · rintro (_ | n) task htask
    · obtain rfl : consumeBrokerEvents account events = task := by
        simpa [orderManager] using htask
      exact hconsumer
    · obtain ⟨call, -, rfl⟩ : ∃ call, calls[n]? = some call ∧
          call.task account config = task := by
        simpa [orderManager] using htask
      refine Safe.mono (fun _ _ _ _ => trivial) (fun _ _ h => h) ?_ (fun _ _ _ => trivial)
        (call.task_performs s)
      intro point reply t t' hpoint hstep
      exact ⟨hstep.1, hstep.2, hcalls point reply t t' hpoint hstep.1 hstep.2⟩

theorem orderManager_steps (events : List BrokerEvent) (calls : List Call) (s : Store)
    (schedule : List (ℕ × Reply)) : ∀ t ∈ (orderManager account config events calls s).turns schedule,
      Step account config t.label t.before t.after := by
  intro t ht
  have hguar := (orderManager_safe (fun _ _ _ => True) {
      rely := RowsPersist
      guar := fun point _ s s' => point.ofConsumer ∧ Step account config point s s'
      post := fun _ _ => True
      rely_refl := .refl
      rely_trans := fun _ _ _ => .trans }
    (fun _ _ _ _ _ _ h => h.rowsPersist) (fun _ _ _ _ h => h.2.rowsPersist)
    (consumeBrokerEvents_performs events s) fun _ _ => trivial).2 t ht
  cases htask : t.task with
  | zero => rw [htask] at hguar; exact hguar.2
  | succ n => rw [htask] at hguar; exact hguar.2.1

end Runs

section History

open List

/-- The columns of a row that no update writes. -/
def identity (order : Order) : ClientOrderId × AccountId × Symbol × Side × OrderType × ℚ × Option ℚ :=
  (order.clientOrderId, order.accountId, order.symbol, order.side, order.orderType, order.quantity, order.price)

/-- The rows stay in their places with their identities, and the fills stay as they are. -/
structure Kept (s s' : Store) : Prop where
  rows : s.orders.map identity <+: s'.orders.map identity
  fills : s.fills <+: s'.fills
  ids : (s.orders.map (·.clientOrderId)).Nodup → (s'.orders.map (·.clientOrderId)).Nodup
  fillIds : (s.fills.map (·.fillId)).Nodup → (s'.fills.map (·.fillId)).Nodup

theorem Kept.trans {s t u : Store} (first : Kept s t) (second : Kept t u) : Kept s u :=
  ⟨first.rows.trans second.rows, first.fills.trans second.fills, second.ids ∘ first.ids,
    second.fillIds ∘ first.fillIds⟩

theorem Kept.of_eq {s s' : Store} (orders : s'.orders = s.orders) (fills : s'.fills = s.fills) : Kept s s' := by
  constructor <;> simp [orders, fills]

theorem Kept.ofPersist (s : Store) (order : Order) : Kept s (persist s order) := by
  have same : (persist s order).orders.map identity = s.orders.map identity := by
    rw [persist, map_map]
    refine map_congr_left fun row _ => ?_
    rw [Function.comp_apply, updateRow]
    split_ifs <;> rfl
  have ids := congrArg (map (·.1)) same
  rw [map_map, map_map] at ids
  exact ⟨same ▸ prefix_rfl, prefix_rfl, fun apart => ids ▸ apart, id⟩

theorem Kept.ofRoutine {s s' : Store} (effect : Routine s s') : Kept s s' := by
  induction effect with
  | other _ orders fills => exact .of_eq orders fills
  | load | mutate => exact .of_eq rfl rfl
  | persist => exact .ofPersist _ _
  | trans _ _ first second => exact first.trans second

/-- Every block leaves the rows and the fills in place; new ones have new ids. -/
theorem Step.kept {point : Point} {s s' : Store} (step : Step account config point s s') : Kept s s' := by
  unfold Step at step
  split at step
  · rename_i order
    obtain rfl | ⟨-, fresh, rfl⟩ := step
    · exact .of_eq rfl rfl
    · refine ⟨?_, prefix_rfl, fun apart => ?_, id⟩
      · simp [Store.insertOrder]
      · have absent : ∀ row ∈ s.orders, row.clientOrderId ≠ order.clientOrderId := by
          simpa [findOrder] using fresh
        simpa [Store.insertOrder, nodup_append, apart] using absent
  · obtain ⟨-, -, rfl⟩ := step
    exact .of_eq rfl rfl
  · obtain rfl | ⟨-, -, rfl⟩ := step
    · exact .of_eq rfl rfl
    · exact .ofPersist _ _
  · rename_i fill
    obtain rfl | ⟨fresh, rfl⟩ := step
    · exact .of_eq rfl rfl
    · refine ⟨prefix_rfl, prefix_append _ _, id, fun apart => ?_⟩
      have absent : ∀ row ∈ s.fills, row.fillId ≠ fill.fillId := by
        simpa [getFill] using fresh
      simpa [nodup_append, apart] using absent
  · obtain ⟨-, rfl⟩ | ⟨order, -, ⟨-, rfl⟩ | ⟨-, rfl⟩⟩ := step <;> exact .of_eq rfl rfl
  · obtain ⟨position, rfl⟩ := step
    exact .of_eq (orders_upsertLocal position s) (fills_upsertLocal position s)
  · exact .ofRoutine step

/-- In every interleaving the rows keep their places and identities, and no fill is lost or stored twice. -/
theorem orderManager_kept (events : List BrokerEvent) (calls : List Call) (s : Store)
    (schedule : List (ℕ × Reply)) : Kept s ((orderManager account config events calls s).exec schedule).shared :=
  Pool.exec_preserves _ schedule
    (fun t turn before => before.trans (orderManager_steps events calls s schedule t turn).kept) (.of_eq rfl rfl)

end History

end FinDashboard.Core
