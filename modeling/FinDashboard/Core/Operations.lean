import FinDashboard.Core.CacheAgreement
import FinDashboard.Core.FillDelivery

/-!
# Completed operations keep cache and rows in agreement

Each operation is executed to its end before the next one starts. Its proof follows its
blocks: the cell of one order is changed, then written back.
-/

namespace FinDashboard.Core

open Async Broker Persistence Risk

variable {account : AccountId} {config : RiskConfig} {α : Type}
  {Ok : PointCondition} {Q : Except TradingError α → Store → Prop} {s : Store} {clientOrderId : ClientOrderId}
  {order : Order}

/-- A completed call, or a handled event. -/
inductive Operation
  | call (call : Call)
  | event (event : BrokerEvent)

/-- The coroutine of an operation; its exception goes to the caller or to the log. -/
def Operation.task (account : AccountId) (config : RiskConfig) : Operation → TradingTask Unit
  | .call c => tryCatch (c.task account config) fun _ => return ()
  | .event e => tryCatch (handleBrokerEvent account e) fun _ => return ()

def runOperations (account : AccountId) (config : RiskConfig) : List Operation → TradingTask Unit
  | [] => return ()
  | operation :: rest => do
    operation.task account config
    runOperations account config rest

def sequentially (account : AccountId) (config : RiskConfig) (operations : List Operation)
    (s : Store) : TaskPool := ⟨s, [runOperations account config operations]⟩

/-- The judgement of a task that nothing interferes with. -/
abbrev Solo (Ok : PointCondition) (Q : Except TradingError α → Store → Prop) (p : TradingTask α)
    (s : Store) : Prop :=
  Safe Ok Eq (fun _ _ _ _ => True) Q p s

/-- A task that keeps cache and rows together. -/
abbrev Keeps (p : TradingTask α) (s : Store) : Prop :=
  Solo agreementCondition (fun _ t => InSync t) p s

namespace Solo

theorem ret {a : α} (h : Q (.ok a) s) : Solo Ok Q (pure a) s := by
  rintro _ rfl
  exact h

theorem raise {e : TradingError} (h : Q (.error e) s) : Solo Ok Q (throw e : TradingTask α) s := by
  rintro _ rfl
  exact h

/-- A block with a known outcome, then the rest. -/
theorem step {β : Type} {point : Point} {body : Reply → Session β} {f : β → TradingTask α}
    (h : ∀ reply, Ok point reply s → (∃ b t, (body reply).exec s = (.ok b, t) ∧ Solo Ok Q (f b) t) ∨
        ∃ e t, (body reply).exec s = (.error e, t) ∧ Q (.error e) t) :
    Solo Ok Q (.atomically point body >>= f) s := by
  refine Safe.atomically_bind ?_
  rintro _ rfl reply hok
  refine ⟨trivial, ?_⟩
  obtain ⟨b, t, hexec, hrest⟩ | ⟨e, t, hexec, hstop⟩ := h reply hok
  · rw [hexec]
    exact hrest
  · rw [hexec]
    exact raise hstop

theorem last {point : Point} {body : Reply → Session α} (h : ∀ reply, Ok point reply s →
      Q ((body reply).exec s).1 ((body reply).exec s).2) : Solo Ok Q (.atomically point body) s := by
  refine Safe.atomically ?_
  rintro _ rfl reply hok
  refine ⟨trivial, ?_⟩
  rintro _ rfl
  exact h reply hok

theorem seq {β : Type} {p : TradingTask β} {f : β → TradingTask α}
    (h : Solo Ok (fun result t => match result with
      | .ok b => Solo Ok Q (f b) t
      | .error e => Q (.error e) t) p s) : Solo Ok Q (p >>= f) s := by
  refine Safe.bind (fun _ => rfl) (Safe.mono (fun _ _ _ h => h) (fun _ _ h => h)
    (fun _ _ _ _ _ h => h) ?_ h)
  intro result t ht
  cases result with
  | ok b => exact ht
  | error e => exact raise ht

/-- Writing the changed cell back, then the rest. -/
theorem writeBack {f : Unit → TradingTask α} (h : InSyncExcept clientOrderId s)
    (hcached : s.inflight clientOrderId = some order) (hf : Solo Ok Q (f ()) (persist s order)) :
    Solo Ok Q (.atomically (.updateState clientOrderId) (fun _ => updateCached clientOrderId) >>= f)
      s := by
  refine step fun _ _ => .inl ⟨(), persist s order, exec_updateCached_ok hcached ?_, hf⟩
  rw [h.keyed.id _ _ hcached]
  exact h.keyed.row _ (by rw [hcached]; rfl)

/-- Writing the changed cell back at the end of an operation. -/
theorem writeLast {Q : Except TradingError Unit → Store → Prop} (h : InSyncExcept clientOrderId s)
    (hcached : s.inflight clientOrderId = some order) (hQ : Q (.ok ()) (persist s order)) :
    Solo Ok Q (.atomically (.updateState clientOrderId) fun _ => updateCached clientOrderId) s := by
  refine last fun _ _ => ?_
  rw [exec_updateCached_ok hcached]
  · exact hQ
  · rw [h.keyed.id _ _ hcached]
    exact h.keyed.row _ (by rw [hcached]; rfl)

end Solo

section Place

open Async.Block

/-- The object after the synchronous acknowledgement. -/
def confirmed (brokerOrderId : Option String) (order : Order) : Order :=
  if hasText brokerOrderId then { order with brokerOrderId, status := .acknowledged }
  else { order with status := .submitted }

theorem exec_confirmSubmission (hcached : s.inflight clientOrderId = some order)
    (hstatus : order.status = .submitting) (brokerOrderId : Option String) :
    (confirmSubmission clientOrderId brokerOrderId).exec s =
      (.ok (), s.cache clientOrderId (confirmed brokerOrderId order)) := by
  have hcell : ∀ order' : Order,
      (s.cache clientOrderId order').inflight clientOrderId = some order' := fun _ => by simp
  unfold confirmSubmission confirmed
  rw [exec_ite]
  split
  · rw [exec_bind_ok (exec_mutateOrder _ hcached),
      exec_bind_ok (exec_transition_ok (hcell _) (by rw [hstatus]; rfl)), cache_cache,
      exec_transition_ok (hcell _) rfl, cache_cache]
  · exact exec_transition_ok hcached (by rw [hstatus]; rfl)

/-- Whatever the broker answers, an order in `SUBMITTING` moves on. -/
theorem exec_settleSubmission (hcached : s.inflight clientOrderId = some order)
    (hstatus : order.status = .submitting) (outcome : CallOutcome SubmissionResult) :
    ∃ order', (settleSubmission clientOrderId outcome).exec s = (.ok (), s.cache clientOrderId order') ∧
      order'.clientOrderId = order.clientOrderId := by
  have hmove : ∀ {target : OrderStatus}, canTransition .submitting target = true →
      (transition clientOrderId target).exec s =
        (.ok (), s.cache clientOrderId { order with status := target }) := fun hlegal =>
    exec_transition_ok hcached (by rw [hstatus]; exact hlegal)
  have hcell : ∀ order' : Order,
      (s.cache clientOrderId order').inflight clientOrderId = some order' := fun _ => by simp
  cases outcome with
  | timeout => exact ⟨_, hmove rfl, rfl⟩
  | failed =>
    unfold settleSubmission
    rw [exec_bind_ok (hmove rfl), exec_mutateOrder _ (hcell _), cache_cache]
    exact ⟨_, rfl, rfl⟩
  | returned submission =>
    unfold settleSubmission
    rw [exec_ite]
    split
    · refine ⟨_, exec_confirmSubmission hcached hstatus _, ?_⟩
      unfold confirmed
      split <;> rfl
    · unfold reject
      rw [exec_bind_ok (hmove rfl), exec_mutateOrder _ (hcell _), cache_cache]
      exact ⟨_, rfl, rfl⟩

theorem awaitSubmission_solo (h : InSyncExcept clientOrderId s)
    (hcached : s.inflight clientOrderId = some order) (hstatus : order.status = .submitting)
    (hrequest : clientOrderId ∉ s.cancelRequests) : Keeps (awaitSubmission clientOrderId) s := by
  have hid := h.keyed.id _ _ hcached
  unfold awaitSubmission
  refine Solo.step fun reply _ => .inl ?_
  obtain ⟨order', hexec, hid'⟩ := exec_settleSubmission hcached hstatus reply.submission
  refine ⟨reply.submission, _, by rw [exec_bind_ok hexec]; rfl, ?_⟩
  have hnext : InSyncExcept clientOrderId (s.cache clientOrderId order') :=
    h.cache (hid'.trans hid) fun hmem => absurd hmem hrequest
  have hcell : (s.cache clientOrderId order').inflight clientOrderId = some order' := by simp
  refine Solo.writeBack hnext hcell ?_
  have hsync := hnext.write hcell
  cases reply.submission with
  | returned submission => exact Solo.ret hsync
  | timeout => exact Solo.raise hsync
  | failed => exact Solo.raise hsync

/-- The risk checks change neither orders nor cancellations. -/
theorem checkContext_solo (request : OrderRequest) (h : InSync s) :
    Keeps (checkContext account config request) s := by
  have hread : ∀ {t : Store} {point : Point} (result : Reply → Store → Except TradingError Unit),
      InSync t → Keeps
        (.atomically point fun reply => do requireOk (result reply (← get))) t := by
    intro t point result ht
    refine Solo.last fun reply _ => ?_
    rw [exec_bind_ok (exec_get t), exec_requireOk]
    exact ht
  have hbuy : Keeps (awaitDailyBuyValue account config request) s := by
    unfold awaitDailyBuyValue
    split
    · exact hread (fun reply s => checkDailyBuyValue config
        (sumBuyValueSince s account (dayStart reply.now)) request.quantity _) h
    · exact Solo.ret h
  have hsell : ∀ {t : Store}, InSync t →
      Keeps (awaitSellAvailable account config request) t := by
    intro t ht
    unfold awaitSellAvailable
    split
    · exact hread (fun _ s => checkSellAvailable config request (listLocal s account)) ht
    · exact Solo.ret ht
  have hcount : ∀ {t : Store}, InSync t → Keeps (do
      .atomically .countActiveOrders fun _ => do
        requireOk (checkActiveOrders config (listActive (← get) account).length)
      awaitSellAvailable account config request) t := by
    intro t ht
    refine Solo.seq (Safe.mono (fun _ _ _ h => h) (fun _ _ h => h) (fun _ _ _ _ _ h => h) ?_
      (hread (fun _ s => checkActiveOrders config (listActive s account).length) ht))
    intro result u hu
    cases result with
    | ok _ => exact hsell hu
    | error _ => exact hu
  refine Solo.seq (Safe.mono (fun _ _ _ h => h) (fun _ _ h => h) (fun _ _ _ _ _ h => h) ?_ hbuy)
  intro result t ht
  cases result with
  | error _ => exact ht
  | ok _ =>
    refine Solo.seq (Solo.last fun reply _ => ?_)
    have htrim : InSync ((checkRateLimit config reply.now).exec t).2 := by
      unfold checkRateLimit
      simp only [exec_bind, exec_modify, exec_get, exec_ite, exec_throw]
      split <;> exact ht.of_eq rfl rfl rfl
    cases ((checkRateLimit config reply.now).exec t).1 with
    | ok _ => exact hcount htrim
    | error _ => exact htrim

end Place

end FinDashboard.Core
