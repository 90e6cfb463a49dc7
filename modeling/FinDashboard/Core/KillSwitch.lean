import FinDashboard.Core.LevelKept

/-!
# Stopping the order manager

An emergency stop sets the kill switch and then cancels all active orders, while other calls of the
order manager are suspended anywhere. `place_order` reads the switch once, in its first block.
-/

namespace FinDashboard.Core

open Async Broker Persistence Risk List Coroutine

/-- The blocks of the order manager, and the moment the level is set. -/
inductive ControlPoint
  | order (point : Point)
  | setLevel (level : KillSwitchLevel)
  deriving DecidableEq, Repr

abbrev ControlTask (α : Type) := Coroutine Store Reply ControlPoint TradingError α

abbrev ControlPool := Async.Pool Store Reply ControlPoint TradingError Unit

/-- `KillSwitch.set`, as `TradingKernel.activate_kill_switch` reaches it. -/
def setKillSwitchLevel (level : KillSwitchLevel) : Session Unit :=
  modify fun s => { s with killSwitch := level }

/-- `activate_kill_switch`, followed by `cancel_all_active`. -/
def emergencyStop (account : AccountId) (level : KillSwitchLevel) : ControlTask Unit := do
  .atomically (.setLevel level) fun _ => setKillSwitchLevel level
  relabel .order do
    let _ ← cancelAllActive account
    return ()

inductive ControlCall
  | order (call : Call)
  | stop (level : KillSwitchLevel)
  deriving DecidableEq, Repr

def ControlCall.task (account : AccountId) (config : RiskConfig) : ControlCall → ControlTask Unit
  | .order call => (call.task account config).relabel .order
  | .stop level => emergencyStop account level

/-- The event consumer is task 0, call `n` is task `n + 1`. -/
def controlled (account : AccountId) (config : RiskConfig) (events : List BrokerEvent)
    (calls : List ControlCall) (s : Store) : ControlPool :=
  ⟨s, (consumeBrokerEvents account events).relabel .order :: calls.map (·.task account config)⟩

/-- The call is a purchase. -/
def ControlCall.IsBuy (call : ControlCall) : Prop :=
  ∃ request clientOrderId, call = .order (.place request clientOrderId) ∧ request.side = .buy

/-- The blocks of `place_order` from the kill switch check to the broker call. -/
def Point.isCleared : Point → Bool
  | .dailyBuyValue | .rateLimit | .countActiveOrders | .listPositions => true
  | .addOrder _ | .cacheOrder _ | .brokerReceive _ => true
  | _ => false

/-- A suspended call that has passed the kill switch check and has not reached the broker. -/
def Cleared (task : ControlTask Unit) : Prop :=
  ∃ point, task.nextLabel = some (.order point) ∧ point.isCleared = true

def Point.isReceive : Point → Bool
  | .brokerReceive _ => true
  | _ => false

/-- Nothing is handed to the broker any more. -/
def Quiet {α : Type} (task : TradingTask α) : Prop :=
  task.Everywhere fun point _ _ _ => point.isReceive = false

/-- What remains of a purchase after the kill switch check: while something may still be handed to the
broker, the next block is one before the broker call. -/
inductive Late : TradingTask Unit → Prop
  | quiet {task : TradingTask Unit} (silent : Quiet task) : Late task
  | cleared {point : Point} {block : Reply → Store → Store}
      {next : Reply → Store → TradingTask Unit} (before : point.isCleared = true)
      (later : ∀ reply s, Late (next reply s)) : Late (.await point block next)

/-- Every block of the task is one before the broker call. -/
def Checking {α : Type} (task : TradingTask α) : Prop :=
  task.Everywhere fun point _ _ _ => point.isCleared = true

variable {α : Type} {account : AccountId} {config : RiskConfig}

theorem Late.bind {task : TradingTask α} {next : α → TradingTask Unit} (checking : Checking task)
    (later : ∀ a, Late (next a)) : Late (task >>= next) := by
  change Late (task.bind next)
  induction task with
  | pure a => exact later a
  | throw e => exact .quiet trivial
  | await point block rest ih =>
    exact .cleared (checking {} {}).1 fun reply s => ih reply s (checking reply s).2

theorem checking_block {point : Point} {body : Reply → Session α} (before : point.isCleared = true) :
    Checking (atomically point body) := Coroutine.Everywhere.atomically fun _ _ => before

theorem checking_checkContext (request : OrderRequest) :
    Checking (checkContext account config request) := by
  have bought : Checking (awaitDailyBuyValue account config request) := by
    unfold awaitDailyBuyValue
    split
    · exact checking_block rfl
    · trivial
  have sold : Checking (awaitSellAvailable account config request) := by
    unfold awaitSellAvailable
    split
    · exact checking_block rfl
    · trivial
  exact .bind bought fun _ => .bind (checking_block rfl) fun _ =>
    .bind (checking_block rfl) fun _ => sold

theorem quiet_awaitSubmission (clientOrderId : ClientOrderId) :
    Quiet (awaitSubmission clientOrderId) := by
  refine .bind (.atomically fun _ _ => rfl) fun outcome =>
    .bind (.atomically fun _ _ => rfl) fun _ => ?_
  cases outcome with
  | returned submission => trivial
  | timeout => trivial
  | failed => trivial

theorem late_after_admission (request : OrderRequest) (clientOrderId : ClientOrderId) :
    Late (do
      checkContext account config request
      .atomically (.addOrder (newOrder account request clientOrderId))
        fun _ => addOrder (newOrder account request clientOrderId)
      .atomically (.cacheOrder (newOrder account request clientOrderId))
        fun _ => cacheOrder (newOrder account request clientOrderId)
      .atomically (.brokerReceive clientOrderId) fun reply =>
        brokerReceive clientOrderId reply.stampedOrderId
      awaitSubmission clientOrderId) :=
  .bind (checking_checkContext request) fun _ => .bind (checking_block rfl) fun _ =>
    .bind (checking_block rfl) fun _ => .bind (checking_block rfl) fun _ =>
      .quiet (quiet_awaitSubmission clientOrderId)

/-- The level forbids new orders. -/
def Forbids (s : Store) : Prop := allowsNewOrders s.killSwitch = false

/-- A level that forbids new orders is not lifted. -/
def StaysForbidden (s s' : Store) : Prop := Forbids s → Forbids s'

/-- No block of the task lifts a level that forbids new orders. -/
def KeepsForbidding (task : ControlTask α) : Prop :=
  task.Everywhere fun _ _ s s' => StaysForbidden s s'

theorem keepsForbidding_relabel {task : TradingTask α} (kept : KeepsLevel task) :
    KeepsForbidding (task.relabel .order) := by
  refine (kept.mono fun point reply s s' same => ?_).relabel
  intro forbids
  unfold Forbids
  rw [show s'.killSwitch = s.killSwitch from same]
  exact forbids

theorem keepsForbidding_cancelAll : KeepsForbidding (relabel .order (do
    let _ ← cancelAllActive account
    return () : TradingTask Unit)) :=
  keepsForbidding_relabel (@KeepsLevel.call account {} .cancelAll)

theorem keepsForbidding_task {call : ControlCall}
    (forbidding : ∀ level, call = .stop level → allowsNewOrders level = false) :
    KeepsForbidding (call.task account config) := by
  cases call with
  | order placed => exact keepsForbidding_relabel (KeepsLevel.call placed)
  | stop level =>
    have set := forbidding level rfl
    exact .bind (.atomically fun _ _ _ => set) fun _ => keepsForbidding_cancelAll

/-- A stop that has returned has set the level, and it still stands. -/
theorem safe_emergencyStop {level : KillSwitchLevel} (set : allowsNewOrders level = false)
    (s : Store) : Safe (fun _ _ _ => True) StaysForbidden (fun _ _ => StaysForbidden)
      (fun _ t => Forbids t) (emergencyStop account level) s := by
  refine Safe.atomically_bind fun t _ reply _ => ⟨fun _ => set, ?_⟩
  have rest : Safe (fun _ _ _ => True) StaysForbidden (fun _ _ => StaysForbidden)
      (fun _ _ => True) (relabel ControlPoint.order do
        let _ ← cancelAllActive account
        return ()) { t with killSwitch := level } := keepsForbidding_cancelAll.safe _
  have kept := rest.invariant (I := Forbids) (fun _ _ keeps => keeps)
    (fun _ _ _ _ _ forbids keeps => keeps forbids) set
  exact kept.mono (fun _ _ _ ok => ok) (fun _ _ keeps => keeps) (fun _ _ _ _ _ both => both.1)
    fun _ _ both => both.2

section Runs

variable {events : List BrokerEvent} {calls : List ControlCall} {s : Store}

theorem controlled_tasks {n : ℕ} {task : ControlTask Unit}
    (there : (controlled account config events calls s).tasks[n]? = some task) :
    (n = 0 ∧ task = (consumeBrokerEvents account events).relabel .order) ∨
      ∃ m call, n = m + 1 ∧ calls[m]? = some call ∧ task = call.task account config := by
  cases n with
  | zero => exact Or.inl ⟨rfl, (Option.some.inj there).symm⟩
  | succ m =>
    have found : (calls.map (·.task account config))[m]? = some task := there
    rw [getElem?_map] at found
    obtain ⟨call, known, same⟩ := Option.map_eq_some_iff.mp found
    exact Or.inr ⟨m, call, rfl, known, same.symm⟩

/-- Every stop among the calls sets a level that forbids new orders. -/
def StopsForbid (calls : List ControlCall) : Prop :=
  ∀ level, .stop level ∈ calls → allowsNewOrders level = false

theorem StopsForbid.task (stops : StopsForbid calls) {n : ℕ} {task : ControlTask Unit}
    (there : (controlled account config events calls s).tasks[n]? = some task) :
    KeepsForbidding task := by
  rcases controlled_tasks there with ⟨_, rfl⟩ | ⟨m, call, _, known, rfl⟩
  · exact keepsForbidding_relabel (KeepsLevel.consumeBrokerEvents events)
  · refine keepsForbidding_task fun level same => ?_
    rw [same] at known
    exact stops level (mem_of_getElem? known)

theorem forbids_of_returned (stops : StopsForbid calls) {first : List (ℕ × Reply)} {n : ℕ}
    {level : KillSwitchLevel} (stop : calls[n]? = some (.stop level)) {result : Except TradingError Unit}
    (returned : ((controlled account config events calls s).exec first).result? (n + 1) = some result) :
    Forbids ((controlled account config events calls s).exec first).shared := by
  -- the stop establishes the level; the other tasks only keep it
  let contract (m : ℕ) : Contract Store Reply ControlPoint TradingError Unit :=
    { rely := StaysForbidden
      guar := fun _ _ => StaysForbidden
      post := fun _ t => m = n + 1 → Forbids t
      rely_refl := fun _ forbids => forbids
      rely_trans := fun _ _ _ one two forbids => two (one forbids) }
  have start : (controlled account config events calls s).Safe contract fun _ _ _ => True := by
    intro m task there
    by_cases same : m = n + 1
    · subst same
      rcases controlled_tasks there with ⟨zero, _⟩ | ⟨k, call, index, known, rfl⟩
      · cases zero
      · obtain rfl : n = k := by omega
        obtain rfl : ControlCall.stop level = call := Option.some.inj (stop.symm.trans known)
        have set := stops level (mem_of_getElem? stop)
        exact (safe_emergencyStop set s).mono (fun _ _ _ ok => ok) (fun _ _ keeps => keeps) (fun _ _ _ _ _ keeps => keeps)
          fun _ _ forbids _ => forbids
    · exact ((stops.task there).safe s).mono (fun _ _ _ ok => ok) (fun _ _ keeps => keeps)
        (fun _ _ _ _ _ keeps => keeps) fun _ _ _ equal => absurd equal same
  have final := (Pool.Safe.exec (fun _ _ _ _ _ _ _ keeps => keeps) start first fun _ _ => trivial).1
  exact final.result returned rfl

/-- A purchase before its first block. -/
def Unstarted (account : AccountId) (config : RiskConfig) (task : ControlTask Unit) : Prop :=
  ∃ request clientOrderId, request.side = .buy ∧
    task = (placeOrder account config request clientOrderId).relabel .order

/-- The task of a purchase, in any interleaving. -/
def Purchase (account : AccountId) (config : RiskConfig) (task : ControlTask Unit) : Prop :=
  Unstarted account config task ∨ ∃ rest, Late rest ∧ task = rest.relabel .order

/-- The task of a purchase that will not reach the broker any more, unless it is not yet started. -/
def Silent (account : AccountId) (config : RiskConfig) (task : ControlTask Unit) : Prop :=
  Unstarted account config task ∨ ∃ rest, Quiet rest ∧ task = rest.relabel .order

/-- A purchase is refused in its first block where new orders are forbidden. -/
theorem checkAdmission_forbidden {request : OrderRequest} (buy : request.side = .buy) {s : Store}
    (forbids : Forbids s) : ∃ e, ((checkAdmission account config request).exec s).1 = .error e := by
  have refused : checkKillSwitch s.killSwitch request =
      .error (.killSwitchActive s.killSwitch request.side request.symbol) := by
    simp [checkKillSwitch, show allowsNewOrders s.killSwitch = false from forbids, buy]
  have screened : screen config s.killSwitch request =
      .error (.killSwitchActive s.killSwitch request.side request.symbol) := by
    simp only [screen, refused]
    rfl
  by_cases ready : s.ready = true
  · by_cases own : request.accountId = account
    · exact ⟨.killSwitchActive s.killSwitch request.side request.symbol,
        by simp [checkAdmission, Block.exec_bind, ready, own, screened]⟩
    · exact ⟨.accountMismatch request.accountId account,
        by simp [checkAdmission, Block.exec_bind, ready, own]⟩
  · exact ⟨.kernelNotReady, by simp [checkAdmission, Block.exec_bind, ready]⟩

variable {label : ControlPoint} {block : Reply → Store → Store}
  {next : Reply → Store → ControlTask Unit}

theorem Unstarted.resume (unstarted : Unstarted account config (.await label block next)) :
    (∃ request, label = .order (.admission request)) ∧ ∀ reply s,
      (∃ rest, Late rest ∧ next reply s = rest.relabel .order) ∧
        (Forbids s → ∃ rest, Quiet rest ∧ next reply s = rest.relabel .order) := by
  obtain ⟨request, clientOrderId, buy, same⟩ := unstarted
  obtain ⟨rfl, rfl, rfl⟩ := await.inj same
  refine ⟨⟨request, rfl⟩, fun reply s => ⟨⟨_, ?_, rfl⟩, fun forbids => ⟨_, ?_, rfl⟩⟩⟩
  · change Late ((ofExcept ((checkAdmission account config request).exec s).1).bind _)
    cases ((checkAdmission account config request).exec s).1 with
    | ok admitted => exact late_after_admission request clientOrderId
    | error e => exact .quiet trivial
  · obtain ⟨e, refused⟩ := @checkAdmission_forbidden account config request buy s forbids
    change Quiet ((ofExcept ((checkAdmission account config request).exec s).1).bind _)
    rw [refused]
    trivial

theorem Purchase.resume (purchase : Purchase account config (.await label block next))
    (reply : Reply) (s : Store) : Purchase account config (next reply s) := by
  rcases purchase with unstarted | ⟨rest, late, same⟩
  · exact Or.inr (unstarted.resume.2 reply s).1
  · obtain ⟨point, later, rfl, _, follow⟩ := relabel_eq_await same
    refine Or.inr ⟨later reply s, ?_, follow reply s⟩
    cases late with
    | quiet silent => exact .quiet (silent reply s).2
    | cleared before later => exact later reply s

/-- Where new orders are forbidden a silent purchase stays silent, and hands nothing to the broker. -/
theorem Silent.resume (silent : Silent account config (.await label block next)) :
    (∀ clientOrderId, label ≠ .order (.brokerReceive clientOrderId)) ∧
      ∀ reply s, Forbids s → Silent account config (next reply s) := by
  rcases silent with unstarted | ⟨rest, quiet, same⟩
  · obtain ⟨⟨request, first⟩, later⟩ := unstarted.resume
    refine ⟨?_, fun reply s forbids => Or.inr ((later reply s).2 forbids)⟩
    intro clientOrderId receive
    rw [first] at receive
    cases receive
  · obtain ⟨point, later, rfl, labelled, follow⟩ := relabel_eq_await same
    refine ⟨?_, fun reply s _ => Or.inr ⟨later reply s, (quiet reply s).2, follow reply s⟩⟩
    intro clientOrderId receive
    rw [labelled] at receive
    obtain rfl := ControlPoint.order.inj receive
    exact Bool.noConfusion (quiet {} {}).1

/-- A purchase that is not between its kill switch check and the broker call is silent. -/
theorem Purchase.silent {task : ControlTask Unit} (purchase : Purchase account config task)
    (outside : ¬ Cleared task) : Silent account config task := by
  rcases purchase with unstarted | ⟨rest, late, rfl⟩
  · exact Or.inl unstarted
  · refine Or.inr ⟨rest, ?_, rfl⟩
    cases late with
    | quiet silent => exact silent
    | cleared before later => exact absurd ⟨_, rfl, before⟩ outside

/-- The programs of the purchases among the calls, in any state of the run. -/
def Purchases (account : AccountId) (config : RiskConfig) (calls : List ControlCall)
    (program : AccountId → RiskConfig → ControlTask Unit → Prop) (n : ℕ)
    (task : ControlTask Unit) : Prop :=
  KeepsForbidding task ∧
    ∀ m call, n = m + 1 → calls[m]? = some call → call.IsBuy → program account config task

theorem purchases_exec (stops : StopsForbid calls) (first : List (ℕ × Reply)) :
    ∀ n task, ((controlled account config events calls s).exec first).tasks[n]? = some task →
      Purchases account config calls Purchase n task := by
  refine (Pool.exec_tasks (fun _ => True) (Purchases account config calls Purchase) ?_ first trivial
    ?_).1.2
  · intro n label block next reply s ok _
    exact ⟨trivial, (ok.1 reply s).2, fun m call index known buy =>
      (ok.2 m call index known buy).resume reply s⟩
  · intro n task there
    refine ⟨stops.task there, ?_⟩
    rintro m call rfl known ⟨request, clientOrderId, rfl, buy⟩
    rcases controlled_tasks there with ⟨zero, _⟩ | ⟨k, other, index, found, rfl⟩
    · cases zero
    · obtain rfl : m = k := by omega
      obtain rfl := Option.some.inj (known.symm.trans found)
      exact Or.inl ⟨request, clientOrderId, buy, rfl⟩

/-- The kill switch is effective: once a stop has returned, no purchase is handed to the broker any
more, if at that point no purchase is suspended between its kill switch check and the broker call. -/
theorem no_purchase_after_stop {first second : List (ℕ × Reply)} {n : ℕ} {level : KillSwitchLevel}
    {result : Except TradingError Unit} (stops : StopsForbid calls)
    (stop : calls[n]? = some (.stop level))
    (returned : ((controlled account config events calls s).exec first).result? (n + 1) = some result)
    (outside : ∀ m call task, calls[m]? = some call → call.IsBuy →
      ((controlled account config events calls s).exec first).tasks[m + 1]? = some task →
        ¬ Cleared task) : ∀ t ∈ ((controlled account config events calls s).exec first).turns second,
      ∀ m call, t.task = m + 1 → calls[m]? = some call → call.IsBuy →
        ∀ clientOrderId, t.label ≠ .order (.brokerReceive clientOrderId) := by
  have forbids := forbids_of_returned stops stop returned
  have turns := (Pool.exec_tasks Forbids (Purchases account config calls Silent) ?resumed second
    forbids ?stopped).2
  case resumed =>
    intro n label block next reply s ok still
    exact ⟨(ok.1 reply s).1 still, (ok.1 reply s).2, fun m call index known buy =>
      (ok.2 m call index known buy).resume.2 reply s still⟩
  case stopped =>
    intro n task there
    obtain ⟨keeps, purchases⟩ := purchases_exec stops first n task there
    refine ⟨keeps, ?_⟩
    rintro m call rfl known buy
    exact (purchases m call rfl known buy).silent (outside m call task known buy there)
  intro t taken m call index known buy
  obtain ⟨block, next, ok⟩ := turns t taken
  exact (ok.2 m call index known buy).resume.1

end Runs

def samplePurchase : OrderRequest where
  accountId := "acc"
  symbol := { code := "510300.SH", market := .aShare }
  side := .buy
  orderType := .limit
  quantity := 100
  price := some 4

def purchaseAndStop : ControlPool :=
  controlled "acc" {} [] [.order (.place samplePurchase "o1"), .stop .cancelAll] { ready := true }

theorem stopsForbid_sample :
    StopsForbid [.order (.place samplePurchase "o1"), .stop .cancelAll] := by
  intro level member
  simp only [mem_cons, reduceCtorEq, ControlCall.stop.injEq, not_mem_nil, or_false, false_or] at member
  rw [member]
  rfl

/-- The purchase starts after the stop has returned. -/
theorem no_purchase_after_stop_sample :
    (purchaseAndStop.exec [(2, {}), (2, {})]).result? (1 + 1) = some (.ok ()) ∧
    ∀ t ∈ (purchaseAndStop.exec [(2, {}), (2, {})]).turns [(1, {}), (1, {})],
      ∀ m call, t.task = m + 1 →
        [ControlCall.order (.place samplePurchase "o1"), .stop .cancelAll][m]? = some call →
          call.IsBuy → ∀ clientOrderId, t.label ≠ .order (.brokerReceive clientOrderId) := by
  have returned : (purchaseAndStop.exec [(2, {}), (2, {})]).result? (1 + 1) = some (.ok ()) := by
    decide +kernel
  refine ⟨returned, no_purchase_after_stop stopsForbid_sample rfl returned ?_⟩
  rintro (_ | _ | m) call task known ⟨request, clientOrderId, same, _⟩ there
  · obtain rfl := Option.some.inj there
    rintro ⟨point, label, cleared⟩
    cases label
    cases cleared
  · rw [same] at known
    cases known
  · cases known

/-- A purchase that has passed its kill switch check is handed to the broker after the stop has
returned. -/
theorem purchase_after_stop : ¬ ∀ account config events calls s first second n level result,
    StopsForbid calls → calls[n]? = some (.stop level) →
      ((controlled account config events calls s).exec first).result? (n + 1) = some result →
        ∀ t ∈ ((controlled account config events calls s).exec first).turns second,
          ∀ m call, t.task = m + 1 → calls[m]? = some call → call.IsBuy →
            ∀ clientOrderId, t.label ≠ .order (.brokerReceive clientOrderId) := by
  intro effective
  have none_left := effective "acc" {} [] [.order (.place samplePurchase "o1"), .stop .cancelAll]
    { ready := true } [(1, {}), (2, {}), (2, {})]
    [(1, {}), (1, {}), (1, {}), (1, {}), (1, {}), (1, {})] 1 .cancelAll (.ok ())
    stopsForbid_sample rfl (by decide +kernel)
  have handed : ((purchaseAndStop.exec [(1, {}), (2, {}), (2, {})]).turns
      [(1, {}), (1, {}), (1, {}), (1, {}), (1, {}), (1, {})]).map (fun t => (t.task, t.label)) =
        [ (1, .order .dailyBuyValue), (1, .order .rateLimit), (1, .order .countActiveOrders),
          (1, .order (.addOrder (newOrder "acc" samplePurchase "o1"))),
          (1, .order (.cacheOrder (newOrder "acc" samplePurchase "o1"))),
          (1, .order (.brokerReceive "o1")) ] := by
    decide +kernel
  have last : ((1 : ℕ), ControlPoint.order (.brokerReceive "o1")) ∈
      ((purchaseAndStop.exec [(1, {}), (2, {}), (2, {})]).turns
        [(1, {}), (1, {}), (1, {}), (1, {}), (1, {}), (1, {})]).map (fun t => (t.task, t.label)) := by
    rw [handed]
    simp
  obtain ⟨t, taken, same⟩ := mem_map.mp last
  have task := congrArg Prod.fst same
  exact none_left t taken 0 _ task rfl ⟨samplePurchase, "o1", rfl, rfl⟩ "o1" (congrArg Prod.snd same)

end FinDashboard.Core
