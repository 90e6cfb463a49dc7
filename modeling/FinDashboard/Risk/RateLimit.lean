import FinDashboard.Risk.Checker
import FinDashboard.Runs.SlidingWindow

/-!
# The order rate limit

A sequence of risk checks shares the window of the rate rule. Whatever the other rules do and
whatever happens to the store between the checks, no minute holds more passed checks than allowed.
-/

namespace FinDashboard.Risk

open Async Broker Core Persistence List Coroutine

variable {account : AccountId} {config : RiskConfig} {s t : Store}

/-- `PreTradeChecker.check` up to the rate rule. -/
def beforeRateRule (account : AccountId) (config : RiskConfig) (request : OrderRequest) :
    TradingTask Unit := do
  .atomically (.admission request) fun _ => do
    requireOk (screen config (← get).killSwitch request)
  awaitDailyBuyValue account config request

def check (account : AccountId) (config : RiskConfig) (request : OrderRequest) :
    TradingTask Unit := do
  .atomically (.admission request) fun _ => do
    requireOk (screen config (← get).killSwitch request)
  checkContext account config request

/-- A check, the clock it reads, and what happens to the store before it. -/
structure CheckCall where
  request : OrderRequest
  answer : Point → Reply
  between : Store → Store
  between_window : ∀ s, (between s).callTimestamps = s.callTimestamps

/-- The time the rate rule reads. -/
def CheckCall.now (call : CheckCall) : ℤ := (call.answer .rateLimit).now

/-- The whole check, with the clock it reads. -/
def CheckCall.run (account : AccountId) (config : RiskConfig) (call : CheckCall) (s : Store) :
    Except TradingError Unit × Store :=
  (check account config call.request).run (fun point _ => call.answer point) s

def passesRateRule (account : AccountId) (config : RiskConfig) (call : CheckCall) (s : Store) : Bool :=
  match (beforeRateRule account config call.request).run (fun point _ => call.answer point) s with
  | (.ok _, t) => ((checkRateLimit config call.now).exec t).1.isOk
  | (.error _, _) => false

def passTimes (account : AccountId) (config : RiskConfig) : List CheckCall → Store → List ℤ
  | [], _ => []
  | call :: rest, s =>
    (if passesRateRule account config call (call.between s) then [call.now] else []) ++
      passTimes account config rest (call.run account config (call.between s)).2

/-- The block leaves the window of the rate rule alone. -/
def WindowKept {α : Type} (task : TradingTask α) : Prop :=
  task.Everywhere fun _ _ s s' => s'.callTimestamps = s.callTimestamps

theorem WindowKept.run {α : Type} {task : TradingTask α} (kept : WindowKept task)
    (answer : Point → Store → Reply) (s : Store) :
    (task.run answer s).2.callTimestamps = s.callTimestamps :=
  Coroutine.Everywhere.run (R := fun s s' : Store => s'.callTimestamps = s.callTimestamps)
    (fun _ => rfl) (fun first second => second.trans first) kept answer s

/-- A block that reads the store and may raise. -/
theorem windowKept_read {α : Type} (point : Point) (result : Reply → Store → Except TradingError α) :
    WindowKept (atomically point fun reply => do requireOk (result reply (← get))) := by
  refine Coroutine.Everywhere.atomically fun reply s => ?_
  rw [Block.exec_bind_ok (Block.exec_get s), exec_requireOk]

theorem windowKept_beforeRateRule (account : AccountId) (config : RiskConfig) (request : OrderRequest) :
    WindowKept (beforeRateRule account config request) := by
  refine Coroutine.Everywhere.bind
    (windowKept_read _ fun _ s => screen config s.killSwitch request) fun _ => ?_
  unfold awaitDailyBuyValue
  split
  · exact windowKept_read _ fun reply s => checkDailyBuyValue config
      (sumBuyValueSince s account (dayStart reply.now)) request.quantity _
  · trivial

def afterRateRule (account : AccountId) (config : RiskConfig) (request : OrderRequest) :
    TradingTask Unit := do
  .atomically .countActiveOrders fun _ => do
    requireOk (checkActiveOrders config (listActive (← get) account).length)
  awaitSellAvailable account config request

theorem windowKept_afterRateRule (account : AccountId) (config : RiskConfig) (request : OrderRequest) :
    WindowKept (afterRateRule account config request) := by
  refine Coroutine.Everywhere.bind
    (windowKept_read _ fun _ s => checkActiveOrders config (listActive s account).length) fun _ => ?_
  unfold awaitSellAvailable
  split
  · exact windowKept_read _ fun _ s => checkSellAvailable config request (listLocal s account)
  · trivial

theorem exec_checkRateLimit (config : RiskConfig) (now : ℤ) (s : Store) :
    (checkRateLimit config now).exec s =
      if config.maxOrdersPerMinute ≤ (trimWindow now s.callTimestamps).length then
        (.error (.riskCheck .riskCheckFailed [.text "超过每分钟订单数上限 ", .value config.maxOrdersPerMinute]),
          { s with callTimestamps := trimWindow now s.callTimestamps })
      else (.ok (), { s with callTimestamps := trimWindow now s.callTimestamps ++ [now] }) := by
  unfold checkRateLimit
  rw [Block.exec_bind_ok (Block.exec_modify _ s), Block.exec_bind_ok (Block.exec_get _)]
  split_ifs with full
  · exact Block.exec_bind_error (Block.exec_throw _ _)
  · rfl

theorem check_eq (request : OrderRequest) : check account config request = (do
    beforeRateRule account config request
    atomically .rateLimit fun reply => checkRateLimit config reply.now
    afterRateRule account config request) := by
  unfold check beforeRateRule
  rw [bind_assoc]
  rfl

/-- A check that passes the rate rule finds room in the window and enters its time; any other check
leaves the window or lets old times expire. -/
theorem window_after (account : AccountId) (config : RiskConfig) (call : CheckCall) (s : Store) :
    (passesRateRule account config call s = true ∧
      (expire 60000000 call.now s.callTimestamps).length < config.maxOrdersPerMinute ∧
        (call.run account config s).2.callTimestamps =
          expire 60000000 call.now s.callTimestamps ++ [call.now]) ∨
      passesRateRule account config call s = false ∧
        ((call.run account config s).2.callTimestamps = s.callTimestamps ∨
          (call.run account config s).2.callTimestamps = expire 60000000 call.now s.callTimestamps) := by
  have before := (windowKept_beforeRateRule account config call.request).run (fun point _ => call.answer point) s
  unfold CheckCall.run passesRateRule
  rw [check_eq]
  generalize reached : (beforeRateRule account config call.request).run
    (fun point _ => call.answer point) s = outcome at before ⊢
  obtain ⟨_ | _, t⟩ := outcome
  · rw [run_bind_error _ s reached]
    exact Or.inr ⟨rfl, Or.inl before⟩
  · have rule := exec_checkRateLimit config call.now t
    have ran : (atomically .rateLimit fun reply : Reply =>
        checkRateLimit config reply.now : TradingTask Unit).run (fun point _ => call.answer point) t =
        (checkRateLimit config call.now).exec t := run_atomically _ _ _ _
    have window := before
    rw [window] at rule
    rw [run_bind_ok _ s reached]
    split_ifs at rule with full
    · rw [rule] at ran
      rw [run_bind_error _ t ran]
      dsimp only
      rw [rule]
      exact Or.inr ⟨rfl, Or.inr rfl⟩
    · rw [rule] at ran
      rw [run_bind_ok _ t ran, (windowKept_afterRateRule account config call.request).run]
      dsimp only
      rw [rule]
      exact Or.inl ⟨rfl, not_le.mp full, rfl⟩

/-- The clock does not run backwards. -/
abbrev Ordered (calls : List CheckCall) : Prop := (calls.map (·.now)).Pairwise (· ≤ ·)

theorem limited_run {calls : List CheckCall} (ordered : Ordered calls) {last : ℤ}
    (later : ∀ call ∈ calls, last ≤ call.now) {admitted : List ℤ}
    (invariant : WindowInvariant 60000000 config.maxOrdersPerMinute last s.callTimestamps admitted)
    (start : ℤ) : (inWindow 60000000 start
      (admitted ++ passTimes account config calls s)).length ≤ config.maxOrdersPerMinute := by
  induction calls generalizing s last admitted with
  | nil =>
    rw [passTimes, append_nil]
    exact invariant.limited start
  | cons call rest ih =>
    obtain ⟨first, ordered⟩ := pairwise_cons.mp ordered
    have next : ∀ other ∈ rest, call.now ≤ other.now := fun other member =>
      first _ (mem_map_of_mem member)
    have now := later call mem_cons_self
    have expired := invariant.expire now
    obtain ⟨passed, room, window⟩ | ⟨refused, window⟩ :=
      window_after account config call (call.between s)
    · rw [call.between_window] at room window
      rw [passTimes, if_pos passed, ← append_assoc]
      exact ih ordered next (window ▸ expired.admit room)
    · rw [call.between_window] at window
      rw [passTimes, if_neg (by simp [refused]), nil_append]
      obtain kept | trimmed := window
      · exact ih ordered (fun other member => now.trans (next other member)) (kept ▸ invariant)
      · exact ih ordered next (trimmed ▸ expired)

/-- No closed minute holds more passed checks than the configuration allows. -/
theorem rate_limited (account : AccountId) (config : RiskConfig) {calls : List CheckCall}
    (ordered : Ordered calls) {s : Store} (fresh : s.callTimestamps = []) (start : ℤ) :
    (inWindow 60000000 start (passTimes account config calls s)).length ≤ config.maxOrdersPerMinute := by
  cases calls with
  | nil => exact Nat.zero_le _
  | cons call rest =>
    have later : ∀ other ∈ call :: rest, call.now ≤ other.now := by
      intro other member
      obtain rfl | behind := mem_cons.mp member
      · exact le_refl _
      · exact (pairwise_cons.mp ordered).1 _ (mem_map_of_mem behind)
    have empty : WindowInvariant 60000000 config.maxOrdersPerMinute call.now s.callTimestamps
        [] := by
      rw [fresh]
      exact WindowInvariant.empty call.now
    exact limited_run ordered later empty start

/-- A check of a small purchase at a given time. -/
def checkAt (now : ℤ) : CheckCall where
  request := ⟨"acc", ⟨"510300.SH", .aShare⟩, .buy, .limit, 100, some 2⟩
  answer := fun _ => { now }
  between := id
  between_window := fun _ => rfl

/-- Two checks a minute apart and a third behind them; the second does not pass. -/
theorem rate_limited_burst :
    Ordered [checkAt 0, checkAt 60000000, checkAt 60000001] ∧
      passTimes "acc" { maxOrdersPerMinute := 1 }
        [checkAt 0, checkAt 60000000, checkAt 60000001] {} = [0, 60000001] ∧
      (inWindow 60000000 1 (passTimes "acc" { maxOrdersPerMinute := 1 }
        [checkAt 0, checkAt 60000000, checkAt 60000001] {})).length ≤ 1 :=
  ⟨by decide, by decide +kernel, rate_limited "acc" { maxOrdersPerMinute := 1 }
    (s := {}) (show Ordered [checkAt 0, checkAt 60000000, checkAt 60000001] by decide) rfl 1⟩

end FinDashboard.Risk
