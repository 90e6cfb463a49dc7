import FinDashboard.Core.FillDelivery
import FinDashboard.Core.CacheAgreement
import FinDashboard.Ledger.Totals

/-!
# The order count and the daily buy value

`PreTradeChecker` compares two counters with their limits, several awaits before the order is
stored; resting orders are not in the second counter at all. The limits hold in every
reachable state of the runs in which the counters leave room when the order is inserted.
-/

namespace FinDashboard.Risk

open List

section Limits

open Async Broker Core Persistence Ledger

variable {account : AccountId} {config : RiskConfig} {since : ℤ}

/-- A buy limit order that may still be executed. -/
def isRestingBuy (account : AccountId) (row : Order) : Bool :=
  row.accountId = account && row.status.isActive && row.side = .buy && row.orderType = .limit

/-- The value a row may still cost at its limit. -/
def restingValue (account : AccountId) (fills : List Fill) (row : Order) : ℚ :=
  if isRestingBuy account row then
    row.price.getD 0 * (row.quantity - filledOf fills row.clientOrderId)
  else 0

/-- The bought value of the day and the value of resting buy limit orders. -/
def buyExposure (s : Store) (account : AccountId) (since : ℤ) : ℚ :=
  sumBuyValueSince s account since + total (restingValue account s.fills) s.orders

/-- The two limits. -/
structure WithinLimits (account : AccountId) (config : RiskConfig) (since : ℤ) (s : Store) :
    Prop where
  activeOrders : (activeRows s account).length ≤ config.maxActiveOrders
  buyValue : buyExposure s account since ≤ config.maxDailyBuyValue

/-- Room for an order when it is inserted, and for an execution that no resting order covers. -/
def limitRoom (account : AccountId) (config : RiskConfig) (since : ℤ) : PointCondition
  | .addOrder order, _, s =>
      (activeRows s account).length < config.maxActiveOrders ∧
        (isRestingBuy account order = true →
          buyExposure s account since + order.price.getD 0 * order.quantity ≤
            config.maxDailyBuyValue)
  | .addFill fill, _, s =>
      isBuySince s account since fill = true →
        (∃ row ∈ s.orders, row.clientOrderId = fill.clientOrderId ∧ isRestingBuy account row = true) ∨
        buyExposure s account since + fill.price * fill.quantity ≤ config.maxDailyBuyValue
  | _, _, _ => True

instance : ∀ point reply s, Decidable (limitRoom account config since point reply s) := by
  intro point reply s
  apply Point.casesOn (motive := fun point => Decidable (limitRoom account config since point reply s)) point <;>
    intros <;> (unfold limitRoom; infer_instance)

/-- The runs in which the limits hold. -/
def limitCondition (account : AccountId) (config : RiskConfig) (since : ℤ) : PointCondition :=
  fun point reply s => (brokerLegal point reply s ∧ executionLegal point reply s) ∧
    copiesActive point reply s ∧ limitRoom account config since point reply s

instance (point : Point) (reply : Reply) (s : Store) :
    Decidable (limitCondition account config since point reply s) :=
  inferInstanceAs (Decidable ((_ ∧ _) ∧ _ ∧ _))

/-- No buy limit order is free of charge or executed beyond its quantity. -/
def BuysSound (s : Store) : Prop :=
  ∀ row ∈ s.orders, row.side = .buy → row.orderType = .limit →
    0 < row.price.getD 0 ∧ filledOf s.fills row.clientOrderId ≤ row.quantity

/-- The invariant behind the limits. -/
structure LimitInvariant (account : AccountId) (config : RiskConfig) (since : ℤ) (s : Store) :
    Prop where
  rows : RowsSettled s
  sound : BuysSound s
  limits : WithinLimits account config since s

theorem restingValue_nonneg {s : Store} (hsound : BuysSound s) {row : Order}
    (hmem : row ∈ s.orders) : 0 ≤ restingValue account s.fills row := by
  unfold restingValue
  split
  · rename_i hresting
    simp only [isRestingBuy, Bool.and_eq_true, decide_eq_true_eq] at hresting
    obtain ⟨hprice, hfilled⟩ := hsound row hmem hresting.1.2 hresting.2
    exact mul_nonneg hprice.le (sub_nonneg.mpr hfilled)
  · exact le_refl _

section WriteBack

variable {s : Store} {order : Order}

theorem sumBuyValueSince_persist :
    sumBuyValueSince (persist s order) account since = sumBuyValueSince s account since := by
  have hcount : isBuySince (persist s order) account since = isBuySince s account since := by
    funext fill
    unfold isBuySince persist
    rw [any_map]
    simp only [Function.comp_def, (updateRow_terms _ _).1, clientOrderId_updateRow]
  unfold sumBuyValueSince
  rw [hcount]
  rfl

theorem activeRows_persist_le (hkeeps : KeepsSettled order s) :
    (activeRows (persist s order) account).length ≤ (activeRows s account).length := by
  unfold activeRows persist
  rw [← countP_eq_length_filter, ← countP_eq_length_filter, countP_map]
  refine countP_mono_left fun row hmem hrow => ?_
  simp only [Function.comp_apply, Bool.and_eq_true, decide_eq_true_eq, (updateRow_terms _ row).1,
    mem_listActiveStatuses] at hrow ⊢
  exact ⟨hrow.1, isActive_of_updateRow hkeeps hmem hrow.2⟩

theorem total_restingValue_persist_le (hsound : BuysSound s) (hkeeps : KeepsSettled order s) :
    total (restingValue account (persist s order).fills) (persist s order).orders ≤
      total (restingValue account s.fills) s.orders := by
  unfold persist
  rw [total_map]
  refine total_le_total fun row hmem => ?_
  by_cases hresting : isRestingBuy account row = true
  · unfold restingValue
    obtain ⟨-, -, -, -, hprice, hquantity⟩ := updateRow_terms order row
    rw [hprice, hquantity, clientOrderId_updateRow, if_pos hresting]
    split
    · exact le_refl _
    · have hvalue : 0 ≤ restingValue account s.fills row := restingValue_nonneg hsound hmem
      unfold restingValue at hvalue
      rwa [if_pos hresting] at hvalue
  · have hsettled : isRestingBuy account
        (updateRow order.clientOrderId (writeState order) row) = false := by
      obtain ⟨haccount, hside, -, htype, -, -⟩ := updateRow_terms order row
      by_contra hne
      rw [Bool.not_eq_false] at hne
      simp only [isRestingBuy, Bool.and_eq_true, decide_eq_true_eq, haccount, hside, htype] at hne
      have hactive := isActive_of_updateRow hkeeps hmem hne.1.1.2
      exact hresting (by simp [isRestingBuy, hne, hactive])
    unfold restingValue
    rw [hsettled, if_neg hresting]
    exact le_refl _

end WriteBack

end Limits

/-!
## Runs within the limits

Each step keeps the limit invariant: inserting an order uses the room the condition asks for,
an execution moves value from the resting to the bought side, and every other step only
settles orders.
-/

section LimitRuns

open Async Broker Core Persistence Ledger

variable {account : AccountId} {config : RiskConfig} {since : ℤ} {s s' : Store}

/-- What the synchronous checks say about an order. -/
theorem terms_of_screen {level : KillSwitchLevel} {request : OrderRequest}
    (h : screen config level request = .ok ()) :
    0 < request.quantity ∧ (request.orderType = .limit → 0 < request.price.getD 0) := by
  unfold screen at h
  cases hswitch : checkKillSwitch level request with
  | error e => simp [hswitch, bind, Except.bind] at h
  | ok _ =>
    cases hbasic : checkBasic request with
    | error e => simp [hswitch, hbasic, bind, Except.bind] at h
    | ok _ =>
      unfold checkBasic at hbasic
      by_cases hquantity : request.quantity ≤ 0
      · simp [hquantity, bind, Except.bind, throw, throwThe, MonadExceptOf.throw] at hbasic
      · refine ⟨not_le.mp hquantity, fun hlimit => ?_⟩
        by_contra hprice
        have hbad : (request.orderType = .limit && request.price.all (· ≤ 0)) = true := by
          cases hp : request.price <;> simp_all
        simp [hquantity, hbad, bind, Except.bind, throw, throwThe, MonadExceptOf.throw] at hbasic

theorem sumBuyValueSince_addFill (fill : Fill) :
    sumBuyValueSince { s with fills := s.fills ++ [fill] } account since =
      sumBuyValueSince s account since +
        if isBuySince s account since fill then fill.price * fill.quantity else 0 := by
  have hcount : isBuySince { s with fills := s.fills ++ [fill] } account since =
      isBuySince s account since := rfl
  unfold sumBuyValueSince
  rw [hcount, filter_append, map_append, sum_append]
  by_cases h : isBuySince s account since fill = true <;> simp [h]

theorem sumBuyValueSince_insertOrder {order : Order}
    (hnone : ∀ fill ∈ s.fills, fill.clientOrderId ≠ order.clientOrderId) :
    sumBuyValueSince (s.insertOrder order) account since = sumBuyValueSince s account since := by
  have hcount : s.fills.filter (isBuySince (s.insertOrder order) account since) =
      s.fills.filter (isBuySince s account since) := by
    refine filter_congr fun fill hfill => ?_
    have hne := (hnone fill hfill).symm
    unfold isBuySince
    rw [orders_insertOrder, any_append]
    simp [hne]
  unfold sumBuyValueSince
  rw [fills_insertOrder, hcount]

namespace LimitInvariant

theorem of_eq (h : LimitInvariant account config since s) (hrows : RowsSettled s')
    (horders : s'.orders = s.orders) (hfills : s'.fills = s.fills) :
    LimitInvariant account config since s' where
  rows := hrows
  sound := by
    unfold BuysSound
    rw [horders, hfills]
    exact h.sound
  limits := by
    have hactive : activeRows s' account = activeRows s account := by
      unfold activeRows
      rw [horders]
    have hexposure : buyExposure s' account since = buyExposure s account since := by
      unfold buyExposure sumBuyValueSince isBuySince
      rw [horders, hfills]
    exact ⟨by rw [hactive]; exact h.limits.activeOrders, by rw [hexposure]; exact h.limits.buyValue⟩

/-- Write-backs that keep settled orders settled. -/
theorem ofPersist (h : LimitInvariant account config since s) {order : Order}
    (hrows : RowsSettled (persist s order)) (hkeeps : KeepsSettled order s) :
    LimitInvariant account config since (persist s order) where
  rows := hrows
  sound row hmem hside htype := by
    obtain ⟨-, hold⟩ | ⟨-, old, hold, -, hwrite⟩ := mem_persist hmem
    · exact h.sound row hold hside htype
    · rw [hwrite] at hside htype ⊢
      exact h.sound old hold hside htype
  limits := by
    refine ⟨(activeRows_persist_le hkeeps).trans h.limits.activeOrders, ?_⟩
    have htotal : total (restingValue account (persist s order).fills) (persist s order).orders ≤
        total (restingValue account s.fills) s.orders :=
      total_restingValue_persist_le h.sound hkeeps
    have hexposure := h.limits.buyValue
    unfold buyExposure at hexposure ⊢
    rw [sumBuyValueSince_persist]
    linarith

theorem ofRoutine (hroutine : Routine s s') (h : LimitInvariant account config since s) :
    LimitInvariant account config since s' := by
  induction hroutine with
  | other hinflight horders hfills => exact h.of_eq (h.rows.of_eq hinflight horders) horders hfills
  | load huncached hrow => exact h.of_eq (.ofRoutine (.load huncached hrow) h.rows) rfl rfl
  | mutate hcached hlegal hfilled hsame =>
    exact h.of_eq (.ofRoutine (.mutate hcached hlegal hfilled hsame) h.rows) rfl rfl
  | persist hcached hrow =>
    exact h.ofPersist (.ofRoutine (.persist hcached hrow) h.rows) (h.rows.keepsSettled hcached)
  | trans _ _ ih ih' => exact ih' (ih h)

theorem insert (h : LimitInvariant account config since s) {order : Order}
    (hplaced : IsPlaced account config order) (hrows : RowsSettled (s.insertOrder order))
    (hnone : ∀ fill ∈ s.fills, fill.clientOrderId ≠ order.clientOrderId)
    (hroom : (activeRows s account).length < config.maxActiveOrders ∧ (isRestingBuy account order = true →
        buyExposure s account since + order.price.getD 0 * order.quantity ≤ config.maxDailyBuyValue)) :
    LimitInvariant account config since (s.insertOrder order) where
  rows := hrows
  sound row hmem hside htype := by
    rcases mem_append.mp hmem with hold | hnew
    · exact h.sound row hold hside htype
    · obtain rfl := mem_singleton.mp hnew
      obtain ⟨request, clientOrderId, level, rfl, hscreen⟩ := hplaced
      obtain ⟨hquantity, hprice⟩ := terms_of_screen hscreen
      refine ⟨hprice htype, ?_⟩
      rw [fills_insertOrder, filledOf_eq_zero hnone]
      exact hquantity.le
  limits := by
    refine ⟨?_, ?_⟩
    · have hlength : (activeRows (s.insertOrder order) account).length ≤
          (activeRows s account).length + 1 := by
        unfold activeRows
        rw [orders_insertOrder, filter_append, length_append]
        exact Nat.add_le_add_left (length_filter_le _ _) _
      have hless := hroom.1
      omega
    · have hbuy := h.limits.buyValue
      unfold buyExposure at hbuy ⊢
      rw [sumBuyValueSince_insertOrder hnone, orders_insertOrder, fills_insertOrder, total_append,
        total_cons, total_nil, add_zero]
      by_cases hresting : isRestingBuy account order = true
      · have hlimit := hroom.2 hresting
        unfold buyExposure at hlimit
        have hvalue : restingValue account s.fills order = order.price.getD 0 * order.quantity := by
          rw [restingValue, if_pos hresting, filledOf_eq_zero hnone, sub_zero]
        rw [hvalue]
        linarith
      · have hvalue : restingValue account s.fills order = 0 := by
          rw [restingValue, if_neg hresting]
        rw [hvalue]
        linarith

theorem restingValue_addFill {fill : Fill} {row : Order}
    (hlegal : isRestingBuy account row = true → row.clientOrderId = fill.clientOrderId →
      0 < fill.quantity ∧ fill.price ≤ row.price.getD 0 ∧ 0 < row.price.getD 0) :
    (isRestingBuy account row = true → restingValue account (s.fills ++ [fill]) row +
        (if row.clientOrderId = fill.clientOrderId then fill.price * fill.quantity else 0) ≤
          restingValue account s.fills row) ∧
    restingValue account (s.fills ++ [fill]) row ≤ restingValue account s.fills row := by
  by_cases hresting : isRestingBuy account row = true
  · unfold restingValue
    rw [if_pos hresting, if_pos hresting, filledOf_append]
    by_cases hid : row.clientOrderId = fill.clientOrderId
    · obtain ⟨hquantity, hprice, hpositive⟩ := hlegal hresting hid
      have hvalue := mul_le_mul_of_nonneg_right hprice hquantity.le
      have hnonneg := (mul_pos hpositive hquantity).le
      rw [if_pos hid, if_pos hid.symm]
      constructor
      · intro _
        linarith
      · linarith
    · rw [if_neg hid, if_neg (Ne.symm hid)]
      constructor
      · intro _
        linarith
      · linarith
  · refine ⟨fun h => absurd h hresting, ?_⟩
    unfold restingValue
    rw [if_neg hresting, if_neg hresting]

theorem addFill (h : LimitInvariant account config since s) {fill : Fill} {reply : Reply}
    (hexecution : executionLegal (.addFill fill) reply s)
    (hroom : limitRoom account config since (.addFill fill) reply s) :
    LimitInvariant account config since { s with fills := s.fills ++ [fill] } where
  rows := h.rows.of_eq rfl rfl
  sound row hmem hside htype := by
    obtain ⟨hprice, hfilled⟩ := h.sound row hmem hside htype
    refine ⟨hprice, ?_⟩
    change filledOf (s.fills ++ [fill]) row.clientOrderId ≤ row.quantity
    rw [filledOf_append]
    split
    · rename_i hid
      exact (hexecution row hmem hid.symm).2.2.2.1
    · rwa [add_zero]
  limits := by
    have hlegal : ∀ row ∈ s.orders, isRestingBuy account row = true →
        row.clientOrderId = fill.clientOrderId →
        0 < fill.quantity ∧ fill.price ≤ row.price.getD 0 ∧ 0 < row.price.getD 0 := by
      intro row hmem hresting hid
      simp only [isRestingBuy, Bool.and_eq_true, decide_eq_true_eq] at hresting
      obtain ⟨hquantity, -, -, -, hprice⟩ := hexecution row hmem hid
      exact ⟨hquantity, hprice hresting.1.2 hresting.2, (h.sound row hmem hresting.1.2 hresting.2).1⟩
    have hrow : ∀ row ∈ s.orders, restingValue account (s.fills ++ [fill]) row ≤
        restingValue account s.fills row := fun row hmem =>
      (restingValue_addFill (hlegal row hmem)).2
    have hresting := total_le_total hrow
    have hbuy := h.limits.buyValue
    refine ⟨h.limits.activeOrders, ?_⟩
    unfold buyExposure at hbuy ⊢
    rw [sumBuyValueSince_addFill]
    split
    · rename_i hcounts
      obtain ⟨row, hmem, hid, hcovers⟩ | hheadroom := hroom hcounts
      · have hmoved := total_add_le_total hrow hmem ((restingValue_addFill (hlegal row hmem)).1 hcovers)
        rw [if_pos hid] at hmoved
        change _ + total (restingValue account (s.fills ++ [fill])) s.orders ≤ _
        linarith
      · unfold buyExposure at hheadroom
        change _ + total (restingValue account (s.fills ++ [fill])) s.orders ≤ _
        linarith
    · change _ + total (restingValue account (s.fills ++ [fill])) s.orders ≤ _
      linarith

theorem ofStep {point : Point} {reply : Reply} (hok : limitCondition account config since point reply s)
    (hstep : Step account config point s s') (h : LimitInvariant account config since s) :
    LimitInvariant account config since s' := by
  obtain ⟨⟨hlegal, hexecution⟩, hcopies, hroom⟩ := hok
  have hrows := RowsSettled.ofStep hlegal hstep h.rows
  unfold Step at hstep
  split at hstep
  · obtain rfl | ⟨hplaced, -, rfl⟩ := hstep
    · exact h
    · exact h.insert hplaced hrows hlegal hroom
  · obtain ⟨-, -, rfl⟩ := hstep
    exact h.of_eq hrows rfl rfl
  · obtain rfl | ⟨-, -, rfl⟩ := hstep
    · exact h
    · exact h.ofPersist hrows fun row hmem hid _ => hcopies row hmem hid
  · obtain rfl | ⟨-, rfl⟩ := hstep
    · exact h
    · exact h.addFill hexecution hroom
  · obtain ⟨-, rfl⟩ | ⟨order, -, ⟨-, rfl⟩ | ⟨-, rfl⟩⟩ := hstep
    · exact h
    · exact h.of_eq hrows rfl rfl
    · exact h.of_eq hrows rfl rfl
  · obtain ⟨position, rfl⟩ := hstep
    exact h.of_eq hrows (orders_upsertLocal position s) (fills_upsertLocal position s)
  · exact ofRoutine hstep h

/-- Nothing is bought and nothing rests in an empty store. -/
theorem empty (account : AccountId) (config : RiskConfig) (since : ℤ)
    (h : 0 ≤ config.maxDailyBuyValue) :
    LimitInvariant account config since { ready := true } where
  rows := ⟨⟨by simp, by simp⟩, by simp, by simp⟩
  sound := by simp [BuysSound]
  limits := ⟨by simp [activeRows], by simpa [buyExposure, sumBuyValueSince] using h⟩

end LimitInvariant

/-- The order count and the daily buy value are within their limits in every state reached by
any interleaving of concurrent orders, cancels and events that leaves room for each inserted
order and covers each execution. -/
theorem withinLimits_of_limitCondition {events : List BrokerEvent} {calls : List Call}
    (hs : LimitInvariant account config since s) {schedule : List (ℕ × Reply)}
    (hok : (orderManager account config events calls s).Admits
      (limitCondition account config since) schedule) : WithinLimits account config since
      ((orderManager account config events calls s).exec schedule).shared := by
  have hinv : LimitInvariant account config since
      ((orderManager account config events calls s).exec schedule).shared := by
    refine Pool.exec_preserves _ schedule (fun t ht ht' => ?_) hs
    exact ht'.ofStep (hok t ht) (orderManager_steps events calls s schedule t ht)
  exact hinv.limits

section Examples

/-- Limits that leave room for one order of the example size. -/
def tightConfig : RiskConfig := { maxDailyBuyValue := 200, maxActiveOrders := 1 }

/-- One order at the limit is placed and executed in two parts. -/
theorem partialFills_withinLimits :
    WithinLimits "acc" tightConfig 0
      ((orderManager "acc" tightConfig [acceptedEvent, filledEvent (buyFill "f1" 40),
        filledEvent (buyFill "f2" 60)] [.place buyRequest "o1"] { ready := true }).exec
        partialFillsSchedule).shared :=
  withinLimits_of_limitCondition (LimitInvariant.empty _ _ _ (by decide +kernel))
    (by decide +kernel)

/-- Two orders, each within the limits, are placed at the same time. -/
def placeRace : TaskPool :=
  orderManager "acc" tightConfig [] [.place buyRequest "o1", .place buyRequest "o2"]
    { ready := true }

/-- Both pass the risk check before either is stored. -/
def placeRaceSchedule : List (ℕ × Reply) :=
  turnsOf 1 4 {} ++ turnsOf 2 4 {} ++ turnsOf 1 5 {} ++ turnsOf 2 5 {}

/-- Two orders are active where one is allowed, and twice the daily value rests. -/
theorem placeRace_exceeds_limits :
    LimitInvariant "acc" tightConfig 0 placeRace.shared ∧
      placeRace.Admits brokerLegal placeRaceSchedule ∧
      (∀ task ∈ (placeRace.exec placeRaceSchedule).tasks, task.result? = some (.ok ())) ∧
      (activeRows (placeRace.exec placeRaceSchedule).shared "acc").length = 2 ∧
      buyExposure (placeRace.exec placeRaceSchedule).shared "acc" 0 = 400 ∧
      ¬WithinLimits "acc" tightConfig 0 (placeRace.exec placeRaceSchedule).shared := by
  have hcount : (activeRows (placeRace.exec placeRaceSchedule).shared "acc").length = 2 := by
    decide +kernel
  refine ⟨LimitInvariant.empty _ _ _ (by decide +kernel), by decide +kernel, by decide +kernel,
    hcount, by decide +kernel, fun h => ?_⟩
  have hlimit := h.activeOrders
  rw [hcount] at hlimit
  exact absurd hlimit (by decide)

end Examples

end LimitRuns

end FinDashboard.Risk
