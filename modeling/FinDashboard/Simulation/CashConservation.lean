import FinDashboard.Simulation.HeldRuns

/-!
# The cash of a securities session

Cash moves between the free and the frozen bucket with every reservation. Their sum changes
with fills only: what a purchase costs leaves it, what a sale yields enters it.
-/

namespace FinDashboard.Simulation

open Ledger

variable {money : ℚ → ℚ} {st st' : State} {order : Order} {e : Execution}

/-- What a fill costs its buyer. -/
def Fill.cost (fill : Fill) : ℚ := fill.quantity * fill.price + fill.commission + fill.tax

/-- What a fill yields its seller. -/
def Fill.proceeds (fill : Fill) : ℚ := fill.quantity * fill.price - fill.commission - fill.tax

/-- What a fill moves into the account. -/
def Fill.cashFlow (fill : Fill) : ℚ := if fill.side = .buy then -fill.cost else fill.proceeds

/-- The flows of the purchases and of the sales. -/
theorem total_cashFlow (fills : List Fill) : total Fill.cashFlow fills =
    total Fill.proceeds (fills.filter fun fill => fill.side = .sell) -
      total Fill.cost (fills.filter fun fill => fill.side = .buy) := by
  induction fills with
  | nil => simp
  | cons fill rest ih =>
    rw [total_cons, ih, Fill.cashFlow]
    cases hside : fill.side with
    | buy =>
      simp [hside]
      ring
    | sell =>
      simp [hside]
      ring

/-- The account holds what the fills have left of its initial cash. -/
def CashBooked (st : State) : Prop :=
  st.account.cash + st.account.frozenCash = st.account.initialCash + total Fill.cashFlow st.fills

/-- Purchases open and sales close. -/
def Order.LongSided (order : Order) : Prop :=
  order.side = match order.positionEffect with
    | .open => .buy
    | .close => .sell

theorem Order.SameTerms.longSided {order order' : Order} (h : order.SameTerms order')
    (hsided : order.LongSided) : order'.LongSided := by
  unfold Order.LongSided at hsided ⊢
  rw [h.side, h.positionEffect]
  exact hsided

/-- The books of a securities session. -/
structure SecuritiesBooks (st : State) : Prop where
  held : Held (fun _ => false) (fun _ => true) st
  sided : ∀ order ∈ st.orders, order.LongSided
  cash : CashBooked st

/-- A table in which one row was rewritten with its terms. -/
theorem sided_set {order' : Order} (h : ∀ order ∈ st.orders, order.LongSided)
    (hlisted : st.Listed order) (hterms : order.SameTerms order') :
    ∀ other ∈ st.orders.set order.orderId order', other.LongSided := by
  intro other hother
  obtain hold | rfl := List.mem_or_eq_of_mem_set hother
  · exact h other hold
  · exact hterms.longSided (h order hlisted.mem)

theorem SecuritiesBooks.closeOrder (h : SecuritiesBooks st) (hlisted : st.Listed order)
    (hactive : order.isActive = true) {status : OrderStatus}
    (hends : status = .rejected ∨ status = .cancelled) (reason : Reason) :
    SecuritiesBooks (closeOrder st order status reason) := by
  refine ⟨h.held.closeOrder hlisted hactive hends reason, ?_, ?_⟩
  · rw [closeOrder_orders]
    exact sided_set h.sided hlisted (endedOrder_terms st order status reason)
  · unfold CashBooked
    rw [closeOrder_account, closeOrder_fills, releaseCash_sum, releaseCash_initialCash]
    exact h.cash

theorem turnover_of_security (hfits : e.Fits order) (hsecurity : order.instrumentType ≠ .futures) :
    e.turnover = e.quantity * e.fillPrice := by
  unfold Execution.turnover
  rw [multiplier_of_resolve (mapError_eq_ok.mp hfits.rule) hsecurity, mul_one]

theorem booked_cash (hfits : e.Fits order) (hsecurity : order.instrumentType ≠ .futures)
    (hsided : order.LongSided) {rows : FillRows}
    (hbook : bookRows money (fillRows st order e) e = (rows, none)) :
    rows.account.cash + rows.account.frozenCash =
        st.account.cash + st.account.frozenCash + (fillRow money order e).cashFlow ∧
      rows.account.initialCash = st.account.initialCash := by
  have hrule : e.rule.isFutures = false := by
    rw [isFutures_of_resolveRule hfits.rule]
    simp [hsecurity]
  have hturnover := turnover_of_security hfits hsecurity
  unfold Order.LongSided at hsided
  unfold bookRows at hbook
  cases heffect : order.positionEffect with
  | «open» =>
    simp only [fillRows_order, heffect] at hbook hsided
    rw [(openFill_booked hbook).2]
    simp only [openedRows, fillRows, Execution.needed, hrule, Fill.cashFlow, Fill.cost, fillRow, hsided,
      hturnover, if_false, if_true, Bool.false_eq_true]
    constructor
    · ring
    · trivial
  | close =>
    simp only [fillRows_order, heffect] at hbook hsided
    obtain ⟨sold, -, hrows⟩ := closeFill_booked hbook
    rw [hrows]
    simp only [closedRows, closedAccount, fillRows, hrule, Fill.cashFlow, Fill.proceeds, fillRow, hsided,
      hturnover, if_false, Bool.false_eq_true, reduceCtorEq]
    constructor
    · ring
    · trivial

theorem SecuritiesBooks.applyFill (h : SecuritiesBooks st) (hlisted : st.Listed order)
    (hactive : order.isActive = true) (hfits : e.Fits order) :
    SecuritiesBooks (applyFill money st order e).state := by
  have hsecurity : order.instrumentType ≠ .futures := by
    have hclass := h.held.futures_iff order hlisted.mem
    simpa using hclass
  have hensured : (ensurePosition st order e.fillPrice).1.fills = st.fills := by
    rw [ensurePosition_eq]
  refine ⟨h.held.applyFill hlisted hactive hfits fun _ _ => rfl, ?_, ?_⟩
  · rw [applyFill_orders st order e hlisted]
    exact sided_set h.sided hlisted (applyFill_terms st order e)
  · have hcash := h.cash
    have hstep : FillStep money st order e _ := applyFill_step st order e
    generalize Simulation.applyFill money st order e = result at hstep ⊢
    unfold CashBooked at hcash ⊢
    cases hstep with
    | known existing => exact hcash
    | failed hbook =>
      rw [(h.held.failed_rows hlisted hactive hfits (fun _ _ => rfl) hbook).2]
      simp only [State.withRows, State.setOrder, State.setPosition, hensured]
      exact hcash
    | @booked rows hbook =>
      obtain ⟨hflow, hinitial⟩ := booked_cash hfits hsecurity (h.sided order hlisted.mem) hbook
      rw [settleFill_eq]
      simp only [revalueAccount, hensured]
      rw [settledAccount_sum, settledAccount_initialCash, hflow, hinitial, total_append, total_cons,
        total_nil, hcash]
      ring

theorem SecuritiesBooks.markedState (h : SecuritiesBooks st) {position : Position} {bar : Bar}
    {rule : SimulationAssetRule} (hmem : position ∈ st.positions)
    (hrule : position.resolveRule = .ok rule) :
    SecuritiesBooks (markedState money st position bar rule) := by
  have hsecurity : rule.isFutures = false := by
    have hclass := (h.held.backed position hmem).futures_iff
    rw [Position.isFutures_of_resolveRule hrule]
    simpa using hclass
  refine ⟨h.held.markedState hmem (fun _ _ => rfl) rule, ?_, ?_⟩
  · simp only [Simulation.markedState, hsecurity, if_false, Bool.false_eq_true, State.setPosition]
    exact h.sided
  · simp only [Simulation.markedState, hsecurity, if_false, Bool.false_eq_true, State.setPosition]
    exact h.cash

theorem SecuritiesBooks.placement {decisionId : String} {target : SimulationTarget}
    {rule : SimulationAssetRule} {placed : Option Order} (h : SecuritiesBooks st)
    (hsecurity : target.instrumentType ≠ .futures)
    (hplaced : Placement money st decisionId target rule st' placed) : SecuritiesBooks st' := by
  have hlong : target.positionSide = .long := by
    cases hside : target.positionSide with
    | long => rfl
    | short => exact absurd (target.short_futures hside) hsecurity
  have hsided : ∀ row : Order, row.side = orderSide row.positionSide row.positionEffect →
      row.positionSide = target.positionSide → ∀ other ∈ st.orders ++ [row], other.LongSided := by
    intro row hrow hrowSide other hother
    obtain hold | hnew := List.mem_append.mp hother
    · exact h.sided other hold
    · rw [List.mem_singleton.mp hnew]
      unfold Order.LongSided
      rw [hrow, hrowSide, hlong]
      cases row.positionEffect <;> rfl
  have hcash := h.cash
  unfold CashBooked at hcash
  refine ⟨h.held.placement (by simpa [SimulationTarget.Classified] using hsecurity) hplaced, ?_, ?_⟩
  · cases hplaced with
    | satisfied _ => exact h.sided
    | refused effect quantity eligibleAfter reason message => exact hsided _ rfl rfl
    | opened hterms hdemand heffect hadmits hshort => exact hsided _ rfl rfl
    | closed hterms heffect hroom hposition havailable => exact hsided _ rfl rfl
  · cases hplaced with
    | satisfied _ => exact hcash
    | refused effect quantity eligibleAfter reason message => exact hcash
    | opened hterms hdemand heffect hadmits hshort =>
      simp only [CashBooked, State.addOrder, State.cashReserved]
      linarith
    | closed hterms heffect hroom hposition havailable => exact hcash

theorem SecuritiesBooks.recoverSession (h : SecuritiesBooks st) (hsound : Sound st) :
    SecuritiesBooks (recoverSession money st).1 := by
  have hcash := h.cash
  unfold CashBooked at hcash
  refine ⟨h.held.recoverSession hsound fun _ _ => rfl, ?_, ?_⟩
  · unfold Simulation.recoverSession
    simp only
    split_ifs <;> exact h.sided
  · unfold CashBooked Simulation.recoverSession
    simp only
    by_cases hshort : st.account.cash + st.account.frozenCash <
        total Order.reservedCash st.activeOrders
    · rw [if_pos hshort]
      exact hcash
    · rw [if_neg hshort]
      simp only [revalueAccount]
      linarith

theorem SecuritiesBooks.of_same (h : SecuritiesBooks st) (hsame : SameBooks st st') :
    SecuritiesBooks st' := by
  refine ⟨h.held.of_same hsame, ?_, ?_⟩
  · rw [hsame.orders]
    exact h.sided
  · unfold CashBooked
    rw [hsame.cash, hsame.frozenCash, hsame.initialCash, hsame.fills]
    exact h.cash

theorem SecuritiesBooks.kept (money : ℚ → ℚ) :
    Kept money (fun _ target => target.instrumentType ≠ .futures) (fun _ => True) SecuritiesBooks where
  close := fun _ _ _ reason _ h hlisted hactive hends => h.closeOrder hlisted hactive hends reason
  fill := fun _ _ _ _ _ _ h hlisted hactive hfits _ => h.applyFill hlisted hactive hfits
  mark := fun _ _ _ _ _ _ h hmem _ hrule => h.markedState hmem hrule
  books := fun _ _ hsame h => h.of_same hsame
  place := by
    intro st decisionId now target placed _ h hsecurity hplaced
    obtain ⟨rule, -, hplacement⟩ := targetToOrder_placement hplaced
    exact h.placement hsecurity hplacement

theorem SecuritiesBooks.opened (h : Opened money st) : SecuritiesBooks st := by
  have hheld : Held (fun _ => false) (fun _ => true) st := Held.opened h
  cases h with
  | @mk initialCash account haccount validationRunId config signalTraces =>
    refine ⟨hheld, ?_, ?_⟩
    · intro order hmem
      cases hmem
    · unfold createAccount at haccount
      split_ifs at haccount
      rw [← Except.ok.inj haccount]
      simp [CashBooked, State.opened]

/-- The calls of a session that trades securities. -/
def SecuritiesOnly (_ : State) : Action → Prop
  | .submitDecision decision _ => ∀ target ∈ decision.targets, target.instrumentType ≠ .futures
  | _ => True

theorem targetsMeet_of_forall {allowed : SimulationTarget → Prop} {decisionId : String}
    {now : Timestamp} {targets : List SimulationTarget} (h : ∀ target ∈ targets, allowed target) :
    TargetsMeet money (fun _ => allowed) decisionId now st targets := by
  induction targets generalizing st with
  | nil => trivial
  | cons target rest ih =>
    exact ⟨h target List.mem_cons_self, fun _ _ => ih fun other hother =>
      h other (List.mem_cons_of_mem _ hother)⟩

/-- In every state of a securities session the free and the frozen cash are the initial cash
less what the purchases cost and plus what the sales yielded. -/
theorem securities_cash_conserved (money : ℚ → ℚ) {st : State} (h : Reachable money SecuritiesOnly st) :
    st.account.cash + st.account.frozenCash = st.account.initialCash -
      total (fun fill => fill.quantity * fill.price + fill.commission + fill.tax)
        (st.fills.filter fun fill => fill.side = .buy) +
      total (fun fill => fill.quantity * fill.price - fill.commission - fill.tax)
        (st.fills.filter fun fill => fill.side = .sell) := by
  have hbooks : Sound st ∧ SecuritiesBooks st := by
    induction h with
    | opened hnew => exact ⟨Sound.opened hnew, SecuritiesBooks.opened hnew⟩
    | @call st action _ hallowed ih =>
      apply (SecuritiesBooks.kept money).step ih.1 ih.2
      · cases action with
        | submitDecision decision now => exact targetsMeet_of_forall hallowed
        | _ => trivial
      · exact fun _ => ih.2.recoverSession ih.1
  have hcash := hbooks.2.cash
  rw [hcash, total_cashFlow]
  unfold Fill.cost Fill.proceeds
  ring

theorem ten_pos : (0 : ℚ) < 10 := by norm_num

theorem zero_nonneg : (0 : ℚ) ≤ 0 := le_refl 0

theorem one_nonneg : (0 : ℚ) ≤ 1 := by norm_num

theorem hundred_nonneg : (0 : ℚ) ≤ 100 := by norm_num

theorem thousand_nonneg : (0 : ℚ) ≤ 1000 := by norm_num

theorem market_not_limited : OrderType.market = .limit → ∃ price, (none : Option ℚ) = some price ∧
    0 < price := by
  simp

theorem market_without_price : OrderType.market = .market → (none : Option ℚ) = none := fun _ => rfl

def flatBar (sourceEventId symbol : String) (market : Market) (timestamp : Timestamp) (price : ℚ)
    (hprice : 0 < price) : SimulationBarEvent where
  sourceEventId
  bar := { symbol := ⟨symbol, market⟩, timestamp, openPrice := price, high := price, low := price,
           close := price, volume := 10000 }
  checksum := sourceEventId
  low_pos := hprice
  low_le_open := le_refl _
  low_le_close := le_refl _
  low_le_high := le_refl _
  open_le_high := le_refl _
  close_le_high := le_refl _

def securityTarget (symbol assetRuleKey : String) (instrumentType : InstrumentType)
    (targetQuantity : ℚ) (hquantity : 0 ≤ targetQuantity) : SimulationTarget where
  symbol
  market := .aShare
  instrumentType
  assetRuleKey
  targetQuantity
  signalTraceId := "T1"
  targetQuantity_nonneg := hquantity
  limitPrice_pos := market_not_limited
  limitPrice_none := market_without_price

def singleDecision (decisionId : String) (target : SimulationTarget) : SimulationDecision where
  decisionId
  sourceRunId := "RR-1"
  sourceDecisionId := "D1"
  targets := [target]
  checksum := decisionId

theorem sampleSlippage_nonneg : (0 : ℚ) ≤ 5 := by norm_num

theorem sampleExposure_pos : (0 : ℚ) < 1 := by norm_num

theorem sampleActiveOrders_pos : 1 ≤ 20 := by norm_num

theorem sampleActiveOrders_le : 20 ≤ 10000 := by norm_num

def sampleConfig : SimulationConfig where
  matching := { slippageBps_nonneg := sampleSlippage_nonneg }
  risk := { maxGrossExposure_pos := sampleExposure_pos
            maxActiveOrders_pos := sampleActiveOrders_pos
            maxActiveOrders_le := sampleActiveOrders_le }

/-- A new session over the signal of these targets, with a million of cash. -/
def sampleSession (money : ℚ → ℚ) : State :=
  State.opened { initialCash := money 1000000, cash := money 1000000, equity := money 1000000 } "RR-1"
    sampleConfig [⟨"RR-1", "D1", "T1"⟩]

theorem sampleSession_opened (money : ℚ → ℚ) : Opened money (sampleSession money) :=
  by
  have haccount : createAccount money 1000000 = .ok _ := if_neg (by norm_num)
  exact .mk haccount _ _ _

theorem secondPrice_pos : (0 : ℚ) < 10.5 := by norm_num

/-- Buying on one day and selling a part of it once the purchase has matured. -/
def tradingRun : List Action :=
  [.transitionSession .running,
   .processBar (flatBar "E1" "600000" .aShare ⟨1, 0, 0⟩ 10 ten_pos),
   .submitDecision (singleDecision "D-1" (securityTarget "600000" "a_share_stock" .stock 1000
     thousand_nonneg)) ⟨1, 0, 0⟩,
   .processBar (flatBar "E2" "600000" .aShare ⟨2, 0, 0⟩ 10.5 secondPrice_pos),
   .processBar (flatBar "E3" "600000" .aShare ⟨3, 0, 0⟩ 10.8 (by norm_num)),
   .submitDecision (singleDecision "D-2" (securityTarget "600000" "a_share_stock" .stock 400
     (by norm_num))) ⟨3, 0, 0⟩,
   .processBar (flatBar "E4" "600000" .aShare ⟨4, 0, 0⟩ 10.6 (by norm_num))]

theorem securities_cash_conserved_trading :
    ((runCalls id (sampleSession id) tradingRun).fills.map Fill.side = [.buy, .sell]) ∧
      (runCalls id (sampleSession id) tradingRun).account.cash +
        (runCalls id (sampleSession id) tradingRun).account.frozenCash =
      (runCalls id (sampleSession id) tradingRun).account.initialCash -
        total (fun fill => fill.quantity * fill.price + fill.commission + fill.tax)
          ((runCalls id (sampleSession id) tradingRun).fills.filter fun fill => fill.side = .buy) +
        total (fun fill => fill.quantity * fill.price - fill.commission - fill.tax)
          ((runCalls id (sampleSession id) tradingRun).fills.filter fun fill => fill.side = .sell) := by
  refine ⟨by decide +kernel, securities_cash_conserved id ?_⟩
  apply (Reachable.opened (sampleSession_opened id)).calls
  simp [Allowed, tradingRun, SecuritiesOnly, singleDecision, securityTarget]

end FinDashboard.Simulation
