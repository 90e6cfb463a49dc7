import FinDashboard.Backtest.BrokerRuns

/-!
# Conservation of the paper ledger

Without short selling the cash is what the fills left of the initial capital, a position is its
lots, and under a T+1 rule a sale takes only what was bought on earlier days and is still held.
-/

namespace FinDashboard.Backtest

open Ledger List
open Simulation (Bar Date matured InMaturityOrder consumeLots)

variable {config : BrokerConfig} {today day : Date} {st st' : State} {state : OrderState}
  {order : Order} {bar : Bar} {e : Execution} {code : String} {fills : List Fill} {fill : Fill}

/-- `commission + tax`. -/
def Fill.fees (fill : Fill) : ℚ := fill.commission + fill.tax

/-- What the purchases cost. -/
def spent (fills : List Fill) : ℚ :=
  total (fun fill => fill.quantity * fill.price + fill.fees) (fills.filter (·.side = .buy))

/-- What the sales brought in. -/
def earned (fills : List Fill) : ℚ :=
  total (fun fill => fill.quantity * fill.price - fill.fees) (fills.filter (·.side = .sell))

def boughtBefore (fills : List Fill) (code : String) (day : Date) : ℚ :=
  total Fill.quantity (fills.filter fun fill =>
    fill.side = .buy ∧ fill.symbol.code = code ∧ fill.filledAt.date < day)

def soldOf (fills : List Fill) (code : String) : ℚ :=
  total Fill.quantity (fills.filter fun fill => fill.side = .sell ∧ fill.symbol.code = code)

/-- The rules of the instruments do not allow short selling. -/
def BrokerConfig.ForbidsShort (config : BrokerConfig) : Prop :=
  ∀ code rule slippageBps, config.resolveRule code = .ok (rule, slippageBps) →
    rule.allowShort = false

/-- The instrument is T+1. -/
def BrokerConfig.EnforcesTPlus1 (config : BrokerConfig) (code : String) : Prop :=
  ∃ rule slippageBps, config.resolveRule code = .ok (rule, slippageBps) ∧
    rule.enforceTPlus1 = true

section Columns

theorem total_append_singleton {α : Type} (weight : α → ℚ) (p : α → Bool) (rows : List α) (row : α) :
    total weight ((rows ++ [row]).filter p) =
      total weight (rows.filter p) + if p row then weight row else 0 := by
  rw [filter_append, total_append, total_filter, total_filter, total_cons, total_nil, add_zero]

theorem boughtBefore_append : boughtBefore (fills ++ [fill]) code day = boughtBefore fills code day +
    if fill.side = .buy ∧ fill.symbol.code = code ∧ fill.filledAt.date < day then fill.quantity
    else 0 := by
  unfold boughtBefore
  rw [total_append_singleton]
  simp

theorem soldOf_append : soldOf (fills ++ [fill]) code = soldOf fills code +
    if fill.side = .sell ∧ fill.symbol.code = code then fill.quantity else 0 := by
  unfold soldOf
  rw [total_append_singleton]
  simp

end Columns

/-- What holds of the ledger on a day, and on every later one until the next fill. -/
structure Balanced (config : BrokerConfig) (day : Date) (st : State) : Prop where
  cash : st.cash = config.initialCapital - spent st.fills + earned st.fills
  booked : ∀ code position, find code st.positions = some position →
    position.total = Ledger.total Simulation.Lot.quantity position.lots
  positive : ∀ code, ∀ lot ∈ lotsOf st.positions code, 0 < lot.quantity
  ordered : ∀ code, config.EnforcesTPlus1 code → InMaturityOrder (lotsOf st.positions code)
  horizon : ∀ code, config.EnforcesTPlus1 code → ∀ lot ∈ lotsOf st.positions code,
    lot.availableOn ≤ day + 1
  matures : ∀ code, config.EnforcesTPlus1 code → ∀ later, day ≤ later →
    matured (lotsOf st.positions code) later = boughtBefore st.fills code later - soldOf st.fills code
  covered : ∀ earlier fill later, st.fills = earlier ++ fill :: later → fill.side = .sell →
    config.EnforcesTPlus1 fill.symbol.code →
    fill.quantity ≤ boughtBefore earlier fill.symbol.code fill.filledAt.date -
      soldOf earlier fill.symbol.code

namespace Balanced

theorem initial (config : BrokerConfig) (day : Date) : Balanced config day (.initial config) where
  cash := by simp [State.initial, spent, earned]
  booked := by
    intro code position hfind
    cases hfind
  positive := by
    intro code lot hlot
    cases hlot
  ordered := fun _ _ => List.Pairwise.nil
  horizon := by
    intro code _ lot hlot
    cases hlot
  matures := by
    intro code _ later _
    simp [State.initial, lotsOf, boughtBefore, soldOf, find]
  covered := by
    intro earlier fill later hfills
    exact absurd hfills.symm (append_ne_nil_of_right_ne_nil _ (cons_ne_nil _ _))

theorem later {day' : Date} (h : Balanced config day st) (hlater : day ≤ day') :
    Balanced config day' st where
  cash := h.cash
  booked := h.booked
  positive := h.positive
  ordered := h.ordered
  horizon := fun code henforced lot hlot =>
    (h.horizon code henforced lot hlot).trans (Nat.succ_le_succ hlater)
  matures := fun code henforced later hday => h.matures code henforced later (hlater.trans hday)
  covered := h.covered

theorem of_books (h : Balanced config day st) (hcash : st'.cash = st.cash)
    (hbooks : SameBooks st.positions st'.positions) (hfills : st'.fills = st.fills) :
    Balanced config day st' := by
  have hlots := hbooks.lotsOf_eq
  constructor
  · rw [hcash, hfills]
    exact h.cash
  · intro code position hfind
    have hbook := hbooks code
    rw [hfind] at hbook
    cases hold : find code st.positions with
    | none =>
      rw [hold] at hbook
      cases hbook
    | some old =>
      rw [hold] at hbook
      obtain ⟨htotal, hlots⟩ := Prod.mk.inj (Option.some.inj hbook)
      rw [htotal, hlots]
      exact h.booked code old hold
  · intro code
    rw [hlots]
    exact h.positive code
  · intro code
    rw [hlots]
    exact h.ordered code
  · intro code
    rw [hlots]
    exact h.horizon code
  · intro code
    rw [hlots, hfills]
    exact h.matures code
  · rw [hfills]
    exact h.covered

theorem booked_trade (h : Balanced config today st) (symbol : Symbol) (rule : AssetRule) {side : Side}
    {quantity price : ℚ} {enforceTPlus1 : Bool} {code : String} {position : InternalPosition}
    (hfind : find code (applyFillToPosition st.positions symbol rule side quantity price today
      enforceTPlus1) = some position) :
    position.total = Ledger.total Simulation.Lot.quantity position.lots := by
  unfold applyFillToPosition at hfind
  simp only [find_assign] at hfind
  split_ifs at hfind with hcode
  · obtain rfl := Option.some.inj hfind
    apply applyFill_total
    cases hheld : find symbol.code st.positions with
    | none => rfl
    | some held => exact h.booked symbol.code held hheld
  · exact h.booked code position hfind

/-- The sales up to a further fill were covered, and so is the fill. -/
theorem covered_append {f : Fill} (h : Balanced config today st)
    (hnew : f.side = .sell → config.EnforcesTPlus1 f.symbol.code →
      f.quantity ≤ boughtBefore st.fills f.symbol.code f.filledAt.date - soldOf st.fills f.symbol.code) :
    ∀ earlier fill later, st.fills ++ [f] = earlier ++ fill :: later → fill.side = .sell →
      config.EnforcesTPlus1 fill.symbol.code →
      fill.quantity ≤ boughtBefore earlier fill.symbol.code fill.filledAt.date -
        soldOf earlier fill.symbol.code := by
  intro earlier fill later hfills
  obtain rfl | ⟨before, last, rfl⟩ := eq_nil_or_concat later
  · obtain ⟨hearlier, hlast⟩ := append_inj' hfills rfl
    obtain rfl := singleton_inj.mp hlast
    rw [← hearlier]
    exact hnew
  · have hsplit : st.fills ++ [f] = (earlier ++ fill :: before) ++ [last] := by
      rw [hfills]
      simp
    exact h.covered earlier fill before (append_inj' hsplit rfl).1

theorem enforces_rule {slippageBps : ℚ} (hrule : config.resolveRule code = .ok (state.rule, slippageBps))
    (henforced : config.EnforcesTPlus1 code) : state.rule.enforceTPlus1 = true := by
  obtain ⟨rule, slippage, hresolve, htrue⟩ := henforced
  have hsame := Except.ok.inj (hrule.symm.trans hresolve)
  rw [(Prod.mk.inj hsame).1]
  exact htrue

theorem buy (h : Balanced config today st) (hside : order.side = .buy) (hquantity : 0 < e.quantity)
    {slippageBps : ℚ} (hrule : config.resolveRule order.symbol.code = .ok (state.rule, slippageBps)) :
    Balanced config today (bookFill today st state order e).1 := by
  have hlots : ∀ code, lotsOf (bookFill today st state order e).1.positions code =
      if order.symbol.code = code then lotsOf st.positions code ++
        [⟨e.quantity, if state.rule.enforceTPlus1 then today + 1 else today⟩]
      else lotsOf st.positions code := by
    intro code
    rw [← lotsOf_bought st.positions order.symbol state.rule code, ← hside]
    rfl
  have hfills : (bookFill today st state order e).1.fills =
      st.fills ++ [fillOf order e st.idCounter today] := rfl
  have hbuy : (fillOf order e st.idCounter today).side = .buy := hside
  have hcash : (bookFill today st state order e).1.cash = st.cash - e.needed := by
    unfold bookFill
    simp only [hside]
    rfl
  -- under a T+1 rule the lot matures on the next day
  have hkept : ∀ code, config.EnforcesTPlus1 code → order.symbol.code = code →
      lotsOf (bookFill today st state order e).1.positions code =
        lotsOf st.positions code ++ [⟨e.quantity, today + 1⟩] := by
    intro code henforced hcode
    rw [← hcode] at henforced
    rw [hlots, if_pos hcode, enforces_rule hrule henforced, if_pos rfl]
  constructor
  · rw [hcash, hfills, h.cash]
    unfold spent earned
    rw [total_append_singleton, total_append_singleton]
    simp only [hbuy, decide_true, if_true, reduceCtorEq, decide_false, Bool.false_eq_true, if_false]
    simp only [fillOf, Fill.fees, Execution.needed, Execution.turnover, Execution.fees]
    ring
  · intro code position
    exact h.booked_trade order.symbol state.rule
  · intro code lot hlot
    rw [hlots] at hlot
    by_cases hcode : order.symbol.code = code
    · rw [if_pos hcode] at hlot
      obtain hold | hnew := mem_append.mp hlot
      · exact h.positive code lot hold
      · rw [mem_singleton.mp hnew]
        exact hquantity
    · rw [if_neg hcode] at hlot
      exact h.positive code lot hlot
  · intro code henforced
    by_cases hcode : order.symbol.code = code
    · rw [hkept code henforced hcode]
      refine pairwise_append.mpr ⟨h.ordered code henforced, pairwise_singleton _ _, ?_⟩
      intro lot hlot new hnew
      rw [mem_singleton.mp hnew]
      exact h.horizon code henforced lot hlot
    · rw [hlots, if_neg hcode]
      exact h.ordered code henforced
  · intro code henforced lot hlot
    by_cases hcode : order.symbol.code = code
    · rw [hkept code henforced hcode] at hlot
      obtain hold | hnew := mem_append.mp hlot
      · exact h.horizon code henforced lot hold
      · rw [mem_singleton.mp hnew]
    · rw [hlots, if_neg hcode] at hlot
      exact h.horizon code henforced lot hlot
  · intro code henforced later hlater
    have hbought : boughtBefore (bookFill today st state order e).1.fills code later =
        boughtBefore st.fills code later +
          if order.symbol.code = code ∧ today < later then e.quantity else 0 := by
      rw [hfills, boughtBefore_append]
      simp [hside, fillOf, marketClose]
    have hsold : soldOf (bookFill today st state order e).1.fills code = soldOf st.fills code := by
      rw [hfills, soldOf_append]
      simp [hbuy]
    rw [hbought, hsold]
    by_cases hcode : order.symbol.code = code
    · rw [hkept code henforced hcode, Simulation.matured_append, h.matures code henforced later hlater]
      simp only [hcode, true_and, Simulation.matured_cons, Simulation.matured_nil, add_zero]
      by_cases hnext : today < later
      · rw [if_pos hnext, if_pos (Nat.succ_le_of_lt hnext)]
        ring
      · rw [if_neg hnext, if_neg fun hle => hnext (Nat.lt_of_succ_le hle)]
        ring
    · rw [hlots, if_neg hcode, h.matures code henforced later hlater]
      simp [hcode]
  · rw [hfills]
    apply h.covered_append
    rw [hbuy]
    intro hsell
    cases hsell

theorem sell (h : Balanced config today st) (hside : order.side = .sell) (hquantity : 0 < e.quantity)
    (havailable : e.quantity ≤ matured (lotsOf st.positions order.symbol.code) today) :
    Balanced config today (bookFill today st state order e).1 := by
  have hlots : ∀ code, lotsOf (bookFill today st state order e).1.positions code =
      if order.symbol.code = code then (consumeLots (lotsOf st.positions code) e.quantity).1
      else lotsOf st.positions code := by
    intro code
    rw [← lotsOf_sold st.positions order.symbol state.rule code (h.positive _) hquantity.le, ← hside]
    rfl
  have hfills : (bookFill today st state order e).1.fills =
      st.fills ++ [fillOf order e st.idCounter today] := rfl
  have hsell : (fillOf order e st.idCounter today).side = .sell := hside
  have hcash : (bookFill today st state order e).1.cash = st.cash + e.received := by
    unfold bookFill
    simp only [hside]
    rfl
  constructor
  · rw [hcash, hfills, h.cash]
    unfold spent earned
    rw [total_append_singleton, total_append_singleton]
    simp only [hsell, decide_true, if_true, reduceCtorEq, decide_false, Bool.false_eq_true, if_false]
    simp only [fillOf, Fill.fees, Execution.received, Execution.turnover, Execution.fees]
    ring
  · intro code position
    exact h.booked_trade order.symbol state.rule
  · intro code
    rw [hlots]
    by_cases hcode : order.symbol.code = code
    · rw [if_pos hcode]
      exact Simulation.consumeLots_pos (h.positive code)
    · rw [if_neg hcode]
      exact h.positive code
  · intro code henforced
    rw [hlots]
    by_cases hcode : order.symbol.code = code
    · rw [if_pos hcode]
      exact Simulation.consumeLots_inMaturityOrder (h.ordered code henforced)
    · rw [if_neg hcode]
      exact h.ordered code henforced
  · intro code henforced lot hlot
    rw [hlots] at hlot
    by_cases hcode : order.symbol.code = code
    · rw [if_pos hcode] at hlot
      obtain ⟨old, hold, hsame⟩ := Simulation.mem_consumeLots hlot
      rw [← hsame]
      exact h.horizon code henforced old hold
    · rw [if_neg hcode] at hlot
      exact h.horizon code henforced lot hlot
  · intro code henforced later hlater
    have hbought : boughtBefore (bookFill today st state order e).1.fills code later =
        boughtBefore st.fills code later := by
      rw [hfills, boughtBefore_append]
      simp [hsell]
    have hsold : soldOf (bookFill today st state order e).1.fills code = soldOf st.fills code +
        if order.symbol.code = code then e.quantity else 0 := by
      rw [hfills, soldOf_append]
      simp [hside, fillOf]
    rw [hlots, hbought, hsold]
    by_cases hcode : order.symbol.code = code
    · rw [hcode] at havailable
      rw [if_pos hcode, if_pos hcode, matured_consumeLots (h.positive code)
        (h.ordered code henforced) hquantity.le havailable hlater, h.matures code henforced later hlater]
      ring
    · rw [if_neg hcode, if_neg hcode, add_zero]
      exact h.matures code henforced later hlater
  · rw [hfills]
    apply h.covered_append
    intro _ henforced
    have hmatures := h.matures order.symbol.code henforced today (le_refl _)
    rw [hmatures] at havailable
    exact havailable

theorem tried {result : State × OrderState} (hshort : config.ForbidsShort)
    (h : Balanced config today st) (hpended : Pended config order state)
    (htried : Tried today st state order result) : Balanced config today result.1 := by
  obtain ⟨-, slippageBps, hrule⟩ := hpended
  cases htried with
  | waits hbooks => exact h.of_books rfl hbooks rfl
  | rejects hbooks => exact h.of_books rfl hbooks rfl
  | @trades positions hbooks e hquantity hsale =>
    have hrefreshed : Balanced config today { st with positions } := h.of_books rfl hbooks rfl
    cases hside : order.side with
    | buy => exact hrefreshed.buy hside hquantity hrule
    | sell =>
      apply hrefreshed.sell hside hquantity
      have hmatured := hsale hside (hshort _ _ _ hrule)
      rw [← hbooks.lotsOf_eq] at hmatured
      exact hmatured

end Balanced

theorem run_balanced (hshort : config.ForbidsShort) {actions : List Action} (h : Chronological actions)
    (hday : ∀ today, (run config actions).currentDate = some today → today ≤ day) :
    Balanced config day (run config actions) := by
  induction actions using reverseRecOn generalizing day with
  | nil => exact .initial config day
  | append_singleton actions action ih =>
    have hwait := run_waiting config actions
    rw [run_append] at hday ⊢
    cases action with
    | onNewBar bar =>
      have hbalanced := ih h.of_append fun today htoday => h.le_date htoday
      have hadvanced : Balanced config bar.timestamp.date ((run config actions).advance bar) :=
        hbalanced.of_books rfl (.refreshPositions _ _) rfl
      have hwaiting : Waiting (Pended config) ((run config actions).advance bar) :=
        hwait.of_sublist (List.Sublist.refl (run config actions).pending) fun _ _ => rfl
      have hrule : TurnRule config bar.timestamp.date bar (Balanced config bar.timestamp.date)
          (Pended config) (Pended config) := by
        refine ⟨fun _ _ hpended => hpended, ?_⟩
        intro st state order result hP hpended hlisted _ htried
        exact ⟨hP.tried hshort hpended htried,
          fun order' horder' hopen => htried.pended hlisted hpended horder' hopen⟩
      have hmatched := (matchPendingOrders_rule hrule
        (fun _ _ _ hP => hP.of_books rfl (.refl _) rfl) hadvanced hwaiting).1
      apply hmatched.later
      apply hday
      exact step_currentDate hwait (.onNewBar bar)
    | submitOrder clientOrderId symbol side quantity orderType price =>
      have hplaced := placeOrder_placed config (run config actions)
        { clientOrderId, symbol, side, orderType, quantity, price }
      have hbalanced :=
        ih h.of_append fun today htoday => hday today (hplaced.currentDate_eq.trans htoday)
      obtain ⟨hcash, hpositions, hfills⟩ := hplaced.ledger_eq
      exact hbalanced.of_books hcash (hpositions ▸ .refl _) hfills
    | cancelOrder clientOrderId =>
      have hcancelled := cancelOrder_cancelled hwait clientOrderId
      have hbalanced :=
        ih h.of_append fun today htoday => hday today (hcancelled.currentDate_eq.trans htoday)
      obtain ⟨hcash, hpositions, hfills⟩ := hcancelled.ledger_eq
      exact hbalanced.of_books hcash (hpositions ▸ .refl _) hfills

/-- The paper ledger adds up. -/
structure LedgerConserved (config : BrokerConfig) (st : State) : Prop where
  cash : st.cash = config.initialCapital - spent st.fills + earned st.fills
  lots : ∀ code position, find code st.positions = some position →
    position.total = Ledger.total Simulation.Lot.quantity position.lots ∧ 0 ≤ position.total
  sales : ∀ earlier fill later, st.fills = earlier ++ fill :: later → fill.side = .sell →
    config.EnforcesTPlus1 fill.symbol.code →
    fill.quantity ≤ boughtBefore earlier fill.symbol.code fill.filledAt.date -
      soldOf earlier fill.symbol.code

/-- Without short selling the ledger adds up in every state of every chronological run. -/
theorem paper_ledger_conserved (config : BrokerConfig) (hshort : config.ForbidsShort)
    (actions : List Action) (h : Chronological actions) :
    LedgerConserved config (run config actions) := by
  obtain ⟨day, hday⟩ : ∃ day, ∀ today, (run config actions).currentDate = some today →
      today ≤ day := by
    cases hdate : (run config actions).currentDate with
    | none =>
      refine ⟨0, fun today htoday => ?_⟩
      cases htoday
    | some today => exact ⟨today, fun other hother => (Option.some.inj hother).ge⟩
  have hbalanced := run_balanced hshort h hday
  refine ⟨hbalanced.cash, ?_, hbalanced.covered⟩
  intro code position hfind
  have htotal := hbalanced.booked code position hfind
  refine ⟨htotal, ?_⟩
  have hlots : lotsOf (run config actions).positions code = position.lots := by
    unfold lotsOf
    rw [hfind]
    rfl
  rw [htotal]
  apply total_nonneg
  intro lot hlot
  rw [← hlots] at hlot
  exact (hbalanced.positive code lot hlot).le

/-- A table without short selling, and the constructor argument where the table is the default. -/
theorem forbidsShort_of_table
    (htable : ∀ entry ∈ config.assetRules.getD defaultTable, entry.2.2.allowShort = false)
    (hlegacy : config.assetRules = none → config.allowShort = false) : config.ForbidsShort := by
  intro code rule slippageBps hresolve
  unfold BrokerConfig.resolveRule at hresolve
  simp only at hresolve
  cases hrules : resolveRuleFromOverrides (config.assetRules.getD defaultTable)
      (config.resolver code).1 (config.resolver code).2 config.commissionRate config.commissionMin
      config.stampTaxRate config.slippageBps with
  | ok found =>
    rw [hrules] at hresolve
    have hfound := Except.ok.inj hresolve
    rw [hfound] at hrules
    obtain ⟨entry, hentry, hsame⟩ := mem_of_resolveRuleFromOverrides hrules
    rw [hsame]
    exact htable entry hentry
  | error error =>
    rw [hrules] at hresolve
    cases error with
    | value => cases hresolve
    | resolution market instrumentType =>
      simp only at hresolve
      split_ifs at hresolve with hsome
      have hnone := Option.not_isSome_iff_eq_none.mp hsome
      rw [← hlegacy hnone]
      cases hrule : legacyRule config with
      | error error =>
        rw [hrule] at hresolve
        cases hresolve
      | ok legacy =>
        rw [hrule] at hresolve
        have hsame := (Prod.mk.inj (Except.ok.inj hresolve)).1
        rw [← hsame]
        exact allowShort_of_legacyRule hrule

/-- A lot is bought on the second day and sold on the third. -/
def roundTrip : List Action :=
  [.onNewBar (shareBar 1), .submitOrder "1" ⟨"600000", .aShare⟩ .buy 100 .market none,
   .onNewBar (shareBar 2), .submitOrder "2" ⟨"600000", .aShare⟩ .sell 100 .market none,
   .onNewBar (shareBar 3)]

theorem paper_ledger_conserved_round_trip :
    (run { resolver := defaultResolver } roundTrip).fills.length = 2 ∧
      LedgerConserved { resolver := defaultResolver }
        (run { resolver := defaultResolver } roundTrip) := by
  refine ⟨by decide +kernel, paper_ledger_conserved _ ?_ roundTrip (by decide +kernel)⟩
  apply forbidsShort_of_table
  · decide +kernel
  · exact fun _ => rfl

end FinDashboard.Backtest
