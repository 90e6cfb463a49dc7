import FinDashboard.Decimal.Quantize
import FinDashboard.Simulation.CashConservation

/-!
# Frozen cash and reservations

An opening order freezes the cash it may need. The account is charged the exact amount, the
order row keeps the amount rounded to eight digits; where the two agree, the frozen cash of
the account is the sum of the reservations of the active orders over the whole run.
-/

namespace FinDashboard.Simulation

open Ledger Decimal

variable {st st' : State} {order order' : Order} {e : Execution}

/-- The amounts of the service: eight digits. -/
abbrev moneyQuant : ℚ → ℚ := quantize 8

/-- A reservation is an amount of money, and only open orders have one. -/
structure Order.CashReserved (order : Order) : Prop where
  nonneg : 0 ≤ order.reservedCash
  onGrid : OnGrid 8 order.reservedCash
  ended : order.isActive = false → order.reservedCash = 0

/-- The account has frozen what the orders have reserved. -/
structure FrozenBooks (st : State) : Prop where
  reserved : ∀ order ∈ st.orders, order.CashReserved
  frozen : st.account.frozenCash = total Order.reservedCash st.orders

namespace FrozenBooks

theorem of_same (h : FrozenBooks st) (hsame : SameBooks st st') : FrozenBooks st' := by
  constructor
  · rw [hsame.orders]
    exact h.reserved
  · rw [hsame.frozenCash, hsame.orders]
    exact h.frozen

theorem reserved_le (h : FrozenBooks st) (hmem : order ∈ st.orders) :
    order.reservedCash ≤ st.account.frozenCash := by
  rw [h.frozen]
  exact le_total_of_mem (fun other hother => (h.reserved other hother).nonneg) hmem

theorem total_active (h : FrozenBooks st) :
    total Order.reservedCash (st.orders.filter Order.isActive) = total Order.reservedCash st.orders := by
  rw [total_filter]
  apply total_congr
  intro order hmem
  by_cases hlive : order.isActive = true
  · rw [if_pos hlive]
  · rw [if_neg hlive, (h.reserved order hmem).ended (Bool.eq_false_iff.mpr hlive)]

theorem rewrite (h : FrozenBooks st) (hlisted : st.Listed order) (hreserved : order'.CashReserved)
    (horders : st'.orders = st.orders.set order.orderId order')
    (hfrozen : st.account.frozenCash - st'.account.frozenCash =
      order.reservedCash - order'.reservedCash) : FrozenBooks st' := by
  constructor
  · rw [horders]
    intro other hother
    obtain hold | rfl := List.mem_or_eq_of_mem_set hother
    · exact h.reserved other hold
    · exact hreserved
  · have hexchange : total Order.reservedCash (st.orders.set order.orderId order') +
        order.reservedCash = total Order.reservedCash st.orders + order'.reservedCash :=
      total_set_add hlisted
    have hbefore := h.frozen
    rw [horders]
    linarith

end FrozenBooks

theorem FrozenBooks.closeOrder (h : FrozenBooks st) (hlisted : st.Listed order)
    (status : OrderStatus) (reason : Reason) : FrozenBooks (closeOrder st order status reason) := by
  have hreserved := h.reserved order hlisted.mem
  have hall := releaseCash_all st.account order hreserved.nonneg (h.reserved_le hlisted.mem)
  have hended : (endedOrder st order status reason).reservedCash = 0 := by
    rw [endedOrder_reservedCash, hall]
  apply h.rewrite hlisted _ (closeOrder_orders st order status reason)
  · rw [closeOrder_account, releaseCash_frozen, endedOrder_reservedCash]
  · constructor
    · exact hended.ge
    · rw [hended]
      exact onGrid_zero 8
    · exact fun _ => hended

/-- The part of a reservation that goes with a fill. -/
theorem reservationSlice_bounds {reserved quantity : ℚ} (remaining : ℚ) (hnonneg : 0 ≤ reserved)
    (hgrid : OnGrid 8 reserved) (hquantity : 0 < quantity) :
    0 ≤ reservationSlice moneyQuant reserved quantity remaining ∧
      reservationSlice moneyQuant reserved quantity remaining ≤ reserved ∧
      OnGrid 8 (reservationSlice moneyQuant reserved quantity remaining) := by
  unfold reservationSlice
  by_cases hnone : reserved ≤ 0 ∨ remaining ≤ 0
  · rw [if_pos hnone]
    exact ⟨le_refl 0, hnonneg, onGrid_zero 8⟩
  · rw [if_neg hnone]
    obtain ⟨-, hremaining⟩ := not_or.mp hnone
    by_cases hall : remaining ≤ quantity
    · rw [if_pos hall]
      exact ⟨hnonneg, le_refl _, hgrid⟩
    · rw [if_neg hall]
      have hremaining : 0 < remaining := not_le.mp hremaining
      have hpart : reserved * quantity / remaining ≤ reserved := by
        rw [div_le_iff₀ hremaining]
        exact mul_le_mul_of_nonneg_left (not_le.mp hall).le hnonneg
      have hpos : 0 ≤ reserved * quantity / remaining := by positivity
      exact ⟨quantize_nonneg hpos, quantize_le_of_onGrid hgrid hpart, onGrid_quantize 8 _⟩

theorem bookRows_reserved {rows rows' : FillRows} {error : Option SimulationRiskError}
    (hnonneg : 0 ≤ rows.order.reservedCash) (hgrid : OnGrid 8 rows.order.reservedCash)
    (hquantity : 0 < e.quantity) (h : bookRows moneyQuant rows e = (rows', error)) :
    0 ≤ rows'.order.reservedCash ∧ OnGrid 8 rows'.order.reservedCash ∧
      rows.account.frozenCash - rows'.account.frozenCash =
        rows.order.reservedCash - rows'.order.reservedCash := by
  have hsame : ∀ account : Account, account.frozenCash = rows.account.frozenCash →
      rows.account.frozenCash - account.frozenCash =
        rows.order.reservedCash - rows.order.reservedCash := by
    intro account heq
    rw [heq, sub_self, sub_self]
  have hclosed : (closedAccount moneyQuant rows.account rows.position rows.order.side e).frozenCash =
      rows.account.frozenCash := by
    unfold closedAccount
    split_ifs <;> rfl
  unfold bookRows at h
  cases heffect : rows.order.positionEffect with
  | «open» =>
    rw [heffect] at h
    cases error with
    | none =>
      obtain ⟨hlow, hhigh, honGrid⟩ := reservationSlice_bounds
        rows.order.remaining hnonneg hgrid hquantity
      rw [(openFill_booked h).2]
      refine ⟨sub_nonneg.mpr hhigh, hgrid.sub honGrid, ?_⟩
      simp only [openedRows, sub_sub_cancel]
    | some error =>
      rw [openFill_failed h]
      exact ⟨hnonneg, hgrid, hsame _ rfl⟩
  | close =>
    rw [heffect] at h
    cases error with
    | none =>
      obtain ⟨sold, -, hrows⟩ := closeFill_booked h
      rw [hrows]
      exact ⟨hnonneg, hgrid, hsame _ hclosed⟩
    | some error =>
      rw [(closeFill_failed h).2]
      exact ⟨hnonneg, hgrid, hsame _ hclosed⟩

theorem applyFill_reserved (hreserved : order.CashReserved) (hactive : order.isActive = true)
    (hcovered : order.reservedCash ≤ st.account.frozenCash) (hquantity : 0 < e.quantity) :
    (applyFill moneyQuant st order e).order.CashReserved ∧
      st.account.frozenCash - (applyFill moneyQuant st order e).state.account.frozenCash =
        order.reservedCash - (applyFill moneyQuant st order e).order.reservedCash := by
  have hstep : FillStep moneyQuant st order e _ := applyFill_step st order e
  generalize applyFill moneyQuant st order e = result at hstep ⊢
  cases hstep with
  | known existing => exact ⟨hreserved, by rw [sub_self, sub_self]⟩
  | @failed rows error hbook =>
    obtain ⟨hnonneg, hgrid, hmoved⟩ := bookRows_reserved hreserved.nonneg hreserved.onGrid hquantity hbook
    obtain ⟨-, hstatus⟩ := bookRows_progress hbook
    have hlive : rows.order.isActive = true := by
      unfold Order.isActive at hactive ⊢
      rw [hstatus]
      exact hactive
    refine ⟨⟨hnonneg, hgrid, fun hended => ?_⟩, hmoved⟩
    exact absurd (hended.symm.trans hlive) Bool.false_ne_true
  | @booked rows hbook =>
    obtain ⟨hnonneg, hgrid, hmoved⟩ := bookRows_reserved hreserved.nonneg hreserved.onGrid hquantity hbook
    have hcovered' : rows.order.reservedCash ≤ rows.account.frozenCash := by
      simp only [fillRows] at hmoved
      linarith
    rw [settleFill_eq]
    simp only [revalueAccount]
    by_cases hfilled : (rows.order.filled moneyQuant e).status = .filled
    · have hall : (releaseCash rows.account (rows.order.filled moneyQuant e)).2.reservedCash = 0 :=
        releaseCash_all rows.account (rows.order.filled moneyQuant e) hnonneg hcovered'
      have hreleased : rows.account.frozenCash -
          (releaseCash rows.account (rows.order.filled moneyQuant e)).1.frozenCash =
            rows.order.reservedCash - _ := releaseCash_frozen rows.account _
      have hnothing : (settledOrder moneyQuant rows e).reservedCash = 0 := by
        rw [settledOrder_reservedCash, if_pos hfilled, hall]
      refine ⟨⟨hnothing.ge, ?_, fun _ => hnothing⟩, ?_⟩
      · rw [hnothing]
        exact onGrid_zero 8
      · rw [hall] at hreleased
        rw [hnothing, settledAccount, if_pos hfilled]
        simp only [fillRows] at hmoved
        linarith
    · have hkept : (settledOrder moneyQuant rows e).reservedCash = rows.order.reservedCash := by
        rw [settledOrder_reservedCash, if_neg hfilled]
      have hlive : (settledOrder moneyQuant rows e).isActive = true := by
        rw [settledOrder_isActive]
        rw [filled_status] at hfilled
        split_ifs at hfilled with hdone
        · exact absurd rfl hfilled
        · unfold Order.remaining
          linarith
      refine ⟨⟨?_, ?_, fun hended => ?_⟩, ?_⟩
      · rw [hkept]
        exact hnonneg
      · rw [hkept]
        exact hgrid
      · exact absurd (hended.symm.trans hlive) Bool.false_ne_true
      · rw [hkept, settledAccount, if_neg hfilled]
        exact hmoved

theorem FrozenBooks.applyFill (h : FrozenBooks st) (hlisted : st.Listed order)
    (hactive : order.isActive = true) (hquantity : 0 < e.quantity) :
    FrozenBooks (applyFill moneyQuant st order e).state := by
  obtain ⟨hreserved, hmoved⟩ := applyFill_reserved (h.reserved order hlisted.mem) hactive
    (h.reserved_le hlisted.mem) hquantity
  exact h.rewrite hlisted hreserved (applyFill_orders st order e hlisted) hmoved

theorem FrozenBooks.markedState (h : FrozenBooks st) (position : Position) (bar : Bar)
    (rule : SimulationAssetRule) : FrozenBooks (markedState moneyQuant st position bar rule) := by
  have hframe := markedState_frame moneyQuant st position bar rule
  constructor
  · rw [hframe.orders]
    exact h.reserved
  · rw [hframe.orders, hframe.frozenCash]
    exact h.frozen

/-- The amount an accepted target reserves is a whole number of units. -/
def ExactReservation (st : State) (target : SimulationTarget) : Prop :=
  ∀ rule terms, resolveSimulationRule target.assetRuleKey target.market target.instrumentType
      target.symbol = .ok rule →
    (target.positionSide = .short → st.session.config.risk.allowShort = true) →
    targetDemand st target rule = .ok (.order terms) → terms.effect = .open →
    Admits st target.symbol terms → OnGrid 8 (requiredCash st.session.config rule terms.notional)

theorem FrozenBooks.add (h : FrozenBooks st) (hreserved : order.CashReserved)
    (horders : st'.orders = st.orders ++ [order])
    (hfrozen : st'.account.frozenCash = st.account.frozenCash + order.reservedCash) :
    FrozenBooks st' := by
  constructor
  · rw [horders]
    intro other hother
    obtain hold | hnew := List.mem_append.mp hother
    · exact h.reserved other hold
    · rw [List.mem_singleton.mp hnew]
      exact hreserved
  · rw [horders, hfrozen, h.frozen, total_append, total_cons, total_nil, add_zero]

theorem requiredCash_nonneg {config : SimulationConfig} {rule : SimulationAssetRule} {notional : ℚ}
    (hmargin : 0 ≤ rule.marginRate) (hnotional : 0 ≤ notional) :
    0 ≤ requiredCash config rule notional := by
  have hcommission : 0 ≤ reservedCommission rule notional :=
    le_max_of_le_right rule.rule.commissionMin_nonneg
  have hbuffer : 0 ≤ config.matching.marketPriceBufferBps :=
    config.matching.slippageBps_nonneg.trans config.matching.slippageBps_le
  unfold requiredCash
  split_ifs <;> positivity

theorem notional_nonneg {symbol : String} {terms : OrderTerms} (hmultiplier : 0 < terms.rule.multiplier)
    (hquantity : 0 < terms.quantity) (hadmits : Admits st symbol terms) : 0 ≤ terms.notional := by
  obtain ⟨-, hchecked⟩ := unit_bind_eq_ok.mp hadmits.order
  have hprice := require_eq_ok.mp (unit_bind_eq_ok.mp hchecked).1
  unfold OrderTerms.notional
  positivity

theorem FrozenBooks.placement {decisionId : String} {target : SimulationTarget}
    {rule : SimulationAssetRule} {placed : Option Order} (h : FrozenBooks st)
    (hrule : resolveSimulationRule target.assetRuleKey target.market target.instrumentType
      target.symbol = .ok rule) (hexact : ExactReservation st target)
    (hplaced : Placement moneyQuant st decisionId target rule st' placed) : FrozenBooks st' := by
  cases hplaced with
  | satisfied _ => exact h
  | refused effect quantity eligibleAfter reason message =>
    exact h.add ⟨le_refl 0, onGrid_zero 8, fun _ => rfl⟩ rfl (add_zero _).symm
  | @opened terms hterms hdemand heffect hadmits hshort =>
    have hgrid := hexact rule terms hrule hshort hdemand heffect hadmits
    have hexactly : moneyQuant (requiredCash st.session.config rule terms.notional) =
        requiredCash st.session.config rule terms.notional := quantize_of_onGrid hgrid
    obtain ⟨hmultiplier, hmargin⟩ := multiplier_pos_of_resolve hrule
    have hnotional : 0 ≤ terms.notional := by
      rw [← hterms.resolved] at hmultiplier
      exact notional_nonneg hmultiplier hterms.quantity_pos hadmits
    have hnonneg : 0 ≤ requiredCash st.session.config rule terms.notional :=
      requiredCash_nonneg hmargin hnotional
    rw [hexactly]
    exact h.add ⟨hnonneg, hgrid, fun hended => absurd hended (by simp [acceptedRow, orderRow,
      Order.isActive])⟩ rfl rfl
  | closed hterms heffect hroom hposition havailable =>
    refine FrozenBooks.add ⟨h.reserved, h.frozen⟩ ⟨le_refl 0, onGrid_zero 8, fun _ => rfl⟩ rfl ?_
    exact (add_zero _).symm

theorem FrozenBooks.recoverSession (h : FrozenBooks st) (hsound : Sound st) :
    FrozenBooks (recoverSession moneyQuant st).1 := by
  have hactive : total Order.reservedCash st.activeOrders = total Order.reservedCash st.orders := by
    rw [hsound.activeOrders_eq, h.total_active]
  unfold Simulation.recoverSession
  simp only
  by_cases hshort : st.account.cash + st.account.frozenCash < total Order.reservedCash st.activeOrders
  · rw [if_pos hshort]
    exact ⟨h.reserved, h.frozen⟩
  · rw [if_neg hshort]
    exact ⟨h.reserved, hactive⟩

theorem FrozenBooks.opened (h : Opened moneyQuant st) : FrozenBooks st := by
  cases h with
  | @mk initialCash account haccount validationRunId config signalTraces =>
    constructor
    · intro order hmem
      cases hmem
    · unfold createAccount at haccount
      split_ifs at haccount
      rw [← Except.ok.inj haccount]
      rfl

theorem FrozenBooks.kept : Kept moneyQuant ExactReservation (fun _ => True) FrozenBooks where
  close := fun _ _ status reason _ h hlisted _ _ => h.closeOrder hlisted status reason
  fill := fun _ _ _ _ _ _ h hlisted hactive hfits _ => h.applyFill hlisted hactive hfits.quantity_pos
  mark := fun _ _ _ position rule _ h _ _ _ => h.markedState position _ rule
  books := fun _ _ hsame h => h.of_same hsame
  place := by
    intro st decisionId now target placed _ h hexact hplaced
    obtain ⟨rule, hrule, hplacement⟩ := targetToOrder_placement hplaced
    exact h.placement hrule hexact hplacement

/-- The calls in which every accepted opening order reserves a whole number of units. -/
def ExactReservations : State → Action → Prop :=
  Action.Meets moneyQuant ExactReservation fun _ _ => True

/-- In every run that reserves whole units the frozen cash is what the active orders have
reserved, ended orders have nothing reserved, and no cash is frozen below zero. -/
theorem frozen_cash_is_reserved {st : State} (h : Reachable moneyQuant ExactReservations st) :
    st.account.frozenCash = total Order.reservedCash (st.orders.filter Order.isActive) ∧
      (∀ order ∈ st.orders, order.isActive = false → order.reservedCash = 0) ∧
      0 ≤ st.account.frozenCash := by
  obtain ⟨-, hbooks⟩ := FrozenBooks.kept.reachable (fun _ => FrozenBooks.opened)
    (fun _ hsound hbooks => hbooks.recoverSession hsound) h
  refine ⟨?_, fun order hmem => (hbooks.reserved order hmem).ended, ?_⟩
  · rw [hbooks.total_active]
    exact hbooks.frozen
  · rw [hbooks.frozen]
    exact total_nonneg fun order hmem => (hbooks.reserved order hmem).nonneg

def reservesExactly (st : State) (target : SimulationTarget) : Bool :=
  match resolveSimulationRule target.assetRuleKey target.market target.instrumentType
      target.symbol with
  | .error _ => true
  | .ok rule =>
      match targetDemand st target rule with
      | .ok (.order terms) =>
          moneyQuant (requiredCash st.session.config rule terms.notional) =
            requiredCash st.session.config rule terms.notional
      | _ => true

theorem exactReservation_of_computed {target : SimulationTarget}
    (h : reservesExactly st target = true) : ExactReservation st target := by
  intro rule terms hrule _ hdemand _ _
  simp only [reservesExactly, hrule, hdemand, decide_eq_true_eq] at h
  exact quantize_eq_self_iff.mp h

theorem frozen_cash_is_reserved_buying :
    let st := runCalls moneyQuant (sampleSession moneyQuant) (tradingRun.take 3)
    0 < st.account.frozenCash ∧
      st.account.frozenCash = total Order.reservedCash (st.orders.filter Order.isActive) ∧
      (∀ order ∈ st.orders, order.isActive = false → order.reservedCash = 0) ∧
      0 ≤ st.account.frozenCash := by
  refine ⟨by decide +kernel, frozen_cash_is_reserved ?_⟩
  apply (Reachable.opened (sampleSession_opened moneyQuant)).calls
  refine ⟨trivial, trivial, ⟨exactReservation_of_computed ?_, fun _ _ => trivial⟩, trivial⟩
  decide +kernel

/-- Buying two stocks at a price of eight digits in one decision. -/
def fineGrainedRun : List Action :=
  [.transitionSession .running,
   .processBar (flatBar "E1" "600000" .aShare ⟨1, 0, 0⟩ 10.12345674 (by norm_num)),
   .processBar (flatBar "E2" "600001" .aShare ⟨1, 0, 0⟩ 10.12345674 (by norm_num)),
   .submitDecision {
     decisionId := "D-1", sourceRunId := "RR-1", sourceDecisionId := "D1", checksum := "D-1"
     targets := [securityTarget "600000" "a_share_stock" .stock 2000 (by norm_num),
       securityTarget "600001" "a_share_stock" .stock 2000 (by norm_num)]
     keys_nodup := by simp [securityTarget] } ⟨1, 0, 0⟩]

/-- The account has then frozen another amount than its orders have reserved, even when it
is rounded to the digits of the orders. -/
theorem frozen_cash_drifts : ∃ st, Reachable moneyQuant (fun _ _ => True) st ∧
    st.account.frozenCash ≠ total Order.reservedCash (st.orders.filter Order.isActive) ∧
    moneyQuant st.account.frozenCash ≠ total Order.reservedCash (st.orders.filter Order.isActive) := by
  refine ⟨runCalls moneyQuant (sampleSession moneyQuant) fineGrainedRun, ?_, ?_⟩
  · apply (Reachable.opened (sampleSession_opened moneyQuant)).calls
    exact ⟨trivial, trivial, trivial, trivial, trivial⟩
  · decide +kernel

end FinDashboard.Simulation
