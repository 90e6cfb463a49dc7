import FinDashboard.Simulation.HeldRuns

/-!
# The ledger of a futures session

A contract is carried at the price it was last settled at. A daily settlement pays the
difference to the new price and moves the margin with it, so cash, margin and the carried
value of the open positions change together: only fills and commissions enter their sum.
-/

namespace FinDashboard.Simulation

open Ledger

variable {st st' : State} {order : Order} {e : Execution} {position position' : Position}

def direction (side : PositionSide) : ℚ := if side = .long then 1 else -1

def contractMultiplier (symbol : String) : ℚ := (resolveFutures symbol).elim 0 FuturesRule.multiplier

def Position.carriedValue (position : Position) : ℚ :=
  position.settlementBasis * position.totalQuantity * contractMultiplier position.symbol *
    direction position.positionSide

def Fill.tradedValue (fill : Fill) : ℚ :=
  fill.price * fill.quantity * contractMultiplier fill.symbol * direction fill.positionSide

/-- What a fill changes besides the carried value. -/
def Fill.ledgerFlow (fill : Fill) : ℚ :=
  (if fill.positionEffect = .open then -fill.tradedValue else fill.tradedValue) - fill.commission

variable {rule : SimulationAssetRule}

theorem multiplier_of_futures {key symbol : String} {market : Market} {instrumentType : InstrumentType}
    (h : resolveSimulationRule key market instrumentType symbol = .ok rule)
    (hfutures : instrumentType = .futures) : rule.multiplier = contractMultiplier symbol := by
  obtain ⟨-, future, hfuture, rfl⟩ | ⟨hmem, hclass⟩ := resolve_cases h
  · simp [contractMultiplier, hfuture, futuresRule]
  · have hcash : ∀ entry ∈ cashRules, entry.instrumentType ≠ .futures := by simp [cashRules]
    exact absurd (hclass.trans hfutures) (hcash rule hmem)

/-- A position that is carried at a price, with a margin only while it is open. -/
structure Position.Settled (position : Position) : Prop where
  settlement_nonneg : 0 ≤ position.lastSettlementPrice
  average_nonneg : 0 ≤ position.averagePrice
  margin_nonneg : 0 ≤ position.marginUsed
  margin_flat : position.totalQuantity = 0 → position.marginUsed = 0

theorem Position.Settled.basis_nonneg (h : position.Settled) : 0 ≤ position.settlementBasis := by
  unfold Position.settlementBasis
  split_ifs
  · exact h.settlement_nonneg
  · exact h.average_nonneg

namespace Position.SameValue

variable (h : position.SameValue position')

include h

theorem carriedValue : position'.carriedValue = position.carriedValue := by
  have hsymbol : position'.symbol = position.symbol := congrArg Prod.fst h.key
  have hside : position'.positionSide = position.positionSide := congrArg Prod.snd h.key
  unfold Position.carriedValue Position.settlementBasis
  rw [h.lastSettlementPrice, h.averagePrice, h.totalQuantity, hsymbol, hside]

theorem settled (hsettled : position.Settled) : position'.Settled := by
  constructor
  · rw [h.lastSettlementPrice]
    exact hsettled.settlement_nonneg
  · rw [h.averagePrice]
    exact hsettled.average_nonneg
  · rw [h.marginUsed]
    exact hsettled.margin_nonneg
  · rw [h.totalQuantity, h.marginUsed]
    exact hsettled.margin_flat

end Position.SameValue

/-- Cash, margin and carried values of a futures session. -/
structure FuturesBooks (st : State) : Prop where
  held : Held (fun _ => true) (fun _ => true) st
  settled : ∀ position ∈ st.positions, position.Settled
  margin : st.account.marginUsed = total Position.marginUsed st.positions
  balance : st.account.cash + st.account.frozenCash + total Position.marginUsed st.positions =
    st.account.initialCash + total Fill.ledgerFlow st.fills + total Position.carriedValue st.positions

namespace FuturesBooks

theorem isFutures (h : FuturesBooks st) (hmem : order ∈ st.orders) : order.instrumentType = .futures :=
  (h.held.futures_iff order hmem).mpr rfl

theorem of_same (h : FuturesBooks st) (hsame : SameBooks st st') : FuturesBooks st' := by
  refine ⟨h.held.of_same hsame, ?_, ?_, ?_⟩
  · rw [hsame.positions]
    exact h.settled
  · rw [hsame.positions]
    obtain hkept | hcounted := hsame.marginUsed
    · rw [hkept]
      exact h.margin
    · exact hcounted
  · rw [hsame.positions, hsame.cash, hsame.frozenCash, hsame.initialCash, hsame.fills]
    exact h.balance

theorem exchanged (h : FuturesBooks st) (flow : ℚ) (hsound : Sound st)
    (hheld : Held (fun _ => true) (fun _ => true) st') (hmem : position ∈ st.positions)
    (hkey : position'.key = position.key) (hsettled : position'.Settled)
    (hpositions : st'.positions = overwrite Position.key position' st.positions)
    (hmargin : st'.account.marginUsed = st.account.marginUsed + (position'.marginUsed -
      position.marginUsed) ∨ st'.account.marginUsed = total Position.marginUsed st'.positions)
    (hinitial : st'.account.initialCash = st.account.initialCash)
    (hfills : total Fill.ledgerFlow st'.fills = total Fill.ledgerFlow st.fills + flow)
    (hmoved : st'.account.cash + st'.account.frozenCash - (st.account.cash + st.account.frozenCash) +
      (position'.marginUsed - position.marginUsed) =
        flow + (position'.carriedValue - position.carriedValue)) : FuturesBooks st' := by
  have hmargins : total Position.marginUsed st'.positions + position.marginUsed =
      total Position.marginUsed st.positions + position'.marginUsed := by
    rw [hpositions]
    exact total_overwrite hsound.keys hmem hkey.symm
  have hvalues : total Position.carriedValue st'.positions + position.carriedValue =
      total Position.carriedValue st.positions + position'.carriedValue := by
    rw [hpositions]
    exact total_overwrite hsound.keys hmem hkey.symm
  have hbalance := h.balance
  have hbefore := h.margin
  refine ⟨hheld, ?_, ?_, ?_⟩
  · rw [hpositions]
    intro other hother
    obtain rfl | ⟨hold, -⟩ := mem_overwrite hother
    · exact hsettled
    · exact h.settled other hold
  · obtain hmargin | hmargin := hmargin
    · linarith
    · exact hmargin
  · rw [hinitial, hfills]
    linarith

theorem rewritten (h : FuturesBooks st) (hsound : Sound st)
    (hheld : Held (fun _ => true) (fun _ => true) st') (hmem : position ∈ st.positions)
    (hsame : position.SameValue position')
    (hpositions : st'.positions = overwrite Position.key position' st.positions)
    (hmargin : st'.account.marginUsed = st.account.marginUsed)
    (hcash : st'.account.cash + st'.account.frozenCash = st.account.cash + st.account.frozenCash)
    (hinitial : st'.account.initialCash = st.account.initialCash) (hfills : st'.fills = st.fills) :
    FuturesBooks st' := by
  apply h.exchanged 0 hsound hheld hmem hsame.key (hsame.settled (h.settled position hmem)) hpositions
    _ hinitial
  · rw [hfills, add_zero]
  · rw [hcash, hsame.marginUsed, hsame.carriedValue]
    ring
  · left
    rw [hmargin, hsame.marginUsed]
    ring

end FuturesBooks

theorem FuturesBooks.closeOrder (h : FuturesBooks st) (hsound : Sound st) (hlisted : st.Listed order)
    (hactive : order.isActive = true) {status : OrderStatus}
    (hends : status = .rejected ∨ status = .cancelled) (reason : Reason) :
    FuturesBooks (closeOrder st order status reason) := by
  have hheld := h.held.closeOrder hlisted hactive hends reason
  have hcash : (Simulation.closeOrder st order status reason).account.cash +
      (Simulation.closeOrder st order status reason).account.frozenCash =
        st.account.cash + st.account.frozenCash := by
    rw [closeOrder_account, releaseCash_sum]
  have hmargin : (Simulation.closeOrder st order status reason).account.marginUsed =
      st.account.marginUsed := by
    rw [closeOrder_account, releaseCash_marginUsed]
  have hinitial : (Simulation.closeOrder st order status reason).account.initialCash =
      st.account.initialCash := by
    rw [closeOrder_account, releaseCash_initialCash]
  have hfills := closeOrder_fills st order status reason
  have hpositions := congrArg State.positions (closeOrder_eq st order status reason)
  cases hposition : st.getPosition order.key with
  | none =>
    simp only [hposition] at hpositions
    refine ⟨hheld, ?_, ?_, ?_⟩
    · rw [hpositions]
      exact h.settled
    · rw [hpositions, hmargin]
      exact h.margin
    · rw [hpositions, hcash, hinitial, hfills]
      exact h.balance
  | some position =>
    simp only [hposition] at hpositions
    obtain ⟨hmem, -⟩ := mem_of_getPosition hposition
    exact h.rewritten hsound hheld hmem (releaseQuantity_sameValue position order) hpositions hmargin
      hcash hinitial hfills

theorem FuturesBooks.placement {money : ℚ → ℚ} {decisionId : String} {target : SimulationTarget}
    {placed : Option Order} (h : FuturesBooks st) (hsound : Sound st)
    (hfutures : target.instrumentType = .futures)
    (hplaced : Placement money st decisionId target rule st' placed) : FuturesBooks st' := by
  have hclass : target.Classified fun _ => true := iff_of_true hfutures rfl
  have hheld := h.held.placement hclass hplaced
  have hbalance := h.balance
  cases hplaced with
  | satisfied _ => exact h
  | refused effect quantity eligibleAfter reason message => exact ⟨hheld, h.settled, h.margin, hbalance⟩
  | opened hterms hdemand heffect hadmits hshort =>
    refine ⟨hheld, h.settled, h.margin, ?_⟩
    simp only [State.addOrder, State.cashReserved]
    linarith
  | @closed terms position hterms heffect hroom hposition havailable =>
    obtain ⟨hmem, -⟩ := mem_of_getPosition hposition
    have hsame : position.SameValue (position.reserved terms.quantity) := ⟨rfl, rfl, rfl, rfl, rfl⟩
    exact h.rewritten hsound hheld hmem hsame rfl rfl rfl rfl rfl

theorem recovered_sameValue (position : Position) (reserved : ℚ) (today : Date) :
    position.SameValue (position.recovered reserved today) := ⟨rfl, rfl, rfl, rfl, rfl⟩

theorem FuturesBooks.recoverSession {money : ℚ → ℚ} (h : FuturesBooks st) (hsound : Sound st) :
    FuturesBooks (recoverSession money st).1 := by
  have hheld : Held (fun _ => true) (fun _ => true) (Simulation.recoverSession money st).1 :=
    h.held.recoverSession hsound fun _ _ => rfl
  have hrecovered := h.held.recovered_positions hsound
  have hbalance := h.balance
  unfold Simulation.recoverSession at hheld ⊢
  simp only at hheld ⊢
  by_cases hshort : st.account.cash + st.account.frozenCash < total Order.reservedCash st.activeOrders
  · rw [if_pos hshort] at hheld ⊢
    exact ⟨hheld, h.settled, h.margin, hbalance⟩
  · rw [if_neg hshort] at hheld ⊢
    refine ⟨hheld, ?_, rfl, ?_⟩
    · intro position hmem
      simp only [revalueAccount, hrecovered] at hmem
      obtain ⟨old, hold, rfl⟩ := List.mem_map.mp hmem
      exact (recovered_sameValue old _ _).settled (h.settled old hold)
    · simp only [revalueAccount, hrecovered]
      rw [total_map, total_map]
      have hvalues : total (fun position => Position.carriedValue
          (position.recovered position.frozenQuantity st.clockDate)) st.positions =
            total Position.carriedValue st.positions :=
        total_congr fun position _ => (recovered_sameValue position _ _).carriedValue
      have hmargins : total (fun position => Position.marginUsed
          (position.recovered position.frozenQuantity st.clockDate)) st.positions =
            total Position.marginUsed st.positions :=
        total_congr fun position _ => (recovered_sameValue position _ _).marginUsed
      rw [hvalues, hmargins]
      linarith

/-- The profit a settlement pays. -/
def settlementPnl (position : Position) (bar : Bar) (rule : SimulationAssetRule) : ℚ :=
  (bar.close - position.settlementBasis) * rule.multiplier * position.totalQuantity *
    direction position.positionSide

/-- The margin a settlement asks for. -/
def requiredMargin (position : Position) (bar : Bar) (rule : SimulationAssetRule) : ℚ :=
  bar.close * rule.multiplier * position.totalQuantity * rule.marginRate

/-- The cash that becomes margin; a margin call takes what there is. -/
def movedMargin (cash required held : ℚ) : ℚ :=
  if 0 < required - held ∧ cash < required - held then max 0 cash else required - held

theorem margin_after_move {cash required held : ℚ} (hrequired : 0 ≤ required) (hheld : 0 ≤ held) :
    0 ≤ held + movedMargin cash required held := by
  unfold movedMargin
  split_ifs
  · exact add_nonneg hheld (le_max_left 0 cash)
  · linarith

theorem movedMargin_flat {cash : ℚ} : movedMargin cash 0 0 = 0 := by
  simp [movedMargin]

def Position.settledAt (position : Position) (bar : Bar) (pnl moved : ℚ) : Position :=
  { position with
    realizedPnl := position.realizedPnl + pnl
    marginUsed := position.marginUsed + moved
    lastSettlementPrice := bar.close
    lastSettlementDate := some bar.timestamp.date
    lastPrice := bar.close
    marketValue := 0
    unrealizedPnl := 0 }

theorem settleFuture_rows (st : State) (position : Position) (bar : Bar) (rule : SimulationAssetRule)
    (hdue : position.lastSettlementDate ≠ some bar.timestamp.date) :
    let pnl := settlementPnl position bar rule
    let moved := movedMargin (st.account.cash + pnl) (requiredMargin position bar rule)
      position.marginUsed
    (settleFuture id st position bar rule).positions =
        overwrite Position.key (position.settledAt bar pnl moved) st.positions ∧
      (settleFuture id st position bar rule).account.cash = st.account.cash + pnl - moved ∧
      (settleFuture id st position bar rule).account.frozenCash = st.account.frozenCash ∧
      (settleFuture id st position bar rule).account.initialCash = st.account.initialCash ∧
      (settleFuture id st position bar rule).account.marginUsed =
        total Position.marginUsed (settleFuture id st position bar rule).positions ∧
      (settleFuture id st position bar rule).fills = st.fills := by
  unfold settleFuture
  rw [if_neg hdue]
  exact ⟨rfl, rfl, rfl, rfl, rfl, rfl⟩

/-- A settlement pays the difference of the carried values, with the margin moved. -/
theorem FuturesBooks.markedState (h : FuturesBooks st) (hsound : Sound st) {bar : Bar}
    (hclose : 0 < bar.close) (hmem : position ∈ st.positions) (hrule : position.resolveRule = .ok rule) :
    FuturesBooks (markedState id st position bar rule) := by
  have hheld : Held (fun _ => true) (fun _ => true) (Simulation.markedState id st position bar rule) :=
    h.held.markedState hmem (fun _ _ => rfl) rule
  have hclass : position.instrumentType = .futures :=
    ((h.held.backed position hmem).futures_iff).mpr rfl
  have htotal := (h.held.backed position hmem).total_nonneg
  have hfutures : rule.isFutures = true := by
    rw [Position.isFutures_of_resolveRule hrule]
    simpa using hclass
  have hmultiplier : rule.multiplier = contractMultiplier position.symbol :=
    multiplier_of_futures (mapError_eq_ok.mp hrule) hclass
  obtain ⟨hmultiplier_pos, hmarginRate⟩ := multiplier_pos_of_resolve (mapError_eq_ok.mp hrule)
  have hsettled := h.settled position hmem
  unfold Simulation.markedState at hheld ⊢
  rw [if_pos hfutures] at hheld ⊢
  by_cases hdone : position.lastSettlementDate = some bar.timestamp.date
  · unfold settleFuture at hheld ⊢
    rw [if_pos hdone] at hheld ⊢
    have hsame : position.SameValue { position with lastPrice := bar.close } :=
      ⟨rfl, rfl, rfl, rfl, rfl⟩
    exact h.rewritten hsound hheld hmem hsame rfl rfl rfl rfl rfl
  · have hmargin_nonneg : 0 ≤ requiredMargin position bar rule := by
      unfold requiredMargin
      positivity
    obtain ⟨hpositions, hcash, hfrozen, hinitial, hmargin, hfills⟩ :=
      settleFuture_rows st position bar rule hdone
    apply h.exchanged 0 hsound hheld hmem _ _ hpositions (Or.inr hmargin) hinitial
    · rw [hfills, add_zero]
    · rw [hcash, hfrozen]
      have hbasis : (position.settledAt bar (settlementPnl position bar rule)
          (movedMargin (st.account.cash + settlementPnl position bar rule)
            (requiredMargin position bar rule) position.marginUsed)).settlementBasis = bar.close :=
        if_pos hclose
      unfold Position.carriedValue
      rw [hbasis, ← hmultiplier]
      simp only [Position.settledAt, settlementPnl, hmultiplier]
      ring
    · rfl
    · refine ⟨hclose.le, hsettled.average_nonneg, ?_, ?_⟩
      · exact margin_after_move hmargin_nonneg hsettled.margin_nonneg
      · intro hflat
        have hnone : requiredMargin position bar rule = 0 := by
          unfold requiredMargin
          rw [show position.totalQuantity = 0 from hflat]
          ring
        simp only [Position.settledAt]
        rw [hnone, hsettled.margin_flat hflat, movedMargin_flat, add_zero]

end FinDashboard.Simulation
