import FinDashboard.Simulation.FuturesLedger

/-!
# Fills in a futures session

An opening fill turns cash into margin and carries the contracts at the traded price. A
closing fill releases its share of the margin and pays the difference between the traded and
the carried price. Both change the ledger by the value traded and the commission.
-/

namespace FinDashboard.Simulation

open Ledger

variable {st : State} {order : Order} {e : Execution} {position : Position}

theorem openedPosition_settlement (hrule : e.rule.isFutures = true) :
    (openedPosition id position e).lastSettlementPrice =
      (position.settlementBasis * position.totalQuantity + e.fillPrice * e.quantity) /
        (position.totalQuantity + e.quantity) := by
  simp [openedPosition, increasePosition, hrule]

theorem openedPosition_average (hrule : e.rule.isFutures = true)
    (hpos : 0 < position.totalQuantity + e.quantity) : (openedPosition id position e).averagePrice =
      (position.averagePrice * position.totalQuantity + e.fillPrice * e.quantity) /
        (position.totalQuantity + e.quantity) := by
  simp [openedPosition, increasePosition, hrule, hpos]

/-- The rows of an opened position. -/
structure OpenedContracts (position position' : Position) (e : Execution) : Prop where
  key : position'.key = position.key
  settled : position'.Settled
  margin : position'.marginUsed = position.marginUsed + e.margin id
  value : position'.carriedValue = position.carriedValue +
    e.fillPrice * e.quantity * contractMultiplier position.symbol * direction position.positionSide

theorem openedContracts (hrule : e.rule.isFutures = true) (htotal : 0 ≤ position.totalQuantity)
    (hsettled : position.Settled) (hquantity : 0 < e.quantity) (hprice : 0 < e.fillPrice)
    (hmargin : 0 ≤ e.margin id) : OpenedContracts position (openedPosition id position e) e := by
  have hpos : 0 < position.totalQuantity + e.quantity := by linarith
  have hbasis := hsettled.basis_nonneg
  have haverage := hsettled.average_nonneg
  have hfields : openedPosition id position e = _ := openedPosition_of_futures hrule
  have hmarginUsed : (openedPosition id position e).marginUsed =
      position.marginUsed + e.margin id := by rw [hfields]
  have htotal' : (openedPosition id position e).totalQuantity =
      position.totalQuantity + e.quantity := by rw [hfields]
  have hkey : (openedPosition id position e).key = position.key := openedPosition_key position e
  have hsymbol : (openedPosition id position e).symbol = position.symbol := congrArg Prod.fst hkey
  have hside : (openedPosition id position e).positionSide = position.positionSide :=
    congrArg Prod.snd hkey
  have hsettlement : 0 < (openedPosition id position e).lastSettlementPrice := by
    rw [openedPosition_settlement hrule]
    positivity
  refine ⟨hkey, ⟨hsettlement.le, ?_, ?_, ?_⟩, hmarginUsed, ?_⟩
  · rw [openedPosition_average hrule hpos]
    positivity
  · rw [hmarginUsed]
    exact add_nonneg hsettled.margin_nonneg hmargin
  · intro hflat
    rw [htotal'] at hflat
    linarith
  · have hcarried : (openedPosition id position e).settlementBasis *
        (openedPosition id position e).totalQuantity =
          position.settlementBasis * position.totalQuantity + e.fillPrice * e.quantity := by
      have hown : (openedPosition id position e).settlementBasis =
          (openedPosition id position e).lastSettlementPrice := if_pos hsettlement
      rw [hown, openedPosition_settlement hrule, htotal', div_mul_cancel₀ _ hpos.ne']
    unfold Position.carriedValue
    rw [hcarried, hsymbol, hside]
    ring

theorem marginRelease_spec {margin quantity held : ℚ} (hmargin : 0 ≤ margin)
    (hquantity : 0 < quantity) (hheld : quantity ≤ held) :
    reservationSlice id margin quantity held ≤ margin ∧
      (held - quantity = 0 → margin - reservationSlice id margin quantity held = 0) := by
  have hheld_pos := hquantity.trans_le hheld
  unfold reservationSlice
  by_cases hnone : margin ≤ 0
  · have hzero := le_antisymm hnone hmargin
    rw [if_pos (Or.inl hnone)]
    exact ⟨hmargin, fun _ => by rw [hzero, sub_self]⟩
  · rw [if_neg (not_or.mpr ⟨hnone, not_le.mpr hheld_pos⟩)]
    by_cases hall : held ≤ quantity
    · rw [if_pos hall]
      exact ⟨le_refl _, fun _ => sub_self _⟩
    · rw [if_neg hall]
      refine ⟨?_, fun hflat => absurd hflat (by linarith)⟩
      rw [id_eq, div_le_iff₀ hheld_pos]
      exact mul_le_mul_of_nonneg_left hheld hmargin

/-- The rows of a sold position. -/
structure ClosedContracts (position position' : Position) (e : Execution) : Prop where
  key : position'.key = position.key
  settled : position'.Settled
  margin : position'.marginUsed =
    position.marginUsed - reservationSlice id position.marginUsed e.quantity position.totalQuantity
  value : position'.carriedValue = position.carriedValue - position.settlementBasis * e.quantity *
    contractMultiplier position.symbol * direction position.positionSide

theorem closedContracts {rows : FillRows} {sold : Position} {asOf : Date} {trackLot : Bool}
    (hrule : e.rule.isFutures = true) (hsettled : rows.position.Settled) (hquantity : 0 < e.quantity)
    (hsold : decreasePosition (unfrozenPosition id rows e) e.quantity asOf trackLot = .ok sold)
    (realized : ℚ) : ClosedContracts rows.position { sold with realizedPnl := realized } e := by
  have hkey := decreasePosition_key hsold
  obtain ⟨henough, lots, -, heq⟩ := decreasePosition_ok hsold
  obtain ⟨htotal, hmargin, hsettlement, haverage⟩ := soldPosition_fields henough
  rw [← heq] at htotal hmargin hsettlement haverage
  have henough : e.quantity ≤ rows.position.totalQuantity := henough
  have hmargin : sold.marginUsed = rows.position.marginUsed -
      reservationSlice id rows.position.marginUsed e.quantity rows.position.totalQuantity := by
    rw [hmargin]
    exact if_pos hrule
  have hsymbol : sold.symbol = rows.position.symbol := congrArg Prod.fst hkey
  have hside : sold.positionSide = rows.position.positionSide := congrArg Prod.snd hkey
  obtain ⟨hrelease, hflat⟩ := marginRelease_spec hsettled.margin_nonneg hquantity henough
  refine ⟨hkey, ⟨?_, ?_, ?_, ?_⟩, hmargin, ?_⟩
  · simp only [hsettlement]
    exact hsettled.settlement_nonneg
  · obtain hkept | ⟨-, hzero⟩ := haverage
    · simp only [hkept]
      exact hsettled.average_nonneg
    · simp only [hzero]
      exact le_refl 0
  · simp only [hmargin]
    linarith
  · simp only [hmargin, htotal]
    exact hflat
  · have hcarried : sold.settlementBasis * sold.totalQuantity =
        rows.position.settlementBasis * (rows.position.totalQuantity - e.quantity) := by
      rw [htotal]
      obtain hkept | ⟨hzero, -⟩ := haverage
      · unfold Position.settlementBasis
        rw [hsettlement, hkept]
        rfl
      · have hnothing : rows.position.totalQuantity - e.quantity = 0 := hzero
        change _ * (rows.position.totalQuantity - e.quantity) = _
        rw [hnothing, mul_zero, mul_zero]
    change sold.settlementBasis * sold.totalQuantity * contractMultiplier sold.symbol *
      direction sold.positionSide = _
    rw [hcarried, hsymbol, hside]
    unfold Position.carriedValue
    ring

theorem emptyPosition_settled (order : Order) (price : ℚ) : (emptyPosition order price).Settled :=
  ⟨le_refl 0, le_refl 0, le_refl 0, fun _ => rfl⟩

theorem FuturesBooks.ensurePosition (h : FuturesBooks st) (hmem : order ∈ st.orders) (price : ℚ) :
    FuturesBooks (ensurePosition st order price).1 := by
  have hheld := h.held.ensurePosition hmem price
  obtain ⟨position, -, heq⟩ | ⟨hnone, heq⟩ := ensurePosition_cases st order price
  · rw [heq]
    exact h
  · rw [heq] at hheld ⊢
    have hvalue : (emptyPosition order price).carriedValue = 0 := by
      simp [Position.carriedValue, emptyPosition]
    have hvalues : total Position.carriedValue
        (st.addPosition (emptyPosition order price)).positions =
          total Position.carriedValue st.positions := by
      rw [State.addPosition, total_perm (List.perm_orderedInsert _ _ _), total_cons, hvalue, zero_add]
    have hmargins : total Position.marginUsed
        (st.addPosition (emptyPosition order price)).positions =
          total Position.marginUsed st.positions := by
      rw [State.addPosition, total_perm (List.perm_orderedInsert _ _ _), total_cons]
      exact zero_add _
    refine ⟨hheld, ?_, ?_, ?_⟩
    · intro position hposition
      obtain rfl | hold := mem_addPosition.mp hposition
      · exact emptyPosition_settled order price
      · exact h.settled position hold
    · rw [hmargins]
      exact h.margin
    · rw [hmargins, hvalues]
      exact h.balance

/-- What a booked fill moves. -/
structure BookedContracts (st : State) (order : Order) (e : Execution) (rows : FillRows) : Prop where
  key : rows.position.key = (filledPosition st order e).key
  settled : rows.position.Settled
  initialCash : rows.account.initialCash = st.account.initialCash
  moved : rows.account.cash + rows.account.frozenCash - (st.account.cash + st.account.frozenCash) +
    (rows.position.marginUsed - (filledPosition st order e).marginUsed) =
      (fillRow id order e).ledgerFlow +
        (rows.position.carriedValue - (filledPosition st order e).carriedValue)

theorem FuturesBooks.booked (h : FuturesBooks st) (hlisted : st.Listed order) (hfits : e.Fits order)
    {rows : FillRows} (hbook : bookRows id (fillRows st order e) e = (rows, none)) :
    BookedContracts st order e rows := by
  have hensured := h.ensurePosition hlisted.mem e.fillPrice
  obtain ⟨hmem, hkey⟩ := ensurePosition_spec st order e.fillPrice
  have hsymbol : (filledPosition st order e).symbol = order.symbol := congrArg Prod.fst hkey
  have hside : (filledPosition st order e).positionSide = order.positionSide := congrArg Prod.snd hkey
  have hsettled := hensured.settled _ hmem
  have htotal := (hensured.held.backed _ hmem).total_nonneg
  have hclass : order.instrumentType = .futures := h.isFutures hlisted.mem
  have hrule : e.rule.isFutures = true := by
    rw [isFutures_of_resolveRule hfits.rule]
    simpa using hclass
  have hmultiplier : e.rule.multiplier = contractMultiplier order.symbol :=
    multiplier_of_futures (mapError_eq_ok.mp hfits.rule) hclass
  obtain ⟨hmultiplier_pos, hrate⟩ := multiplier_pos_of_resolve (mapError_eq_ok.mp hfits.rule)
  have hquantity := hfits.quantity_pos
  have hprice := hfits.price_pos
  have hmargin : 0 ≤ e.margin id := by
    unfold Execution.margin Execution.turnover
    rw [id_eq]
    positivity
  unfold bookRows at hbook
  cases heffect : order.positionEffect with
  | «open» =>
    simp only [fillRows_order, heffect] at hbook
    have hopened := openedContracts hrule htotal hsettled hquantity hprice hmargin
    rw [(openFill_booked hbook).2]
    refine ⟨hopened.key, hopened.settled, rfl, ?_⟩
    simp only [openedRows, fillRows, hopened.margin, hopened.value, Execution.needed, hrule, if_true,
      Fill.ledgerFlow, Fill.tradedValue, fillRow, heffect, hsymbol, hside]
    ring
  | close =>
    simp only [fillRows_order, heffect] at hbook
    obtain ⟨position', hrows, hclosed⟩ : ∃ position',
        rows = closedRows id (fillRows st order e) e position' ∧
          ClosedContracts (filledPosition st order e) position' e := by
      obtain ⟨sold, hsold, hrows⟩ := closeFill_booked hbook
      exact ⟨_, hrows, closedContracts hrule hsettled hquantity hsold _⟩
    rw [hrows]
    refine ⟨hclosed.key, hclosed.settled, ?_, ?_⟩
    · simp only [closedRows, closedAccount, hrule, if_true, fillRows]
    · simp only [closedRows, hclosed.margin, hclosed.value, closedAccount, hrule, if_true, fillRows,
        realizedBy, hmultiplier, Fill.ledgerFlow, Fill.tradedValue, fillRow, heffect, hsymbol, hside,
        direction, id_eq, reduceCtorEq, if_false]
      ring

theorem FuturesBooks.applyFill (h : FuturesBooks st) (hsound : Sound st) (hlisted : st.Listed order)
    (hactive : order.isActive = true) (hfits : e.Fits order) :
    FuturesBooks (applyFill id st order e).state := by
  have hheld : Held (fun _ => true) (fun _ => true) (Simulation.applyFill id st order e).state :=
    h.held.applyFill hlisted hactive hfits fun _ _ => rfl
  have hensured := h.ensurePosition hlisted.mem e.fillPrice
  have hsound' := hsound.ensurePosition order e.fillPrice
  have haccount : (Simulation.ensurePosition st order e.fillPrice).1.account = st.account := by
    rw [ensurePosition_eq]
  obtain ⟨hmem, hkey⟩ := ensurePosition_spec st order e.fillPrice
  have hstep : FillStep id st order e _ := applyFill_step st order e
  generalize Simulation.applyFill id st order e = result at hstep hheld ⊢
  cases hstep with
  | known existing => exact h
  | failed hbook =>
    have hrows := (h.held.failed_rows hlisted hactive hfits (fun _ _ => rfl) hbook).2
    rw [hrows] at hheld ⊢
    have hsame : (filledPosition st order e).SameValue (filledPosition st order e) :=
      ⟨rfl, rfl, rfl, rfl, rfl⟩
    apply hensured.rewritten hsound' hheld hmem hsame rfl
    · rw [haccount]
      rfl
    · rw [haccount]
      rfl
    · rw [haccount]
      rfl
    · rfl
  | @booked rows hbook =>
    have hbooked := h.booked hlisted hfits hbook
    have hsame := settledPosition_sameValue id rows e
    rw [settleFill_eq] at hheld ⊢
    apply hensured.exchanged (fillRow id order e).ledgerFlow hsound' hheld hmem
      (hsame.key.trans hbooked.key) (hsame.settled hbooked.settled) rfl (Or.inr rfl)
    · rw [haccount]
      exact (settledAccount_initialCash id rows e).trans hbooked.initialCash
    · simp only
      rw [total_append, total_cons, total_nil, add_zero]
    · rw [haccount, hsame.marginUsed, hsame.carriedValue]
      simp only [revalueAccount]
      rw [settledAccount_sum]
      exact hbooked.moved

end FinDashboard.Simulation
