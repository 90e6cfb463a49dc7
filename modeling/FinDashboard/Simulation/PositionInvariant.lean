import FinDashboard.Simulation.CashConservation
import FinDashboard.Simulation.SaleMaturity

/-!
# Positions of a securities session

Over every run with bars in the order of their dates the lots of a position add up to it, what
is frozen is what the open sales have reserved, and the matured lots cover the frozen and the
available quantity.
-/

namespace FinDashboard.Simulation

open Ledger

variable {money : ℚ → ℚ} {st st' : State} {position : Position}

/-- The lots, the reservations and the available quantity of a position agree. -/
structure Position.Covered (st : State) (position : Position) : Prop where
  lots : position.totalQuantity = total Lot.quantity position.lots
  frozen : position.frozenQuantity = total Order.reservedQuantity (st.orders.filter fun order =>
    order.isActive && decide (order.positionEffect = .close) && decide (order.key = position.key))
  available_nonneg : 0 ≤ position.availableQuantity
  matured : position.availableQuantity + position.frozenQuantity ≤
    matured position.lots st.clockDate
  matured_le : Simulation.matured position.lots st.clockDate ≤ position.totalQuantity

/-- Everything that was bought today under a T+1 rule still stands in the lots that may not be
sold today. -/
def TPlus1Kept (st : State) : Prop :=
  ∀ position ∈ st.positions,
    immature position.lots st.clockDate = st.boughtUnderTPlus1 position.key st.clockDate

instance (st : State) : Decidable (TPlus1Kept st) :=
  inferInstanceAs (Decidable (∀ position ∈ st.positions, _ = _))

instance (symbol : String) (day : Date) (st : State) : Decidable (SalesMature symbol day st) :=
  inferInstanceAs (Decidable (∀ position ∈ st.positions, position.symbol = symbol → _ ≤ _))

/-- Orders that open hold nothing, so the closing orders hold it all. -/
theorem Held.frozen_eq {futures : String → Bool} {days : Date → Bool} (h : Held futures days st)
    (hmem : position ∈ st.positions) :
    position.frozenQuantity = total Order.reservedQuantity (st.orders.filter fun order =>
      order.isActive && decide (order.positionEffect = .close) && decide (order.key = position.key)) := by
  rw [h.frozen position hmem, total_filter]
  apply total_congr
  intro order horder
  unfold Order.holding
  by_cases hthis : order.key = position.key
  · by_cases hactive : order.isActive = true
    · cases heffect : order.positionEffect with
      | «open» =>
        have hnothing := (h.reserves order horder hactive).opening heffect
        simp [hthis, hactive, hnothing]
      | close => simp [hthis, hactive]
    · simp [hactive]
  · simp [hthis]

theorem Held.covered (h : Held (fun _ => false) (fun day => day ≤ st.clockDate) st) :
    ∀ position ∈ st.positions, position.Covered st := by
  intro position hmem
  have hbacked := h.backed position hmem
  have hsecurity : position.instrumentType ≠ .futures := by
    rw [ne_eq, hbacked.futures_iff]
    exact Bool.false_ne_true
  have hcapacity : position.capacity (fun day => day ≤ st.clockDate) =
      matured position.lots st.clockDate := if_neg hsecurity
  have hlots := hbacked.lots_total hsecurity
  constructor
  · exact hlots.symm
  · exact h.frozen_eq hmem
  · exact hbacked.available_nonneg
  · rw [← hcapacity]
    exact hbacked.covered
  · rw [← hlots]
    exact matured_le_total hbacked.lots_pos

/-- The calls of a securities session whose bars come in the order of their dates. -/
def SecuritiesInOrder (st : State) : Action → Prop
  | .submitDecision decision _ => ∀ target ∈ decision.targets, target.instrumentType ≠ .futures
  | .processBar event => st.clockDate ≤ event.bar.timestamp.date
  | _ => True

/-- Those calls, with the sales of a bar's symbol covered by the front of the lots. -/
def SecuritiesInMaturityOrder (st : State) (action : Action) : Prop :=
  SecuritiesInOrder st action ∧ match action with
    | .processBar event => SalesMature event.bar.symbol.code event.bar.timestamp.date st
    | _ => True

instance (st : State) : ∀ action, Decidable (SecuritiesInOrder st action)
  | .submitDecision decision _ =>
      inferInstanceAs (Decidable (∀ target ∈ decision.targets, target.instrumentType ≠ .futures))
  | .processBar event => inferInstanceAs (Decidable (st.clockDate ≤ event.bar.timestamp.date))
  | .cancelOrder _ | .transitionSession _ | .recoverActiveSessions => isTrue trivial

instance (st : State) : ∀ action, Decidable (SecuritiesInMaturityOrder st action)
  | .processBar event => inferInstanceAs (Decidable (SecuritiesInOrder st (.processBar event) ∧
      SalesMature event.bar.symbol.code event.bar.timestamp.date st))
  | .submitDecision decision now =>
      inferInstanceAs (Decidable (SecuritiesInOrder st (.submitDecision decision now) ∧ True))
  | .cancelOrder _ | .transitionSession _ | .recoverActiveSessions => isTrue ⟨trivial, trivial⟩

theorem classified_of_securities {targets : List SimulationTarget}
    (h : ∀ target ∈ targets, target.instrumentType ≠ .futures) :
    ∀ target ∈ targets, target.Classified fun _ => false := fun target hmem =>
  iff_of_false (h target hmem) Bool.false_ne_true

/-- The holdings and the dates of the lots on a day. -/
structure DatedBooks (day : Date) (st : State) : Prop where
  held : Held (fun _ => false) (fun other => other ≤ day) st
  dated : Dated day st

/-- The same within a bar, with the sales of its symbol covered by the front. -/
structure DatedBar (event : SimulationBarEvent) (st : State) : Prop where
  books : DatedBooks event.bar.timestamp.date st
  mature : SalesMature event.bar.symbol.code event.bar.timestamp.date st

theorem SalesMature.closeOrder {symbol : String} {day : Date} {order : Order} {status : OrderStatus}
    (h : SalesMature symbol day st) (reason : Reason)
    (hreleased : ∀ position ∈ st.positions, position.key = order.key →
      order.reservedQuantity ≤ position.frozenQuantity) :
    SalesMature symbol day (closeOrder st order status reason) := by
  intro position hmem hsymbol
  obtain ⟨hold, -⟩ | ⟨old, hold, hkey, rfl⟩ := closeOrder_positions st order status reason position hmem
  · exact h position hold hsymbol
  · have hold' : old.symbol = symbol := by
      rw [← hsymbol]
      exact congrArg Prod.fst (releaseQuantity_key old order).symm
    have hbefore := h old hold hold'
    have hmin := min_eq_left (hreleased old hold hkey)
    have hless : (releaseQuantity old order).1.frozenQuantity ≤ old.frozenQuantity := by
      unfold releaseQuantity
      split_ifs
      · simp only [hmin]
        linarith
      · exact le_refl _
    rw [releaseQuantity_lots]
    exact hless.trans hbefore

theorem SalesMature.markedState {symbol : String} {day : Date} (h : SalesMature symbol day st)
    (hmem : position ∈ st.positions) (bar : Bar) (rule : SimulationAssetRule) :
    SalesMature symbol day (markedState money st position bar rule) := by
  obtain ⟨position', hsame, -, -, hpositions⟩ := markedState_cases money st position bar rule
  unfold SalesMature
  rw [hpositions]
  intro other hother hsymbol
  obtain rfl | ⟨hold, -⟩ := mem_overwrite hother
  · rw [hsame.frozenQuantity, hsame.lots]
    exact h position hmem (hsame.symbol.symm.trans hsymbol)
  · exact h other hold hsymbol

theorem DatedBooks.keptDaily (money : ℚ → ℚ) :
    KeptDaily money (fun _ target => target.Classified fun _ => false)
      (fun st event => Chronological st event ∧
        SalesMature event.bar.symbol.code event.bar.timestamp.date st) DatedBooks DatedBar where
  close := fun day st order status reason hsound h hlisted hactive hends =>
    ⟨(Held.keptDaily money _).close day _ _ _ _ hsound h.held hlisted hactive hends,
      h.dated.closeOrder hlisted status reason⟩
  books := fun _ _ _ hsame h => ⟨h.held.of_same hsame, h.dated.of_same hsame⟩
  place := by
    intro day st decisionId now target placed hsound h hsecurity hplaced
    obtain ⟨rule, -, hplacement⟩ := targetToOrder_placement hplaced
    exact ⟨(Held.keptDaily money _).place day _ _ _ _ _ hsound h.held hsecurity hplaced,
      h.dated.placement hplacement⟩
  recover := fun st hsound h =>
    ⟨(Held.keptDaily money _).recover st hsound h.held, h.dated.recoverSession h.held hsound⟩
  start := fun st event _ h hlisted =>
    ⟨⟨h.held.mono (daysUpTo hlisted.1), h.dated.later hlisted.1⟩, hlisted.2⟩
  closeBar := by
    intro event st order status reason hsound h hlisted hactive hends
    have hheld := h.books.held
    refine ⟨⟨hheld.closeOrder hlisted hactive hends reason,
      h.books.dated.closeOrder hlisted status reason⟩, ?_⟩
    apply h.mature.closeOrder reason
    exact fun position hmem hkey => hheld.reserved_le_frozen hlisted.mem hactive hmem hkey
  fillBar := by
    intro event st order e hsound h hlisted hactive hfits htime
    have hdate := congrArg Timestamp.date htime.1
    have hmature := h.mature
    rw [← htime.2] at hmature
    obtain ⟨hdated, hsales⟩ : Dated _ (applyFill money st order e).state ∧ _ :=
      h.books.dated.applyFill h.books.held hlisted hactive hfits hdate
        (fun _ hday => decide_eq_true hday) hmature
    exact ⟨⟨(Held.keptDaily money _).fillBar event _ _ _ hsound h.books.held hlisted hactive hfits htime,
      hdated⟩, hsales _ h.mature⟩
  markBar := fun event st position rule hsound h hmem hsymbol hrule =>
    ⟨⟨(Held.keptDaily money _).markBar event _ _ _ hsound h.books.held hmem hsymbol hrule,
      h.books.dated.markedState hmem rule⟩, h.mature.markedState hmem event.bar rule⟩
  booksBar := by
    intro event st st' hsame h
    refine ⟨⟨h.books.held.of_same hsame, h.books.dated.of_same hsame⟩, ?_⟩
    unfold SalesMature
    rw [hsame.positions]
    exact h.mature
  finish := fun _ _ _ h _ => h.books

/-- Two purchases of one day, the second under a T+0 rule, and a sale on the same day. -/
def mixedRun : List Action :=
  [.transitionSession .running,
   .processBar (flatBar "E1" "510300" .aShare ⟨1, 0, 0⟩ 10 ten_pos),
   .submitDecision (singleDecision "D-1" (securityTarget "510300" "equity_etf" .etf 100
     hundred_nonneg)) ⟨1, 0, 0⟩,
   .processBar (flatBar "E2" "510300" .aShare ⟨2, 1, 0⟩ 10 ten_pos),
   .submitDecision (singleDecision "D-2" (securityTarget "510300" "cross_border_etf" .etf 200
     (by norm_num))) ⟨2, 1, 0⟩,
   .processBar (flatBar "E3" "510300" .aShare ⟨2, 2, 0⟩ 10 ten_pos),
   .submitDecision (singleDecision "D-3" (securityTarget "510300" "cross_border_etf" .etf 100
     hundred_nonneg)) ⟨2, 2, 0⟩,
   .processBar (flatBar "E4" "510300" .aShare ⟨2, 3, 0⟩ 10 ten_pos)]

end FinDashboard.Simulation
