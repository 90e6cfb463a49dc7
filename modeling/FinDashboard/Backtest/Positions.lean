import FinDashboard.Backtest.MatchingRules
import FinDashboard.Simulation.Maturity

/-!
# Positions of the paper broker

A position is changed by fills only. Purchases are appended as lots; a sale takes lots from the
front until its quantity is covered.
-/

namespace FinDashboard.Backtest

open Ledger Simulation
open Simulation (Date)

/-- `_PositionLot`, with `available_date` as the day from which the lot may be sold. -/
abbrev PositionLot := Simulation.Lot

structure InternalPosition where
  symbol : Symbol
  rule : AssetRule
  total : ℚ := 0
  available : ℚ := 0
  averagePrice : ℚ := 0
  lots : List PositionLot := []

/-- The loop of `apply_sell`: the lots that are kept and what they could not cover. -/
def sellLots : List PositionLot → ℚ → List PositionLot × ℚ
  | [], remainingToSell => ([], remainingToSell)
  | lot :: rest, remainingToSell =>
      if remainingToSell ≤ 0 then (lot :: rest, remainingToSell)
      else if lot.quantity ≤ remainingToSell then sellLots rest (remainingToSell - lot.quantity)
      else ({ lot with quantity := lot.quantity - remainingToSell } :: rest, 0)

namespace InternalPosition

def refreshAvailable (position : InternalPosition) (tradeDate : Date) : InternalPosition :=
  { position with available := matured position.lots tradeDate }

/-- `apply_sell`: the position afterwards and the quantity that was sold. -/
def applySell (position : InternalPosition) (quantity : ℚ) (tradeDate : Date) : InternalPosition × ℚ :=
  let (lots, remainingToSell) := sellLots position.lots quantity
  let sold : InternalPosition :=
    { position with lots, total := Ledger.total Simulation.Lot.quantity lots }
  (sold.refreshAvailable tradeDate, quantity - remainingToSell)

/-- A purchase joins the lots; it counts into the average price. -/
def applyBuy (position : InternalPosition) (quantity price : ℚ) (tradeDate : Date)
    (enforceTPlus1 : Bool) : InternalPosition :=
  let availableDate := if enforceTPlus1 then tradeDate + 1 else tradeDate
  let total := position.total + quantity
  let averagePrice := if 0 < total then
      (position.total * position.averagePrice + quantity * price) / total
    else position.averagePrice
  let bought : InternalPosition :=
    { position with averagePrice, lots := position.lots ++ [⟨quantity, availableDate⟩], total }
  bought.refreshAvailable tradeDate

def applyFill (position : InternalPosition) (side : Side) (quantity price : ℚ) (tradeDate : Date)
    (enforceTPlus1 : Bool) : InternalPosition :=
  match side with
  | .buy => position.applyBuy quantity price tradeDate enforceTPlus1
  | .sell =>
      let sold := (position.applySell quantity tradeDate).1
      if sold.total ≤ 0 then { sold with averagePrice := 0 } else sold

end InternalPosition

/-- `_positions`, by code. -/
abbrev Positions := List (String × InternalPosition)

/-- `_apply_fill_to_position`; the first fill of a code opens its position. -/
def applyFillToPosition (positions : Positions) (symbol : Symbol) (rule : AssetRule) (side : Side)
    (quantity price : ℚ) (tradeDate : Date) (enforceTPlus1 : Bool) : Positions :=
  let position := (find symbol.code positions).getD { symbol, rule }
  assign symbol.code (position.applyFill side quantity price tradeDate enforceTPlus1) positions

def refreshPositions (positions : Positions) (tradeDate : Date) : Positions :=
  positions.map fun entry => (entry.1, entry.2.refreshAvailable tradeDate)

/-- `_available_for`: the quantity that may be sold, with the position refreshed. -/
def availableFor (positions : Positions) (code : String) (onDate : Date) : Positions × ℚ :=
  match find code positions with
  | none => (positions, 0)
  | some position =>
      let refreshed := position.refreshAvailable onDate
      (assign code refreshed positions, refreshed.available)

section Lots

variable {lots : List PositionLot} {quantity price : ℚ} {position : InternalPosition}
  {day later : Date} {code other : String} {positions : Positions} {enforceTPlus1 : Bool}

/-- The loop stops once its quantity is covered; lots are positive, so it takes what the loop of
the simulation takes. -/
theorem sellLots_eq_consumeLots (hpos : ∀ lot ∈ lots, 0 < lot.quantity) (hquantity : 0 ≤ quantity) :
    sellLots lots quantity = consumeLots lots quantity := by
  induction lots generalizing quantity with
  | nil => rfl
  | cons lot rest ih =>
    have hlot := hpos lot List.mem_cons_self
    have hrest : ∀ later ∈ rest, 0 < later.quantity := fun later hlater =>
      hpos later (List.mem_cons_of_mem _ hlater)
    by_cases hzero : quantity ≤ 0
    · have hnone := le_antisymm hzero hquantity
      rw [hnone, consumeLots_zero hpos]
      simp [sellLots]
    · unfold sellLots consumeLots
      rw [if_neg hzero]
      by_cases hwhole : lot.quantity ≤ quantity
      · have hleft := sub_nonneg.mpr hwhole
        rw [if_pos hwhole, min_eq_left hwhole, ih hrest hleft]
        simp
      · have hpart : quantity < lot.quantity := not_le.mp hwhole
        rw [if_neg hwhole, min_eq_right hpart.le]
        simp [consumeLots_zero hrest, hpart]

theorem matured_consumeLots (hpos : ∀ lot ∈ lots, 0 < lot.quantity)
    (horder : Simulation.InMaturityOrder lots) (hquantity : 0 ≤ quantity)
    (hmatured : quantity ≤ matured lots day) (hlater : day ≤ later) :
    matured (consumeLots lots quantity).1 later =
      matured lots later - quantity := by
  have hthen := hmatured.trans (matured_mono hpos hlater)
  have hcovered := consumeLots_covered hpos hquantity (hthen.trans (matured_le_total hpos))
  have hkept := consumeLots_total quantity hpos
  have himmature := consumeLots_immature hpos hquantity horder hthen
  have hsum : matured lots later + immature lots later =
      Ledger.total Simulation.Lot.quantity lots := matured_add_immature
  have hsum' : matured (consumeLots lots quantity).1 later +
      immature (consumeLots lots quantity).1 later =
        Ledger.total Simulation.Lot.quantity (consumeLots lots quantity).1 :=
    matured_add_immature
  rw [hcovered] at hkept
  linarith

theorem applyFill_buy_lots : (position.applyFill .buy quantity price day enforceTPlus1).lots =
    position.lots ++ [⟨quantity, if enforceTPlus1 then day + 1 else day⟩] := rfl

theorem applyFill_sell_lots (hpos : ∀ lot ∈ position.lots, 0 < lot.quantity) (hquantity : 0 ≤ quantity) :
    (position.applyFill .sell quantity price day enforceTPlus1).lots =
      (consumeLots position.lots quantity).1 := by
  have hsold : (position.applySell quantity day).1.lots =
      (consumeLots position.lots quantity).1 := by
    rw [← sellLots_eq_consumeLots hpos hquantity]
    rfl
  unfold InternalPosition.applyFill
  simp only
  split_ifs
  · exact hsold
  · exact hsold

theorem applyFill_total {side : Side}
    (htotal : position.total = Ledger.total Simulation.Lot.quantity position.lots) :
    (position.applyFill side quantity price day enforceTPlus1).total =
      Ledger.total Simulation.Lot.quantity
        (position.applyFill side quantity price day enforceTPlus1).lots := by
  cases side with
  | buy =>
    have hbought : (position.applyFill .buy quantity price day enforceTPlus1).total =
        position.total + quantity := rfl
    rw [applyFill_buy_lots, total_append, hbought, htotal]
    simp
  | sell =>
    unfold InternalPosition.applyFill
    simp only
    split_ifs <;> rfl

def lotsOf (positions : Positions) (code : String) : List PositionLot :=
  ((find code positions).map InternalPosition.lots).getD []

@[simp] theorem lotsOf_assign : lotsOf (assign other position positions) code =
      if other = code then position.lots else lotsOf positions code := by
  unfold lotsOf
  rw [find_assign]
  split_ifs <;> rfl

theorem availableFor_eq :
    (availableFor positions code day).2 = matured (lotsOf positions code) day := by
  unfold availableFor lotsOf
  cases find code positions <;> rfl

variable (positions : Positions)

theorem heldPosition_lots (symbol : Symbol) (rule : AssetRule) :
    ((find symbol.code positions).getD { symbol, rule }).lots = lotsOf positions symbol.code := by
  unfold lotsOf
  cases find symbol.code positions <;> rfl

theorem lotsOf_bought (symbol : Symbol) (rule : AssetRule) (code : String) :
    lotsOf (applyFillToPosition positions symbol rule .buy quantity price day enforceTPlus1) code =
      if symbol.code = code then
        lotsOf positions code ++ [⟨quantity, if enforceTPlus1 then day + 1 else day⟩]
      else lotsOf positions code := by
  unfold applyFillToPosition
  simp only [lotsOf_assign, applyFill_buy_lots, heldPosition_lots]
  by_cases hcode : symbol.code = code
  · rw [if_pos hcode, if_pos hcode, hcode]
  · rw [if_neg hcode, if_neg hcode]

theorem lotsOf_sold (symbol : Symbol) (rule : AssetRule) (code : String)
    (hpos : ∀ lot ∈ lotsOf positions symbol.code, 0 < lot.quantity) (hquantity : 0 ≤ quantity) :
    lotsOf (applyFillToPosition positions symbol rule .sell quantity price day enforceTPlus1) code =
      if symbol.code = code then (consumeLots (lotsOf positions code) quantity).1
      else lotsOf positions code := by
  have hheld := heldPosition_lots positions symbol rule
  unfold applyFillToPosition
  simp only [lotsOf_assign]
  split_ifs with hcode
  · rw [applyFill_sell_lots _ hquantity, hheld, hcode]
    rw [hheld]
    exact hpos
  · rfl

end Lots

end FinDashboard.Backtest
