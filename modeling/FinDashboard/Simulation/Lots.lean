import FinDashboard.Simulation.Contracts

/-!
# Lots and positions

A position keeps its purchases as lots, each with the day from which it may be sold. Sales
consume the lots in the order in which they were bought.
-/

namespace FinDashboard.Simulation

open Ledger List

/-- The quantity of the lots that may be sold on a day. -/
def matured (lots : List Lot) (onDate : Date) : ℚ :=
  total Lot.quantity (lots.filter fun lot => lot.availableOn ≤ onDate)

/-- The quantity of the lots that may not be sold yet. -/
def immature (lots : List Lot) (onDate : Date) : ℚ :=
  total Lot.quantity (lots.filter fun lot => onDate < lot.availableOn)

/-- `_matured_quantity`: contracts are available at once. -/
def Position.maturedQuantity (position : Position) (onDate : Date) : ℚ :=
  if position.instrumentType = .futures then position.totalQuantity
  else matured position.lots onDate

def increasePosition (money : ℚ → ℚ) (position : Position) (quantity price : ℚ)
    (availableOn asOf : Date) (trackLot : Bool) : Position :=
  let newTotal := position.totalQuantity + quantity
  let averagePrice := if 0 < newTotal then
      money ((position.averagePrice * position.totalQuantity + price * quantity) / newTotal)
    else 0
  if trackLot then
    let bought : Position := { position with
      averagePrice, totalQuantity := newTotal, lots := position.lots ++ [⟨quantity, availableOn⟩] }
    { bought with availableQuantity := max 0 (bought.maturedQuantity asOf - bought.frozenQuantity) }
  else { position with
    averagePrice, totalQuantity := newTotal,
    availableQuantity := max 0 (newTotal - position.frozenQuantity) }

/-- The loop of `_decrease_position`: the lots that are kept and what they could not cover. -/
def consumeLots : List Lot → ℚ → List Lot × ℚ
  | [], remaining => ([], remaining)
  | lot :: rest, remaining =>
      let consumed := min lot.quantity remaining
      let (kept, uncovered) := consumeLots rest (remaining - consumed)
      if 0 < lot.quantity - consumed then
        ({ lot with quantity := lot.quantity - consumed } :: kept, uncovered)
      else (kept, uncovered)

def lotsAfterSale (position : Position) (quantity : ℚ) (trackLot : Bool) :
    Except SimulationRiskError (List Lot) :=
  if trackLot then
    let (kept, uncovered) := consumeLots position.lots quantity
    if 0 < uncovered then .error ⟨.lotUnderflow, [.text "模拟持仓 lot 数量不足"]⟩ else .ok kept
  else .ok position.lots

def decreasePosition (position : Position) (quantity : ℚ) (asOf : Date) (trackLot : Bool) :
    Except SimulationRiskError Position :=
  if position.totalQuantity < quantity then
    .error ⟨.positionUnderflow, [.text "成交将导致模拟持仓小于 0"]⟩
  else match lotsAfterSale position quantity trackLot with
    | .error error => .error error
    | .ok lots =>
        let sold : Position := { position with lots, totalQuantity := position.totalQuantity - quantity }
        if sold.totalQuantity ≤ 0 then
          .ok { sold with totalQuantity := 0, averagePrice := 0, availableQuantity := 0,
                          frozenQuantity := 0, lots := [] }
        else
          let base := if trackLot then sold.maturedQuantity asOf else sold.totalQuantity
          .ok { sold with availableQuantity := max 0 (base - sold.frozenQuantity) }

section Sums

variable {lots : List Lot} {day : Date}

@[simp] theorem matured_nil : matured [] day = 0 := rfl

@[simp] theorem immature_nil : immature [] day = 0 := rfl

theorem matured_cons (lot : Lot) :
    matured (lot :: lots) day = (if lot.availableOn ≤ day then lot.quantity else 0) +
      matured lots day := by
  unfold matured
  rw [total_filter, total_filter, total_cons]
  simp

theorem immature_cons (lot : Lot) :
    immature (lot :: lots) day = (if day < lot.availableOn then lot.quantity else 0) +
      immature lots day := by
  unfold immature
  rw [total_filter, total_filter, total_cons]
  simp

theorem matured_append (lots' : List Lot) :
    matured (lots ++ lots') day = matured lots day + matured lots' day := by
  unfold matured
  rw [filter_append, total_append]

theorem immature_append (lots' : List Lot) :
    immature (lots ++ lots') day = immature lots day + immature lots' day := by
  unfold immature
  rw [filter_append, total_append]

theorem matured_add_immature : matured lots day + immature lots day = total Lot.quantity lots := by
  induction lots with
  | nil => simp
  | cons lot rest ih =>
    rw [matured_cons, immature_cons, total_cons, ← ih]
    by_cases h : lot.availableOn ≤ day
    · rw [if_pos h, if_neg (not_lt.mpr h)]
      ring
    · rw [if_neg h, if_pos (not_le.mp h)]
      ring

theorem matured_nonneg (hpos : ∀ lot ∈ lots, 0 < lot.quantity) : 0 ≤ matured lots day :=
  total_nonneg fun lot hlot => (hpos lot (mem_of_mem_filter hlot)).le

theorem immature_nonneg (hpos : ∀ lot ∈ lots, 0 < lot.quantity) : 0 ≤ immature lots day :=
  total_nonneg fun lot hlot => (hpos lot (mem_of_mem_filter hlot)).le

theorem matured_le_total (hpos : ∀ lot ∈ lots, 0 < lot.quantity) :
    matured lots day ≤ total Lot.quantity lots := by
  have hsum : matured lots day + immature lots day = total Lot.quantity lots :=
    matured_add_immature
  have hrest : 0 ≤ immature lots day := immature_nonneg hpos
  linarith

theorem matured_mono {later : Date} (hpos : ∀ lot ∈ lots, 0 < lot.quantity) (h : day ≤ later) :
    matured lots day ≤ matured lots later := by
  unfold matured
  rw [total_filter, total_filter]
  refine total_le_total fun lot hlot => ?_
  by_cases hday : lot.availableOn ≤ day
  · simp [hday, hday.trans h]
  · by_cases hlater : lot.availableOn ≤ later
    · simpa [hday, hlater] using (hpos lot hlot).le
    · simp [hday, hlater]

end Sums

section Consumption

variable {lots : List Lot} {quantity : ℚ} {day : Date}

/-- A sale out of no lot is not covered at all. -/
theorem consumeLots_zero (hpos : ∀ lot ∈ lots, 0 < lot.quantity) : consumeLots lots 0 = (lots, 0) := by
  induction lots with
  | nil => rfl
  | cons lot rest ih =>
    have hlot := hpos lot mem_cons_self
    have hmin := min_eq_right hlot.le
    have hrest := ih fun other hother => hpos other (mem_cons_of_mem _ hother)
    simp [consumeLots, hmin, hrest, hlot]

theorem consumeLots_covered (hpos : ∀ lot ∈ lots, 0 < lot.quantity) (hquantity : 0 ≤ quantity)
    (h : quantity ≤ total Lot.quantity lots) : (consumeLots lots quantity).2 = 0 := by
  induction lots generalizing quantity with
  | nil => exact le_antisymm h hquantity
  | cons lot rest ih =>
    have hrest : ∀ other ∈ rest, 0 < other.quantity := fun other hother =>
      hpos other (mem_cons_of_mem _ hother)
    have hleft : (consumeLots rest (quantity - min lot.quantity quantity)).2 = 0 := by
      refine ih hrest (sub_nonneg.mpr (min_le_right _ _)) ?_
      rw [total_cons] at h
      obtain hle | hle := le_total lot.quantity quantity
      · rw [min_eq_left hle]
        linarith
      · rw [min_eq_right hle, sub_self]
        exact total_nonneg fun other hother => (hrest other hother).le
    unfold consumeLots
    simp only
    split_ifs <;> exact hleft

theorem consumeLots_pos (hpos : ∀ lot ∈ lots, 0 < lot.quantity) :
    ∀ lot ∈ (consumeLots lots quantity).1, 0 < lot.quantity := by
  induction lots generalizing quantity with
  | nil =>
    intro lot hlot
    cases hlot
  | cons lot rest ih =>
    have hrest : ∀ kept ∈ (consumeLots rest (quantity - min lot.quantity quantity)).1,
        0 < kept.quantity := ih fun other hother => hpos other (mem_cons_of_mem _ hother)
    intro kept hkept
    unfold consumeLots at hkept
    simp only at hkept
    split_ifs at hkept with hleft
    · obtain rfl | hlater := mem_cons.mp hkept
      · exact hleft
      · exact hrest kept hlater
    · exact hrest kept hkept

theorem consumeLots_total (quantity : ℚ) (hpos : ∀ lot ∈ lots, 0 < lot.quantity) :
    total Lot.quantity (consumeLots lots quantity).1 + (quantity - (consumeLots lots quantity).2) =
      total Lot.quantity lots := by
  induction lots generalizing quantity with
  | nil => simp [consumeLots]
  | cons lot rest ih =>
    have hstep := ih (quantity - min lot.quantity quantity)
      fun other hother => hpos other (mem_cons_of_mem _ hother)
    have hkept : min lot.quantity quantity ≤ lot.quantity := min_le_left _ _
    unfold consumeLots
    simp only
    split_ifs with hleft
    · rw [total_cons, total_cons]
      linarith
    · rw [total_cons]
      linarith

theorem consumeLots_weighted (counts : Lot → Bool)
    (hcounts : ∀ lot quantity, counts { lot with quantity } = counts lot)
    (hpos : ∀ lot ∈ lots, 0 < lot.quantity) (hquantity : 0 ≤ quantity) :
    total Lot.quantity (lots.filter counts) ≤
      total Lot.quantity ((consumeLots lots quantity).1.filter counts) +
        (quantity - (consumeLots lots quantity).2) := by
  induction lots generalizing quantity with
  | nil => simp [consumeLots]
  | cons lot rest ih =>
    have hlot := hpos lot mem_cons_self
    have hrest : ∀ other ∈ rest, 0 < other.quantity := fun other hother =>
      hpos other (mem_cons_of_mem _ hother)
    have hstep := ih hrest (sub_nonneg.mpr (min_le_right lot.quantity quantity))
    have htaken := le_min hlot.le hquantity
    have hkept : min lot.quantity quantity ≤ lot.quantity := min_le_left _ _
    unfold consumeLots
    simp only
    by_cases hcount : counts lot = true
    · split_ifs with hleft
      · simp only [filter_cons, hcount, hcounts, if_true, total_cons]
        linarith
      · simp only [filter_cons, hcount, if_true, total_cons]
        linarith
    · split_ifs with hleft
      · simp only [filter_cons, hcount, hcounts, if_false, Bool.false_eq_true]
        linarith
      · simp only [filter_cons, hcount, if_false, Bool.false_eq_true]
        linarith

/-- Lots that stand in the order in which they mature. -/
def InMaturityOrder (lots : List Lot) : Prop :=
  lots.Pairwise fun earlier later => earlier.availableOn ≤ later.availableOn

theorem consumeLots_immature (hpos : ∀ lot ∈ lots, 0 < lot.quantity) (hquantity : 0 ≤ quantity)
    (horder : InMaturityOrder lots) (hmatured : quantity ≤ matured lots day) :
    immature (consumeLots lots quantity).1 day = immature lots day := by
  induction lots generalizing quantity with
  | nil => rfl
  | cons lot rest ih =>
    have hrest : ∀ other ∈ rest, 0 < other.quantity := fun other hother =>
      hpos other (mem_cons_of_mem _ hother)
    obtain ⟨hfirst, hlater⟩ := pairwise_cons.mp horder
    rw [matured_cons] at hmatured
    by_cases hmature : lot.availableOn ≤ day
    · rw [if_pos hmature] at hmatured
      have hcovered : quantity - min lot.quantity quantity ≤ matured rest day := by
        obtain hle | hle := le_total lot.quantity quantity
        · rw [min_eq_left hle]
          linarith
        · rw [min_eq_right hle, sub_self]
          exact matured_nonneg hrest
      have hstep := ih hrest (sub_nonneg.mpr (min_le_right lot.quantity quantity)) hlater hcovered
      unfold consumeLots
      simp only
      split_ifs <;> simp [immature_cons, hstep, not_lt.mpr hmature]
    · -- nothing is matured behind an immature lot, so nothing is sold
      have hnone : matured rest day = 0 := by
        unfold matured
        rw [filter_eq_nil_iff.mpr]
        · rfl
        · intro other hother hday
          exact hmature ((hfirst other hother).trans (by simpa using hday))
      rw [if_neg hmature, hnone, add_zero] at hmatured
      have hzero := le_antisymm hmatured hquantity
      rw [hzero, consumeLots_zero hpos]

theorem consumeLots_inMaturityOrder (horder : InMaturityOrder lots) :
    InMaturityOrder (consumeLots lots quantity).1 := by
  have hsub : ∀ (lots : List Lot) (quantity : ℚ),
      ((consumeLots lots quantity).1.map Lot.availableOn).Sublist (lots.map Lot.availableOn) := by
    intro lots
    induction lots with
    | nil => exact fun _ => List.Sublist.refl _
    | cons lot rest ih =>
      intro quantity
      unfold consumeLots
      simp only
      split_ifs
      · exact (ih _).cons_cons _
      · exact (ih _).cons _
  have hdays := pairwise_map.mpr horder
  exact pairwise_map.mp (hdays.sublist (hsub lots quantity))

end Consumption

end FinDashboard.Simulation
