import FinDashboard.Simulation.Clock

/-!
# Lots and the day of the clock

What the fills of a day bought under a T+1 rule stands in the lots that may not be sold on that
day. A sale consumes the oldest lots first, whether or not they may be sold, so this lasts as
long as the frozen quantity is covered by the lots in front of the first immature one.
-/

namespace FinDashboard.Simulation

open Ledger List

variable {money : ℚ → ℚ} {futures : String → Bool} {day : Date} {days : Date → Bool}
  {st st' : State} {order order' : Order} {position : Position} {e : Execution}

/-- The quantity of the lots before the first one that has not matured. -/
def front (lots : List Lot) (day : Date) : ℚ :=
  total Lot.quantity (lots.takeWhile fun lot => lot.availableOn ≤ day)

section Front

variable {lots : List Lot} {quantity : ℚ}

theorem front_le_append {lot : Lot} (hlot : 0 < lot.quantity) :
    front lots day ≤ front (lots ++ [lot]) day := by
  induction lots with
  | nil =>
    have hnonneg : 0 ≤ front [lot] day := by
      apply total_nonneg
      intro other hother
      rw [mem_singleton.mp ((takeWhile_sublist _).mem hother)]
      exact hlot.le
    exact hnonneg
  | cons first rest ih =>
    unfold front at ih ⊢
    by_cases hday : first.availableOn ≤ day
    · simp only [cons_append, hday, decide_true, takeWhile_cons_of_pos, total_cons]
      linarith
    · simp [cons_append, hday]

/-- A sale that the front covers leaves the immature lots alone and takes its quantity from the
front. -/
theorem consumeLots_front (hpos : ∀ lot ∈ lots, 0 < lot.quantity) (hquantity : 0 ≤ quantity)
    (hfront : quantity ≤ front lots day) :
    immature (consumeLots lots quantity).1 day = immature lots day ∧
      front lots day - quantity ≤ front (consumeLots lots quantity).1 day := by
  induction lots generalizing quantity with
  | nil => exact ⟨rfl, sub_nonpos.mpr hquantity⟩
  | cons lot rest ih =>
    have hlot := hpos lot mem_cons_self
    have hrest : ∀ other ∈ rest, 0 < other.quantity := fun other hother =>
      hpos other (mem_cons_of_mem _ hother)
    by_cases hday : lot.availableOn ≤ day
    · have hfirst : front (lot :: rest) day = lot.quantity + front rest day := by
        simp [front, hday]
      have hcovered : quantity - min lot.quantity quantity ≤ front rest day := by
        have hnonneg : 0 ≤ front rest day := total_nonneg fun other hother =>
          (hrest other ((takeWhile_sublist _).mem hother)).le
        rw [hfirst] at hfront
        obtain hle | hle := le_total lot.quantity quantity
        · rw [min_eq_left hle]
          linarith
        · rw [min_eq_right hle, sub_self]
          exact hnonneg
      obtain ⟨himmature, hleft⟩ := ih hrest (sub_nonneg.mpr (min_le_right _ _)) hcovered
      have hlate : ¬day < lot.availableOn := not_lt.mpr hday
      have htaken : min lot.quantity quantity ≤ lot.quantity := min_le_left _ _
      unfold consumeLots
      simp only
      split_ifs with hkept
      · have hagain : ∀ kept : List Lot, front
            ({ lot with quantity := lot.quantity - min lot.quantity quantity } :: kept) day =
              lot.quantity - min lot.quantity quantity + front kept day := by
          intro kept
          simp [front, hday]
        rw [hfirst, hagain]
        refine ⟨by simp [immature_cons, himmature, hlate], by linarith⟩
      · rw [hfirst]
        refine ⟨by simp [immature_cons, himmature, hlate], by linarith⟩
    · -- nothing stands in front, so nothing is sold
      have hnone : front (lot :: rest) day = 0 := by simp [front, hday]
      have hzero := le_antisymm (hnone ▸ hfront) hquantity
      rw [hzero, consumeLots_zero hpos]
      exact ⟨rfl, (sub_zero _).le⟩

/-- The lots that are kept carry the days of the lots. -/
theorem mem_consumeLots {kept : Lot} (hkept : kept ∈ (consumeLots lots quantity).1) :
    ∃ lot ∈ lots, lot.availableOn = kept.availableOn := by
  induction lots generalizing quantity with
  | nil => cases hkept
  | cons lot rest ih =>
    have hlater : kept ∈ (consumeLots rest (quantity - min lot.quantity quantity)).1 →
        ∃ other ∈ lot :: rest, other.availableOn = kept.availableOn := by
      intro hthere
      obtain ⟨other, hother, hsame⟩ := ih hthere
      exact ⟨other, mem_cons_of_mem _ hother, hsame⟩
    unfold consumeLots at hkept
    simp only at hkept
    split_ifs at hkept
    · obtain rfl | hthere := mem_cons.mp hkept
      · exact ⟨lot, mem_cons_self, rfl⟩
      · exact hlater hthere
    · exact hlater hkept

theorem consumeLots_all (hpos : ∀ lot ∈ lots, 0 < lot.quantity) :
    (consumeLots lots (total Lot.quantity lots)).1 = [] := by
  have hnonneg : 0 ≤ total Lot.quantity lots := total_nonneg fun lot hlot => (hpos lot hlot).le
  have hsum := consumeLots_total (total Lot.quantity lots) hpos
  rw [consumeLots_covered hpos hnonneg (le_refl _)] at hsum
  have hkept : ∀ lot ∈ (consumeLots lots (total Lot.quantity lots)).1, 0 < lot.quantity :=
    consumeLots_pos hpos
  generalize (consumeLots lots (total Lot.quantity lots)).1 = kept at hsum hkept
  cases kept with
  | nil => rfl
  | cons lot rest =>
    have hlot : 0 < lot.quantity := hkept lot mem_cons_self
    have hrest : 0 ≤ total Lot.quantity rest := total_nonneg fun other hother =>
      (hkept other (mem_cons_of_mem _ hother)).le
    rw [total_cons] at hsum
    linarith

end Front

theorem settledPosition_lots (money : ℚ → ℚ) (rows : FillRows) (e : Execution) :
    (settledPosition money rows e).lots = rows.position.lots := by
  have hmarked : (rows.position.marked money e).lots = rows.position.lots := by
    unfold Position.marked
    split_ifs <;> rfl
  have hreleased : ∀ (position : Position) (order : Order),
      (releaseQuantity position order).1.lots = position.lots := by
    intro position order
    unfold releaseQuantity
    split_ifs <;> rfl
  unfold settledPosition
  split_ifs
  · rw [hreleased, hmarked]
  · exact hmarked

theorem soldPosition_lots {quantity : ℚ} {asOf : Date} {trackLot : Bool} {sold : Position}
    (hpos : ∀ lot ∈ position.lots, 0 < lot.quantity)
    (htotal : total Lot.quantity position.lots = position.totalQuantity) (htrack : trackLot = true)
    (h : decreasePosition position quantity asOf trackLot = .ok sold) :
    sold.lots = (consumeLots position.lots quantity).1 := by
  obtain ⟨hquantity, lots, hlots, rfl⟩ := decreasePosition_ok h
  have hkept : lots = (consumeLots position.lots quantity).1 := by
    unfold lotsAfterSale at hlots
    rw [htrack, if_pos rfl] at hlots
    simp only at hlots
    split_ifs at hlots
    exact (Except.ok.inj hlots).symm
  unfold soldPosition
  by_cases hempty : position.totalQuantity - quantity ≤ 0
  · have hall : quantity = total Lot.quantity position.lots := by
      rw [htotal]
      linarith
    simp only [if_pos hempty]
    rw [hall, consumeLots_all hpos]
  · simp only [if_neg hempty]
    exact hkept

theorem Held.booked_lots (h : Held futures days st) (hlisted : st.Listed order)
    (hfits : e.Fits order) (hsecurity : (filledPosition st order e).instrumentType ≠ .futures)
    {rows : FillRows} (hbook : bookRows money (fillRows st order e) e = (rows, none)) :
    rows.position.lots = if order.positionEffect = .open then
        (filledPosition st order e).lots ++ [⟨e.quantity, e.availableOn⟩]
      else (consumeLots (filledPosition st order e).lots e.quantity).1 := by
  have hbacked := (h.filledPosition_backed (e := e) hlisted).1
  have hrule : e.rule.isFutures = false := by
    rw [h.isFutures_eq hlisted hfits]
    exact decide_eq_false hsecurity
  unfold bookRows at hbook
  cases heffect : order.positionEffect with
  | «open» =>
    simp only [fillRows_order, heffect] at hbook
    rw [(openFill_booked hbook).2, if_pos rfl]
    simp only [openedRows, fillRows]
    rw [openedPosition_of_security hrule hsecurity]
  | close =>
    simp only [fillRows_order, heffect] at hbook
    obtain ⟨sold, hsold, hrows⟩ := closeFill_booked hbook
    rw [hrows]
    simp only [reduceCtorEq, if_false]
    have hkept : sold.lots =
        (consumeLots (unfrozenPosition money (fillRows st order e) e).lots e.quantity).1 := by
      apply soldPosition_lots _ _ _ hsold
      · exact hbacked.lots_pos
      · exact hbacked.lots_total hsecurity
      · rw [hrule]
        rfl
    exact hkept

/-- Whether the rule of an order keeps a purchase for a day. -/
def Order.enforcesTPlus1 (order : Order) : Bool :=
  match order.resolveRule with
  | .ok rule => rule.rule.enforceTPlus1
  | .error _ => false

/-- A purchase of the position on the day, by an order whose rule keeps it for a day. -/
def State.TPlus1Purchase (st : State) (key : String × PositionSide) (day : Date) (fill : Fill) : Prop :=
  (fill.symbol, fill.positionSide) = key ∧ fill.positionEffect = .open ∧ fill.filledAt.date = day ∧
    (st.orders[fill.orderId]?).any Order.enforcesTPlus1 = true

instance (st : State) (key : String × PositionSide) (day : Date) (fill : Fill) :
    Decidable (st.TPlus1Purchase key day fill) :=
  inferInstanceAs (Decidable (_ ∧ _ ∧ _ ∧ _))

def State.boughtUnderTPlus1 (st : State) (key : String × PositionSide) (day : Date) : ℚ :=
  total Fill.quantity (st.fills.filter fun fill => st.TPlus1Purchase key day fill)

/-- The fills, the lots and the day of the clock. -/
structure Dated (day : Date) (st : State) : Prop where
  kept : ∀ position ∈ st.positions,
    immature position.lots day = st.boughtUnderTPlus1 position.key day
  horizon : ∀ position ∈ st.positions, ∀ lot ∈ position.lots, lot.availableOn ≤ day + 1
  past : ∀ fill ∈ st.fills, fill.filledAt.date ≤ day
  ordered : ∀ fill ∈ st.fills, fill.orderId < st.orders.length
  positioned : ∀ fill ∈ st.fills, ∃ position ∈ st.positions,
    position.key = (fill.symbol, fill.positionSide)

/-- The fills of the same rows are purchases under the same rules. -/
theorem boughtUnderTPlus1_congr (hfills : st'.fills = st.fills)
    (horders : ∀ fill ∈ st.fills, (st'.orders[fill.orderId]?).any Order.enforcesTPlus1 =
      (st.orders[fill.orderId]?).any Order.enforcesTPlus1) (key : String × PositionSide) :
    st'.boughtUnderTPlus1 key day = st.boughtUnderTPlus1 key day := by
  unfold State.boughtUnderTPlus1
  rw [hfills]
  congr 1
  apply filter_congr
  intro fill hfill
  apply decide_eq_decide.mpr
  unfold State.TPlus1Purchase
  rw [horders fill hfill]

theorem enforcesTPlus1_set (hlisted : st.Listed order) (hterms : order.SameTerms order') (orderId : ℕ) :
    ((st.orders.set order.orderId order')[orderId]?).any Order.enforcesTPlus1 =
      (st.orders[orderId]?).any Order.enforcesTPlus1 := by
  by_cases hthis : order.orderId = orderId
  · obtain ⟨hlt, -⟩ := List.getElem?_eq_some_iff.mp hlisted
    have hsame : order'.enforcesTPlus1 = order.enforcesTPlus1 := by
      unfold Order.enforcesTPlus1
      rw [hterms.resolveRule]
    unfold State.Listed at hlisted
    rw [← hthis, List.getElem?_set_self hlt, hlisted]
    exact hsame
  · rw [List.getElem?_set_ne hthis]

namespace Dated

/-- On a later day all lots of the day before have matured and nothing has been bought. -/
theorem later {day' : Date} (h : Dated day st) (hlater : day ≤ day') : Dated day' st := by
  obtain rfl | hnext := hlater.eq_or_lt
  · exact h
  · refine ⟨?_, ?_, ?_, h.ordered, h.positioned⟩
    · intro position hmem
      have hmature : immature position.lots day' = 0 := by
        unfold immature
        rw [filter_eq_nil_iff.mpr]
        · rfl
        · intro lot hlot hlate
          have hbound := h.horizon position hmem lot hlot
          have hlate' := of_decide_eq_true hlate
          unfold Date at *
          omega
      have hnone : st.boughtUnderTPlus1 position.key day' = 0 := by
        unfold State.boughtUnderTPlus1
        rw [filter_eq_nil_iff.mpr]
        · rfl
        · intro fill hfill hbought
          have hdate := (of_decide_eq_true hbought).2.2.1
          have hpast := h.past fill hfill
          rw [hdate] at hpast
          exact absurd hpast (not_le.mpr hnext)
      rw [hmature, hnone]
    · intro position hmem lot hlot
      have hbound := h.horizon position hmem lot hlot
      unfold Date at *
      omega
    · intro fill hfill
      exact (h.past fill hfill).trans hlater

theorem of_rows (h : Dated day st) (hfills : st'.fills = st.fills)
    (horders : ∀ fill ∈ st.fills, (st'.orders[fill.orderId]?).any Order.enforcesTPlus1 =
      (st.orders[fill.orderId]?).any Order.enforcesTPlus1)
    (hlength : st.orders.length ≤ st'.orders.length)
    (hkeys : ∀ position ∈ st.positions, ∃ other ∈ st'.positions, other.key = position.key)
    (hpositions : ∀ position ∈ st'.positions, ∃ old ∈ st.positions,
      old.key = position.key ∧ old.lots = position.lots) : Dated day st' := by
  constructor
  · intro position hmem
    obtain ⟨old, hold, hkey, hlots⟩ := hpositions position hmem
    rw [boughtUnderTPlus1_congr hfills horders, ← hkey, ← hlots]
    exact h.kept old hold
  · intro position hmem
    obtain ⟨old, hold, -, hlots⟩ := hpositions position hmem
    rw [← hlots]
    exact h.horizon old hold
  · rw [hfills]
    exact h.past
  · rw [hfills]
    exact fun fill hfill => (h.ordered fill hfill).trans_le hlength
  · rw [hfills]
    intro fill hfill
    obtain ⟨position, hmem, hkey⟩ := h.positioned fill hfill
    obtain ⟨other, hother, hsame⟩ := hkeys position hmem
    exact ⟨other, hother, hsame.trans hkey⟩

end Dated

end FinDashboard.Simulation
