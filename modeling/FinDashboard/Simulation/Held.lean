import FinDashboard.Simulation.CallRules

/-!
# Holdings cover the open sales

What a position has frozen is what the active orders that close it have reserved, and the
position, its lots and their maturity cover what is frozen and what is available. A class of
days says which lots count; it is chosen by the result that uses the invariant.
-/

namespace FinDashboard.Simulation

open List

variable {quantity : ℚ}

section Agreement

open Ledger

def Order.holding (order : Order) : ℚ := if order.isActive then order.reservedQuantity else 0

def reservedOf (orders : List Order) (key : String × PositionSide) : ℚ :=
  total (fun order => if order.key = key then order.holding else 0) orders

def counted (days : Date → Bool) (lots : List Lot) : ℚ :=
  total Lot.quantity (lots.filter fun lot => days lot.availableOn)

/-- The quantity of a position that covers what is frozen and available. -/
def Position.capacity (days : Date → Bool) (position : Position) : ℚ :=
  if position.instrumentType = .futures then position.totalQuantity else counted days position.lots

/-- A position whose lots cover it, and which covers what it has frozen and available. -/
structure Position.Backed (futures : String → Bool) (days : Date → Bool) (position : Position) :
    Prop where
  futures_iff : position.instrumentType = .futures ↔ futures position.symbol = true
  available_nonneg : 0 ≤ position.availableQuantity
  frozen_nonneg : 0 ≤ position.frozenQuantity
  covered : position.availableQuantity + position.frozenQuantity ≤ position.capacity days
  lots_pos : ∀ lot ∈ position.lots, 0 < lot.quantity
  lots_total : position.instrumentType ≠ .futures →
    total Lot.quantity position.lots = position.totalQuantity

/-- The reservation of an open order. -/
structure Order.Reserves (order : Order) : Prop where
  remaining_nonneg : 0 ≤ order.remaining
  opening : order.positionEffect = .open → order.reservedQuantity = 0
  closing : order.positionEffect = .close → order.reservedQuantity = order.remaining

/-- Orders and positions agree on what is reserved. -/
structure Held (futures : String → Bool) (days : Date → Bool) (st : State) : Prop where
  futures_iff : ∀ order ∈ st.orders,
    order.instrumentType = .futures ↔ futures order.symbol = true
  reserves : ∀ order ∈ st.orders, order.isActive = true → order.Reserves
  positioned : ∀ order ∈ st.orders, order.isActive = true → order.positionEffect = .close →
    ∃ position ∈ st.positions, position.key = order.key
  backed : ∀ position ∈ st.positions, position.Backed futures days
  frozen : ∀ position ∈ st.positions, position.frozenQuantity = reservedOf st.orders position.key

variable {futures : String → Bool} {days : Date → Bool} {st st' : State} {order order' : Order}
  {key : String × PositionSide}

theorem Order.Reserves.holding_nonneg (h : order.Reserves) : 0 ≤ order.reservedQuantity := by
  cases heffect : order.positionEffect with
  | «open» => exact (h.opening heffect).ge
  | close =>
    rw [h.closing heffect]
    exact h.remaining_nonneg

theorem holding_of_active (h : order.isActive = true) : order.holding = order.reservedQuantity :=
  if_pos h

theorem holding_of_ended (h : order.isActive = false) : order.holding = 0 := by
  unfold Order.holding
  rw [h]
  rfl

/-- The rows of the position change by what the one row changes. -/
theorem reservedOf_set {orders : List Order} (hlisted : orders[order.orderId]? = some order)
    (hkey : order'.key = order.key) : reservedOf (orders.set order.orderId order') key =
      reservedOf orders key + if order.key = key then order'.holding - order.holding else 0 := by
  have hexchange : reservedOf (orders.set order.orderId order') key +
      (if order.key = key then order.holding else 0) =
        reservedOf orders key + if order'.key = key then order'.holding else 0 :=
    total_set_add hlisted
  rw [hkey] at hexchange
  by_cases hthis : order.key = key
  · rw [if_pos hthis, if_pos hthis] at hexchange
    rw [if_pos hthis]
    linarith
  · rw [if_neg hthis, if_neg hthis] at hexchange
    rw [if_neg hthis]
    linarith

theorem reservedOf_append (orders : List Order) : reservedOf (orders ++ [order]) key =
    reservedOf orders key + if order.key = key then order.holding else 0 := by
  unfold reservedOf
  rw [total_append, total_cons, total_nil, add_zero]

theorem reservedOf_eq_total (orders : List Order) :
    total Order.reservedQuantity ((orders.filter Order.isActive).filter fun order => order.key = key) =
      reservedOf orders key := by
  rw [total_filter, total_filter]
  apply total_congr
  intro order _
  unfold Order.holding
  by_cases hactive : order.isActive = true <;> by_cases hthis : order.key = key <;>
    simp [hactive, hthis]

variable {days' : Date → Bool}

section Counted

variable {lots : List Lot}

theorem counted_le_counted (hpos : ∀ lot ∈ lots, 0 < lot.quantity)
    (hdays : ∀ day, days day = true → days' day = true) : counted days lots ≤ counted days' lots := by
  unfold counted
  rw [total_filter, total_filter]
  apply total_le_total
  intro lot hlot
  by_cases hday : days lot.availableOn = true
  · rw [if_pos hday, if_pos (hdays _ hday)]
  · rw [if_neg hday]
    split_ifs
    · exact (hpos lot hlot).le
    · exact le_refl 0

theorem counted_all (lots : List Lot) : counted (fun _ => true) lots = total Lot.quantity lots := by
  unfold counted
  rw [filter_true]

theorem counted_le_total (hpos : ∀ lot ∈ lots, 0 < lot.quantity) :
    counted days lots ≤ total Lot.quantity lots := by
  rw [← counted_all]
  exact counted_le_counted hpos fun _ _ => rfl

theorem matured_eq_counted (lots : List Lot) (today : Date) :
    matured lots today = counted (fun day => day ≤ today) lots := rfl

theorem counted_append (lots' : List Lot) :
    counted days (lots ++ lots') = counted days lots + counted days lots' := by
  unfold counted
  rw [filter_append, total_append]

theorem counted_nonneg (hpos : ∀ lot ∈ lots, 0 < lot.quantity) : 0 ≤ counted days lots :=
  total_nonneg fun lot hlot => (hpos lot (mem_of_mem_filter hlot)).le

theorem counted_le_consumeLots (hpos : ∀ lot ∈ lots, 0 < lot.quantity)
    (hquantity : 0 ≤ quantity) (hcovered : quantity ≤ total Lot.quantity lots) :
    counted days lots ≤ counted days (consumeLots lots quantity).1 + quantity := by
  have htaken := consumeLots_weighted (fun lot => days lot.availableOn) (fun _ _ => rfl) hpos hquantity
  rw [consumeLots_covered hpos hquantity hcovered, sub_zero] at htaken
  exact htaken

end Counted

namespace Position.Backed

variable {position position' : Position}

/-- The fields that are not bookkeeping decide. -/
theorem congr (h : position.Backed futures days) (hsymbol : position'.symbol = position.symbol)
    (htype : position'.instrumentType = position.instrumentType)
    (havailable : position'.availableQuantity = position.availableQuantity)
    (hfrozen : position'.frozenQuantity = position.frozenQuantity)
    (htotal : position'.totalQuantity = position.totalQuantity)
    (hlots : position'.lots = position.lots) : position'.Backed futures days := by
  have hcapacity : position'.capacity days = position.capacity days := by
    unfold Position.capacity
    rw [htype, htotal, hlots]
  constructor
  · rw [htype, hsymbol]
    exact h.futures_iff
  · rw [havailable]
    exact h.available_nonneg
  · rw [hfrozen]
    exact h.frozen_nonneg
  · rw [havailable, hfrozen, hcapacity]
    exact h.covered
  · rw [hlots]
    exact h.lots_pos
  · rw [htype, hlots, htotal]
    exact h.lots_total

theorem capacity_le (h : position.Backed futures days) :
    position.capacity days ≤ position.totalQuantity := by
  unfold Position.capacity
  by_cases hfutures : position.instrumentType = .futures
  · rw [if_pos hfutures]
  · rw [if_neg hfutures, ← h.lots_total hfutures]
    exact counted_le_total h.lots_pos

theorem frozen_le_capacity (h : position.Backed futures days) :
    position.frozenQuantity ≤ position.capacity days := by
  have hcovered := h.covered
  have havailable := h.available_nonneg
  linarith

theorem frozen_le (h : position.Backed futures days) : position.frozenQuantity ≤ position.totalQuantity :=
  h.frozen_le_capacity.trans h.capacity_le

theorem total_nonneg (h : position.Backed futures days) : 0 ≤ position.totalQuantity :=
  h.frozen_nonneg.trans h.frozen_le

theorem mono (h : position.Backed futures days)
    (hdays : ∀ day, days day = true → days' day = true) : position.Backed futures days' where
  futures_iff := h.futures_iff
  available_nonneg := h.available_nonneg
  frozen_nonneg := h.frozen_nonneg
  lots_pos := h.lots_pos
  lots_total := h.lots_total
  covered := by
    have hcovered := h.covered
    have hmore : position.capacity days ≤ position.capacity days' := by
      unfold Position.capacity
      by_cases hfutures : position.instrumentType = .futures
      · rw [if_pos hfutures, if_pos hfutures]
      · rw [if_neg hfutures, if_neg hfutures]
        exact counted_le_counted h.lots_pos hdays
    linarith

end Position.Backed

theorem maturedQuantity_le {position : Position} {today : Date}
    (hpos : ∀ lot ∈ position.lots, 0 < lot.quantity) (htoday : ∀ day, day ≤ today → days day = true) :
    position.maturedQuantity today ≤ position.capacity days := by
  unfold Position.maturedQuantity Position.capacity
  by_cases hfutures : position.instrumentType = .futures
  · rw [if_pos hfutures, if_pos hfutures]
  · rw [if_neg hfutures, if_neg hfutures, matured_eq_counted]
    exact counted_le_counted hpos fun day hday => htoday day (by simpa using hday)

/-- What is available after a recount: the counted quantity that is not frozen. -/
theorem available_add_le {base frozen capacity : ℚ} (hbase : base ≤ capacity)
    (hfrozen : frozen ≤ capacity) : max 0 (base - frozen) + frozen ≤ capacity := by
  obtain hle | hle := le_total (base - frozen) 0
  · rw [max_eq_left hle]
    linarith
  · rw [max_eq_right hle]
    linarith

namespace Held

theorem mono (h : Held futures days st)
    (hdays : ∀ day, days day = true → days' day = true) : Held futures days' st :=
  ⟨h.futures_iff, h.reserves, h.positioned, fun position hmem => (h.backed position hmem).mono hdays,
    h.frozen⟩

theorem of_same (h : Held futures days st) (hsame : SameBooks st st') : Held futures days st' := by
  constructor
  · rw [hsame.orders]
    exact h.futures_iff
  · rw [hsame.orders]
    exact h.reserves
  · rw [hsame.orders, hsame.positions]
    exact h.positioned
  · rw [hsame.positions]
    exact h.backed
  · rw [hsame.orders, hsame.positions]
    exact h.frozen

theorem reservedOf_eq_zero (h : Held futures days st)
    (hnone : ∀ position ∈ st.positions, position.key ≠ key) : reservedOf st.orders key = 0 := by
  have hzero : ∀ order ∈ st.orders, (if order.key = key then order.holding else 0) = 0 := by
    intro order hmem
    by_cases hthis : order.key = key
    · rw [if_pos hthis]
      by_cases hactive : order.isActive = true
      · rw [holding_of_active hactive]
        cases heffect : order.positionEffect with
        | «open» => exact (h.reserves order hmem hactive).opening heffect
        | close =>
          obtain ⟨position, hposition, hkey⟩ := h.positioned order hmem hactive heffect
          exact absurd (hkey.trans hthis) (hnone position hposition)
      · exact holding_of_ended (Bool.eq_false_iff.mpr hactive)
    · rw [if_neg hthis]
  exact total_zero hzero

theorem reserved_le_frozen (h : Held futures days st) (hmem : order ∈ st.orders)
    (hactive : order.isActive = true) {position : Position} (hposition : position ∈ st.positions)
    (hkey : position.key = order.key) : order.reservedQuantity ≤ position.frozenQuantity := by
  rw [h.frozen position hposition, hkey]
  have hnonneg : ∀ other ∈ st.orders, 0 ≤ if other.key = order.key then other.holding else 0 := by
    intro other hother
    split_ifs
    · by_cases hlive : other.isActive = true
      · rw [holding_of_active hlive]
        exact (h.reserves other hother hlive).holding_nonneg
      · rw [holding_of_ended (Bool.eq_false_iff.mpr hlive)]
    · exact le_refl 0
  have hle := le_total_of_mem hnonneg hmem
  rw [if_pos rfl, holding_of_active hactive] at hle
  exact hle

theorem rewrite (h : Held futures days st) (hlisted : st.Listed order)
    (hterms : order.SameTerms order') (hreserves : order'.isActive = true → order'.Reserves)
    (hlive : order'.isActive = true → order.isActive = true)
    (horders : st'.orders = st.orders.set order.orderId order')
    (hkeys : st'.positions.map Position.key = st.positions.map Position.key)
    (hpositions : ∀ position ∈ st'.positions, (position ∈ st.positions ∧ position.key ≠ order.key) ∨
        (position.key = order.key ∧ position.Backed futures days ∧ position.frozenQuantity =
          reservedOf st.orders order.key + (order'.holding - order.holding))) :
    Held futures days st' := by
  have hmem : ∀ other ∈ st'.orders, other = order' ∨ other ∈ st.orders := by
    intro other hother
    rw [horders] at hother
    exact (mem_or_eq_of_mem_set hother).symm
  have hclosing : ∀ other ∈ st.orders, other.isActive = true → other.positionEffect = .close →
      ∃ position ∈ st'.positions, position.key = other.key := by
    intro other hother hactive heffect
    have hthere : other.key ∈ st'.positions.map Position.key := by
      rw [hkeys]
      exact mem_map.mpr (h.positioned other hother hactive heffect)
    exact mem_map.mp hthere
  constructor
  · intro other hother
    obtain rfl | hold := hmem other hother
    · rw [hterms.instrumentType, hterms.symbol]
      exact h.futures_iff order hlisted.mem
    · exact h.futures_iff other hold
  · intro other hother hactive
    obtain rfl | hold := hmem other hother
    · exact hreserves hactive
    · exact h.reserves other hold hactive
  · intro other hother hactive heffect
    obtain rfl | hold := hmem other hother
    · rw [hterms.positionEffect] at heffect
      rw [hterms.key]
      exact hclosing order hlisted.mem (hlive hactive) heffect
    · exact hclosing other hold hactive heffect
  · intro position hposition
    obtain ⟨hold, -⟩ | ⟨-, hbacked, -⟩ := hpositions position hposition
    · exact h.backed position hold
    · exact hbacked
  · intro position hposition
    rw [horders, reservedOf_set hlisted hterms.key]
    obtain ⟨hold, hkey⟩ | ⟨hkey, -, hfrozen⟩ := hpositions position hposition
    · rw [if_neg (Ne.symm hkey), add_zero]
      exact h.frozen position hold
    · rw [if_pos hkey.symm, hkey]
      exact hfrozen

theorem add (h : Held futures days st)
    (hclass : order.instrumentType = .futures ↔ futures order.symbol = true)
    (hreserves : order.isActive = true → order.Reserves)
    (hpositioned : order.isActive = true → order.positionEffect = .close →
      ∃ position ∈ st.positions, position.key = order.key) (horders : st'.orders = st.orders ++ [order])
    (hkeys : st'.positions.map Position.key = st.positions.map Position.key)
    (hpositions : ∀ position ∈ st'.positions,
      (position ∈ st.positions ∧ (position.key = order.key → order.holding = 0)) ∨
        (position.key = order.key ∧ position.Backed futures days ∧
          position.frozenQuantity = reservedOf st.orders order.key + order.holding)) :
    Held futures days st' := by
  have hmem : ∀ other ∈ st'.orders, other = order ∨ other ∈ st.orders := by
    intro other hother
    rw [horders] at hother
    obtain hold | hnew := mem_append.mp hother
    · exact Or.inr hold
    · exact Or.inl (mem_singleton.mp hnew)
  have hexists : ∀ other : Order, (∃ position ∈ st.positions, position.key = other.key) →
      ∃ position ∈ st'.positions, position.key = other.key := by
    intro other hother
    have hthere : other.key ∈ st'.positions.map Position.key := by
      rw [hkeys]
      exact mem_map.mpr hother
    exact mem_map.mp hthere
  constructor
  · intro other hother
    obtain rfl | hold := hmem other hother
    · exact hclass
    · exact h.futures_iff other hold
  · intro other hother hactive
    obtain rfl | hold := hmem other hother
    · exact hreserves hactive
    · exact h.reserves other hold hactive
  · intro other hother hactive heffect
    obtain rfl | hold := hmem other hother
    · exact hexists _ (hpositioned hactive heffect)
    · exact hexists _ (h.positioned other hold hactive heffect)
  · intro position hposition
    obtain ⟨hold, -⟩ | ⟨-, hbacked, -⟩ := hpositions position hposition
    · exact h.backed position hold
    · exact hbacked
  · intro position hposition
    rw [horders, reservedOf_append]
    obtain ⟨hold, hnothing⟩ | ⟨hkey, -, hfrozen⟩ := hpositions position hposition
    · rw [h.frozen position hold]
      by_cases hthis : order.key = position.key
      · rw [if_pos hthis, hnothing hthis.symm, add_zero]
      · rw [if_neg hthis, add_zero]
    · rw [if_pos hkey.symm, hkey]
      exact hfrozen

end Held

end Agreement

/-!
## The pieces of the service keep the holdings

Ending, filling, marking, placing and recovering keep the agreement of orders and positions.
In particular a closing fill never fails: its quantity is frozen, so the position and its
lots cover it.
-/

section Pieces

open Ledger

variable {money : ℚ → ℚ} {futures : String → Bool} {days : Date → Bool} {st st' : State}
  {order : Order} {position : Position}

theorem Position.Backed.release (h : position.Backed futures days)
    (hnonneg : 0 ≤ order.reservedQuantity) (hle : order.reservedQuantity ≤ position.frozenQuantity) :
    (releaseQuantity position order).1.Backed futures days ∧
      (releaseQuantity position order).1.frozenQuantity =
        position.frozenQuantity - order.reservedQuantity := by
  have hcovered := h.covered
  have havailable := h.available_nonneg
  unfold releaseQuantity
  by_cases hpos : 0 < order.reservedQuantity
  · rw [if_pos hpos]
    simp only [min_eq_left hle]
    refine ⟨⟨h.futures_iff, ?_, ?_, ?_, h.lots_pos, h.lots_total⟩, trivial⟩
    · exact le_min h.total_nonneg (add_nonneg havailable hnonneg)
    · exact sub_nonneg.mpr hle
    · have hmin : min position.totalQuantity (position.availableQuantity + order.reservedQuantity) ≤
          position.availableQuantity + order.reservedQuantity := min_le_right _ _
      change min position.totalQuantity (position.availableQuantity + order.reservedQuantity) +
        (position.frozenQuantity - order.reservedQuantity) ≤ position.capacity days
      linarith
  · rw [if_neg hpos]
    have hzero := le_antisymm (not_lt.mp hpos) hnonneg
    exact ⟨h, by simp [hzero]⟩

theorem isActive_of_ended {order : Order} (h : order.status = .rejected ∨ order.status = .cancelled) :
    order.isActive = false := by
  obtain h | h := h <;> simp [Order.isActive, h]

theorem closeOrder_positions (st : State) (order : Order) (status : OrderStatus) (reason : Reason) :
    ∀ position ∈ (closeOrder st order status reason).positions,
      (position ∈ st.positions ∧ position.key ≠ order.key) ∨
        ∃ old ∈ st.positions, old.key = order.key ∧ position = (releaseQuantity old order).1 := by
  intro position hmem
  rw [closeOrder_eq] at hmem
  cases hposition : st.getPosition order.key with
  | none =>
    simp only [hposition] at hmem
    exact Or.inl ⟨hmem, key_ne_of_getPosition hposition position hmem⟩
  | some old =>
    simp only [hposition] at hmem
    obtain ⟨hold, hkey⟩ := mem_of_getPosition hposition
    obtain rfl | ⟨hother, hne⟩ := mem_overwrite hmem
    · exact Or.inr ⟨old, hold, hkey, rfl⟩
    · rw [releaseQuantity_key, hkey] at hne
      exact Or.inl ⟨hother, hne⟩

theorem Held.closeOrder (h : Held futures days st) (hlisted : st.Listed order)
    (hactive : order.isActive = true) {status : OrderStatus}
    (hends : status = .rejected ∨ status = .cancelled) (reason : Reason) :
    Held futures days (closeOrder st order status reason) := by
  have hended : (endedOrder st order status reason).isActive = false := by
    apply isActive_of_ended
    rw [endedOrder_status]
    exact hends
  apply h.rewrite hlisted (endedOrder_terms st order status reason)
  · intro hlive
    exact absurd (hended.symm.trans hlive) Bool.false_ne_true
  · exact fun _ => hactive
  · exact closeOrder_orders st order status reason
  · exact closeOrder_positions_keys st order status reason
  · intro position hmem
    obtain hother | ⟨old, hold, hkey, rfl⟩ := closeOrder_positions st order status reason position hmem
    · exact Or.inl hother
    · right
      obtain ⟨hbacked, hfrozen⟩ := (h.backed old hold).release
        (h.reserves order hlisted.mem hactive).holding_nonneg
        (h.reserved_le_frozen hlisted.mem hactive hold hkey)
      refine ⟨(releaseQuantity_key old order).trans hkey, hbacked, ?_⟩
      rw [hfrozen, h.frozen old hold, hkey, holding_of_ended hended, holding_of_active hactive]
      ring

theorem emptyPosition_backed (hclass : order.instrumentType = .futures ↔ futures order.symbol = true)
    (price : ℚ) : (emptyPosition order price).Backed futures days where
  futures_iff := hclass
  available_nonneg := le_refl 0
  frozen_nonneg := le_refl 0
  covered := by
    have hnothing : (emptyPosition order price).capacity days = 0 := by
      unfold Position.capacity
      split_ifs <;> rfl
    rw [hnothing]
    exact (add_zero 0).le
  lots_pos := by
    intro lot hlot
    cases hlot
  lots_total := fun _ => rfl

theorem Held.ensurePosition (h : Held futures days st) (hmem : order ∈ st.orders) (price : ℚ) :
    Held futures days (ensurePosition st order price).1 := by
  obtain ⟨position, -, heq⟩ | ⟨hnone, heq⟩ := ensurePosition_cases st order price
  · rw [heq]
    exact h
  · rw [heq]
    have hnothing := h.reservedOf_eq_zero (key_ne_of_getPosition hnone)
    refine ⟨h.futures_iff, h.reserves, ?_, ?_, ?_⟩
    · intro other hother hactive heffect
      obtain ⟨position, hold, hkey⟩ := h.positioned other hother hactive heffect
      exact ⟨position, mem_addPosition.mpr (Or.inr hold), hkey⟩
    · intro position hposition
      obtain rfl | hold := mem_addPosition.mp hposition
      · exact emptyPosition_backed (h.futures_iff order hmem) price
      · exact h.backed position hold
    · intro position hposition
      obtain rfl | hold := mem_addPosition.mp hposition
      · exact hnothing.symm
      · exact h.frozen position hold

theorem openedPosition_of_security {e : Execution} (hrule : e.rule.isFutures = false)
    (hsecurity : position.instrumentType ≠ .futures) :
    openedPosition money position e = { position with
      averagePrice := (openedPosition money position e).averagePrice
      totalQuantity := position.totalQuantity + e.quantity
      lots := position.lots ++ [⟨e.quantity, e.availableOn⟩]
      availableQuantity := max 0 (matured (position.lots ++ [⟨e.quantity, e.availableOn⟩])
        e.filledAt.date - position.frozenQuantity) } := by
  simp [openedPosition, increasePosition, Position.maturedQuantity, hrule, hsecurity]

theorem openedPosition_of_futures {e : Execution} (hrule : e.rule.isFutures = true) :
    openedPosition money position e = { position with
      marginUsed := position.marginUsed + e.margin money
      averagePrice := (openedPosition money position e).averagePrice
      lastSettlementPrice := (openedPosition money position e).lastSettlementPrice
      totalQuantity := position.totalQuantity + e.quantity
      availableQuantity := max 0 (position.totalQuantity + e.quantity - position.frozenQuantity) } := by
  simp [openedPosition, increasePosition, hrule]

theorem bought_pos {lots : List Lot} {lot : Lot} (hpos : ∀ lot ∈ lots, 0 < lot.quantity)
    (hlot : 0 < lot.quantity) : ∀ other ∈ lots ++ [lot], 0 < other.quantity := by
  intro other hother
  obtain hold | hnew := mem_append.mp hother
  · exact hpos other hold
  · rw [mem_singleton.mp hnew]
    exact hlot

variable (money) in
theorem Position.Backed.opened {e : Execution} (h : position.Backed futures days)
    (hclass : e.rule.isFutures = decide (position.instrumentType = .futures)) (hpos : 0 < e.quantity)
    (htoday : ∀ day, day ≤ e.filledAt.date → days day = true) :
    (openedPosition money position e).Backed futures days ∧
      (openedPosition money position e).frozenQuantity = position.frozenQuantity := by
  by_cases hfutures : position.instrumentType = .futures
  · have hrule : e.rule.isFutures = true := by simp [hclass, hfutures]
    have hfrozen := h.frozen_le
    rw [openedPosition_of_futures hrule]
    refine ⟨⟨h.futures_iff, le_max_left _ _, h.frozen_nonneg, ?_, h.lots_pos, ?_⟩, rfl⟩
    · simp only [Position.capacity, if_pos hfutures]
      exact available_add_le (le_refl _) (by linarith)
    · intro hsecurity
      exact absurd hfutures hsecurity
  · have hrule : e.rule.isFutures = false := by simp [hclass, hfutures]
    have hlots := bought_pos h.lots_pos (show 0 < Lot.quantity ⟨e.quantity, e.availableOn⟩ from hpos)
    have hfrozen := h.frozen_le_capacity
    have hold : position.capacity days = counted days position.lots := if_neg hfutures
    have hnew : 0 ≤ counted days [⟨e.quantity, e.availableOn⟩] := by
      apply counted_nonneg
      intro lot hlot
      rw [mem_singleton.mp hlot]
      exact hpos
    rw [openedPosition_of_security hrule hfutures]
    refine ⟨⟨h.futures_iff, le_max_left _ _, h.frozen_nonneg, ?_, hlots, ?_⟩, rfl⟩
    · simp only [Position.capacity, if_neg hfutures]
      apply available_add_le
      · rw [matured_eq_counted]
        exact counted_le_counted hlots fun day hday => htoday day (by simpa using hday)
      · rw [counted_append]
        linarith
    · intro hsecurity
      rw [total_append, h.lots_total hsecurity]
      simp

theorem Position.Backed.lotsAfterSale (h : position.Backed futures days)
    (hpos : 0 < quantity) (htotal : quantity ≤ position.totalQuantity) :
    lotsAfterSale position quantity (!decide (position.instrumentType = .futures)) =
      .ok (if position.instrumentType = .futures then position.lots
        else (consumeLots position.lots quantity).1) := by
  unfold Simulation.lotsAfterSale
  by_cases hfutures : position.instrumentType = .futures
  · simp [hfutures]
  · have hcovered : (consumeLots position.lots quantity).2 = 0 := by
      apply consumeLots_covered h.lots_pos hpos.le
      rw [h.lots_total hfutures]
      exact htotal
    simp [hfutures, hcovered]

theorem Position.Backed.sold {asOf : Date} (h : position.Backed futures days)
    (hpos : 0 < quantity) (hroom : position.frozenQuantity + quantity ≤ position.capacity days)
    (htoday : ∀ day, day ≤ asOf → days day = true) : ∃ sold, decreasePosition position quantity asOf
          (!decide (position.instrumentType = .futures)) = .ok sold ∧
      sold.Backed futures days ∧ sold.frozenQuantity = position.frozenQuantity := by
  have hfrozen := h.frozen_nonneg
  have hcapacity := h.capacity_le
  have htotal : quantity ≤ position.totalQuantity := by linarith
  have hlots := h.lotsAfterSale hpos htotal
  refine ⟨_, decreasePosition_of_covered htotal hlots, ?_⟩
  unfold soldPosition
  by_cases hempty : position.totalQuantity - quantity ≤ 0
  · have hnothing : position.frozenQuantity = 0 := by linarith
    simp only [if_pos hempty]
    refine ⟨⟨h.futures_iff, le_refl 0, le_refl 0, ?_, ?_, fun _ => rfl⟩, hnothing.symm⟩
    · simp only [Position.capacity]
      split_ifs <;> exact (add_zero 0).le
    · intro lot hlot
      cases hlot
  · simp only [if_neg hempty]
    by_cases hfutures : position.instrumentType = .futures
    · have hall : position.capacity days = position.totalQuantity := if_pos hfutures
      simp only [if_pos hfutures]
      refine ⟨⟨h.futures_iff, le_max_left _ _, hfrozen, ?_, h.lots_pos, ?_⟩, trivial⟩
      · simp only [Position.capacity, hfutures, decide_true, Bool.not_true, Bool.false_eq_true,
          if_false, if_true]
        exact available_add_le (le_refl _) (by linarith)
      · intro hsecurity
        exact absurd hfutures hsecurity
    · have hcounted : position.capacity days = counted days position.lots := if_neg hfutures
      have hcovered : quantity ≤ total Lot.quantity position.lots := by
        rw [h.lots_total hfutures]
        exact htotal
      have hkept : ∀ lot ∈ (consumeLots position.lots quantity).1, 0 < lot.quantity :=
        consumeLots_pos h.lots_pos
      have htaken : counted days position.lots ≤ _ :=
        counted_le_consumeLots h.lots_pos hpos.le hcovered
      have hsum := consumeLots_total quantity h.lots_pos
      rw [consumeLots_covered h.lots_pos hpos.le hcovered, h.lots_total hfutures] at hsum
      simp only [if_neg hfutures]
      refine ⟨⟨h.futures_iff, le_max_left _ _, hfrozen, ?_, hkept, ?_⟩, trivial⟩
      · simp only [Position.capacity, hfutures, decide_false, Bool.not_false, if_true, if_false]
        apply available_add_le
        · simp only [Position.maturedQuantity, if_neg hfutures]
          rw [matured_eq_counted]
          exact counted_le_counted hkept fun day hday => htoday day (by simpa using hday)
        · linarith
      · intro _
        linarith

/-- The position a closing fill reduces is the position with the quantity released. -/
theorem Position.Backed.unfrozen {quantity margin : ℚ} (h : position.Backed futures days)
    (hquantity : 0 ≤ quantity) (hfrozen : quantity ≤ position.frozenQuantity) :
    Position.Backed futures days { position with
      frozenQuantity := position.frozenQuantity - quantity, marginUsed := margin } where
  futures_iff := h.futures_iff
  available_nonneg := h.available_nonneg
  frozen_nonneg := sub_nonneg.mpr hfrozen
  lots_pos := h.lots_pos
  lots_total := h.lots_total
  covered := by
    have hcovered := h.covered
    change position.availableQuantity + (position.frozenQuantity - quantity) ≤ position.capacity days
    linarith

section Fill

variable {e : Execution}

/-- The position a fill works on. -/
abbrev filledPosition (st : State) (order : Order) (e : Execution) : Position :=
  (ensurePosition st order e.fillPrice).2

variable (h : Held futures days st) (hlisted : st.Listed order) (hactive : order.isActive = true)
  (hfits : e.Fits order)

include h hlisted in
theorem Held.filledPosition_backed : (filledPosition st order e).Backed futures days ∧
    (filledPosition st order e).frozenQuantity = reservedOf st.orders order.key := by
  have hensured := h.ensurePosition hlisted.mem e.fillPrice
  obtain ⟨hmem, hkey⟩ := ensurePosition_spec st order e.fillPrice
  have hfrozen := hensured.frozen _ hmem
  rw [hkey, ensurePosition_eq] at hfrozen
  exact ⟨hensured.backed _ hmem, hfrozen⟩

include h hlisted hfits in
theorem Held.isFutures_eq :
    e.rule.isFutures = decide ((filledPosition st order e).instrumentType = .futures) := by
  have hbacked := (h.filledPosition_backed (e := e) hlisted).1
  obtain ⟨-, hkey⟩ := ensurePosition_spec st order e.fillPrice
  have hsymbol : (filledPosition st order e).symbol = order.symbol := congrArg Prod.fst hkey
  rw [isFutures_of_resolveRule hfits.rule, decide_eq_decide, h.futures_iff order hlisted.mem,
    hbacked.futures_iff, hsymbol]

include h hlisted hactive hfits in
theorem Held.quantity_le_frozen (hclose : order.positionEffect = .close) :
    e.quantity ≤ (filledPosition st order e).frozenQuantity := by
  have hensured := h.ensurePosition hlisted.mem e.fillPrice
  obtain ⟨hmem, hkey⟩ := ensurePosition_spec st order e.fillPrice
  have hthere : order ∈ (Simulation.ensurePosition st order e.fillPrice).1.orders := by
    rw [ensurePosition_eq]
    exact hlisted.mem
  calc e.quantity ≤ order.remaining := hfits.quantity_le
    _ = order.reservedQuantity := ((h.reserves order hlisted.mem hactive).closing hclose).symm
    _ ≤ _ := hensured.reserved_le_frozen hthere hactive hmem hkey

include h hlisted hactive hfits in
theorem Held.unfrozen_eq (hclose : order.positionEffect = .close) :
    unfrozenPosition money (fillRows st order e) e = { filledPosition st order e with
      frozenQuantity := (filledPosition st order e).frozenQuantity - e.quantity
      marginUsed := (unfrozenPosition money (fillRows st order e) e).marginUsed } := by
  have hreserved := (h.reserves order hlisted.mem hactive).closing hclose
  have hmin : min order.reservedQuantity e.quantity = e.quantity := by
    rw [hreserved]
    exact min_eq_right hfits.quantity_le
  have hmax : max 0 ((filledPosition st order e).frozenQuantity - e.quantity) =
      (filledPosition st order e).frozenQuantity - e.quantity :=
    max_eq_right (sub_nonneg.mpr (h.quantity_le_frozen hlisted hactive hfits hclose))
  simp only [unfrozenPosition, fillRows, hmin, hmax]

variable (money) in
include h hlisted hactive hfits in
theorem Held.closeFill_sold (hclose : order.positionEffect = .close)
    (htoday : ∀ day, day ≤ e.filledAt.date → days day = true) :
    ∃ sold : Position, closeFill money (fillRows st order e) e =
        (closedRows money (fillRows st order e) e { sold with
          realizedPnl := sold.realizedPnl + realizedBy money (fillRows st order e).position e }, none) ∧
      decreasePosition (unfrozenPosition money (fillRows st order e) e) e.quantity e.filledAt.date
        (!e.rule.isFutures) = .ok sold ∧
      sold.Backed futures days ∧
      sold.frozenQuantity = (filledPosition st order e).frozenQuantity - e.quantity := by
  have hbacked := (h.filledPosition_backed (e := e) hlisted).1
  have hfrozen := h.quantity_le_frozen hlisted hactive hfits hclose
  have hunfrozen : (unfrozenPosition money (fillRows st order e) e).Backed futures days := by
    rw [h.unfrozen_eq hlisted hactive hfits hclose]
    exact hbacked.unfrozen hfits.quantity_pos.le hfrozen
  have hleft : (unfrozenPosition money (fillRows st order e) e).frozenQuantity =
      (filledPosition st order e).frozenQuantity - e.quantity := by
    rw [h.unfrozen_eq hlisted hactive hfits hclose]
  have hroom : (unfrozenPosition money (fillRows st order e) e).frozenQuantity + e.quantity ≤
      (unfrozenPosition money (fillRows st order e) e).capacity days := by
    rw [hleft, sub_add_cancel, h.unfrozen_eq hlisted hactive hfits hclose]
    exact hbacked.frozen_le_capacity
  obtain ⟨sold, hsold, hsoldBacked, hsoldFrozen⟩ := hunfrozen.sold hfits.quantity_pos hroom htoday
  have hclass : (!decide ((unfrozenPosition money (fillRows st order e) e).instrumentType =
      .futures)) = !e.rule.isFutures := by
    rw [h.isFutures_eq hlisted hfits]
    rfl
  rw [hclass] at hsold
  refine ⟨sold, ?_, hsold, hsoldBacked, hsoldFrozen.trans hleft⟩
  rw [closeFill_eq, hsold]

include h hlisted hactive hfits in
theorem Held.bookRows_booked (htoday : ∀ day, day ≤ e.filledAt.date → days day = true)
    {rows : FillRows} (hbook : bookRows money (fillRows st order e) e = (rows, none)) :
    rows.position.Backed futures days ∧ (order.positionEffect = .open → rows.order.reservedQuantity = 0 ∧
        rows.position.frozenQuantity = (filledPosition st order e).frozenQuantity) ∧
      (order.positionEffect = .close → rows.order.reservedQuantity = order.remaining - e.quantity ∧
        rows.position.frozenQuantity = (filledPosition st order e).frozenQuantity - e.quantity) := by
  have hbacked := (h.filledPosition_backed (e := e) hlisted).1
  have hreserves := h.reserves order hlisted.mem hactive
  unfold bookRows at hbook
  cases heffect : order.positionEffect with
  | «open» =>
    simp only [fillRows_order, heffect] at hbook
    obtain ⟨hopened, hfrozen⟩ := hbacked.opened money (h.isFutures_eq hlisted hfits)
      hfits.quantity_pos htoday
    rw [(openFill_booked hbook).2]
    refine ⟨hopened, fun _ => ⟨?_, hfrozen⟩, nofun⟩
    exact hreserves.opening heffect
  | close =>
    simp only [fillRows_order, heffect] at hbook
    obtain ⟨sold, hsold, -, hsoldBacked, hsoldFrozen⟩ :=
      h.closeFill_sold money hlisted hactive hfits heffect htoday
    rw [hsold] at hbook
    rw [← (Prod.mk.inj hbook).1]
    refine ⟨hsoldBacked.congr rfl rfl rfl rfl rfl rfl, nofun, fun _ => ⟨?_, hsoldFrozen⟩⟩
    change order.reservedQuantity - min order.reservedQuantity e.quantity = _
    rw [hreserves.closing heffect, min_eq_right hfits.quantity_le]

end Fill

end Pieces

end FinDashboard.Simulation
