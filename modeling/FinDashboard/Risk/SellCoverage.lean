import FinDashboard.Core.FillDelivery
import FinDashboard.Core.PositionRows
import FinDashboard.Core.CacheAgreement
import FinDashboard.Ledger.Totals

/-!
# Resting sales and the available position

The risk check compares one sale with the available quantity and forgets the sales that
already rest. What resting sales may still take from a code is its commitment: the unapplied
quantity of active sales and the booked but unapplied executions of settled ones. As long as
each sale is inserted on top of the commitment, the position covers all of them.
-/

namespace FinDashboard.Risk

open Async Broker Core Persistence Ledger List

variable {account : AccountId} {config : RiskConfig}

def isSellOf (account : AccountId) (code : String) (row : Order) : Bool :=
  row.accountId = account && row.side = .sell && row.symbol.code = code

/-- The remaining quantity of an active sale. -/
def remainingSell (account : AccountId) (code : String) (row : Order) : ℚ :=
  if isSellOf account code row && row.isActive then row.remainingQuantity else 0

/-- What a sale may still take from the position. -/
def sellObligation (account : AccountId) (code : String) (bookedFills appliedFills : List Fill)
    (row : Order) : ℚ :=
  if isSellOf account code row then
    (if row.isActive then row.quantity else filledOf bookedFills row.clientOrderId) -
      filledOf appliedFills row.clientOrderId
  else 0

/-- What all sales of a code may still take from the position. -/
def committed (s : Store) (account : AccountId) (code : String) : ℚ :=
  total (sellObligation account code s.bookedFills s.appliedFills) s.orders

/-- The active sales of no code exceed its available quantity. -/
def NoOversell (account : AccountId) (s : Store) : Prop :=
  ∀ code, total (remainingSell account code) s.orders ≤ availableQuantity s account code

def sellRoom (account : AccountId) : PointCondition
  | .addOrder order, _, s =>
      order.side = .sell → order.quantity + committed s account order.symbol.code ≤
        availableQuantity s account order.symbol.code
  | .updateCopy copy, _, s =>
      ∀ row ∈ s.orders, row.clientOrderId = copy.clientOrderId →
        row.filledQuantity = copy.filledQuantity
  | _, _, _ => True

instance : ∀ point reply s, Decidable (sellRoom account point reply s) := by
  intro point reply s
  apply Point.casesOn (motive := fun point => Decidable (sellRoom account point reply s)) point <;>
    intros <;> (unfold sellRoom; infer_instance)

/-- The broker session reports executions of the account's own orders. -/
def ownFills (account : AccountId) : PointCondition
  | .addFill fill, _, s =>
      ∀ row ∈ s.orders, row.clientOrderId = fill.clientOrderId → row.accountId = account
  | _, _, _ => True

instance : ∀ point reply s, Decidable (ownFills account point reply s) := by
  intro point reply s
  apply Point.casesOn (motive := fun point => Decidable (ownFills account point reply s)) point <;>
    intros <;> (unfold ownFills; infer_instance)

/-- The runs in which no code is oversold. -/
def sellCondition (account : AccountId) : PointCondition := fun point reply s =>
  (brokerLegal point reply s ∧ executionLegal point reply s ∧ ownFills account point reply s) ∧
    copiesActive point reply s ∧ sellRoom account point reply s

instance (point : Point) (reply : Reply) (s : Store) :
    Decidable (sellCondition account point reply s) :=
  inferInstanceAs (Decidable ((_ ∧ _ ∧ _) ∧ _ ∧ _))

/-- An object has executed no more than its stored fills, less those not booked yet, and all of
its quantity when it is `FILLED`. -/
structure FilledSound (fills unbooked : List Fill) (order : Order) : Prop where
  le : order.filledQuantity + filledOf unbooked order.clientOrderId ≤
    filledOf fills order.clientOrderId
  complete : order.status = .filled → order.quantity ≤ order.filledQuantity

/-- The invariant behind the coverage of sales, while the consumer is about to book `unbooked`
and to apply `unapplied`. -/
structure SellStage (account : AccountId) (unbooked unapplied : List Fill) (s : Store) : Prop where
  rows : RowsSettled s
  bookedFills : s.bookedFills = s.appliedFills ++ unapplied
  stored : ∀ fill ∈ s.bookedFills ++ unbooked, fill ∈ s.fills
  capacity : ∀ clientOrderId, filledOf s.bookedFills clientOrderId +
    filledOf unbooked clientOrderId ≤ filledOf s.fills clientOrderId
  quantity : ∀ row ∈ s.orders, filledOf s.fills row.clientOrderId ≤ row.quantity
  terms : ∀ row ∈ s.orders, ∀ order, s.inflight row.clientOrderId = some order →
    order.quantity = row.quantity
  cached : ∀ clientOrderId order, s.inflight clientOrderId = some order →
    FilledSound s.fills unbooked order ∧
      (order.isActive = true → filledOf s.bookedFills clientOrderId ≤ order.filledQuantity)
  row : ∀ row ∈ s.orders, FilledSound s.fills unbooked row ∧
    (row.isActive = true → filledOf s.appliedFills row.clientOrderId ≤ row.filledQuantity ∧
      (s.inflight row.clientOrderId = none →
        filledOf s.bookedFills row.clientOrderId ≤ row.filledQuantity))
  pending : ∀ fill ∈ unbooked ++ unapplied, 0 < fill.quantity ∧
    (s.inflight fill.clientOrderId).isSome ∧ ∃ row ∈ s.orders,
      row.clientOrderId = fill.clientOrderId ∧ row.accountId = account ∧ row.side = fill.side ∧
        row.symbol = fill.symbol
  positions : PositionsSound s
  covered : ∀ code, committed s account code ≤ availableQuantity s account code

theorem filledOf_nonneg {fills : List Fill} (h : ∀ fill ∈ fills, 0 < fill.quantity)
    (clientOrderId : ClientOrderId) : 0 ≤ filledOf fills clientOrderId := by
  refine sum_nonneg fun quantity hquantity => ?_
  obtain ⟨fill, hfill, rfl⟩ := mem_map.mp hquantity
  exact (h fill (mem_filter.mp hfill).1).le

namespace SellStage

variable {unbooked unapplied : List Fill} {s s' : Store}

theorem applied_le_booked (h : SellStage account unbooked unapplied s) (clientOrderId : ClientOrderId) :
    filledOf s.appliedFills clientOrderId ≤ filledOf s.bookedFills clientOrderId := by
  have hnonneg : 0 ≤ filledOf unapplied clientOrderId :=
    filledOf_nonneg (fun fill hfill => (h.pending fill (mem_append_right _ hfill)).1) _
  have hsum : filledOf s.bookedFills clientOrderId =
      filledOf s.appliedFills clientOrderId + filledOf unapplied clientOrderId := by
    rw [h.bookedFills]
    simp [filledOf, filter_append]
  linarith

theorem booked_le_quantity (h : SellStage account unbooked unapplied s) {row : Order}
    (hmem : row ∈ s.orders) : filledOf s.bookedFills row.clientOrderId ≤ row.quantity := by
  have hnonneg : 0 ≤ filledOf unbooked row.clientOrderId :=
    filledOf_nonneg (fun fill hfill => (h.pending fill (mem_append_left _ hfill)).1) _
  have hcapacity := h.capacity row.clientOrderId
  have hquantity := h.quantity row hmem
  linarith

/-- An active sale has at most its obligation remaining. -/
theorem noOversell (h : SellStage account unbooked unapplied s) : NoOversell account s := by
  intro code
  refine le_trans (total_le_total fun row hmem => ?_) (h.covered code)
  unfold remainingSell sellObligation
  by_cases hsell : isSellOf account code row = true
  · by_cases hactive : row.isActive = true
    · have happlied := ((h.row row hmem).2 hactive).1
      simp only [hsell, hactive, Bool.and_self, if_true, Order.remainingQuantity]
      linarith
    · have happlied := h.applied_le_booked row.clientOrderId
      simp only [hsell, hactive, Bool.and_false, Bool.false_eq_true, if_false, if_true]
      linarith
  · simp [hsell]

theorem of_eq (h : SellStage account unbooked unapplied s) (hinflight : s'.inflight = s.inflight)
    (horders : s'.orders = s.orders) (hfills : s'.fills = s.fills)
    (hbooked : s'.bookedFills = s.bookedFills) (happlied : s'.appliedFills = s.appliedFills)
    (hpositions : s'.positions = s.positions) : SellStage account unbooked unapplied s' where
  rows := h.rows.of_eq hinflight horders
  bookedFills := by rw [hbooked, happlied]; exact h.bookedFills
  stored := by rw [hbooked, hfills]; exact h.stored
  capacity := by rw [hbooked, hfills]; exact h.capacity
  quantity := by rw [horders, hfills]; exact h.quantity
  terms := by rw [horders, hinflight]; exact h.terms
  cached := by rw [hinflight, hfills, hbooked]; exact h.cached
  row := by rw [horders, hinflight, hfills, hbooked, happlied]; exact h.row
  pending := by rw [hinflight, horders]; exact h.pending
  positions := by unfold PositionsSound; rw [hpositions]; exact h.positions
  covered := by
    unfold committed availableQuantity listLocal
    rw [horders, hbooked, happlied, hpositions]
    exact h.covered

variable {clientOrderId : ClientOrderId} {order : Order}

/-- Caching an object that is as sound as the cell it replaces. -/
theorem ofCache (h : SellStage account unbooked unapplied s)
    (hrows : RowsSettled (s.cache clientOrderId order))
    (hterms : ∀ row ∈ s.orders, row.clientOrderId = clientOrderId → order.quantity = row.quantity)
    (hsound : FilledSound s.fills unbooked order) (hfilled : order.isActive = true →
      filledOf s.bookedFills clientOrderId ≤ order.filledQuantity) :
    SellStage account unbooked unapplied (s.cache clientOrderId order) where
  rows := hrows
  bookedFills := h.bookedFills
  stored := h.stored
  capacity := h.capacity
  quantity := h.quantity
  terms row hmem other hother := by
    by_cases heq : row.clientOrderId = clientOrderId
    · have hsame : order = other := by simpa [heq] using hother
      rw [← hsame]
      exact hterms row hmem heq
    · exact h.terms row hmem other (by simpa [heq] using hother)
  cached id other hother := by
    by_cases heq : id = clientOrderId
    · have hsame : order = other := by simpa [heq] using hother
      rw [← hsame, heq]
      exact ⟨hsound, hfilled⟩
    · exact h.cached id other (by simpa [heq] using hother)
  row row hmem := by
    obtain ⟨hrow, happlied⟩ := h.row row hmem
    refine ⟨hrow, fun hactive => ⟨(happlied hactive).1, fun hnone => ?_⟩⟩
    have hne : row.clientOrderId ≠ clientOrderId := by
      rintro heq
      simp [heq] at hnone
    exact (happlied hactive).2 (by simpa [hne] using hnone)
  pending fill hfill := by
    obtain ⟨hquantity, hcached, hrow⟩ := h.pending fill hfill
    exact ⟨hquantity, ConsumerRely.cached_cache hcached, hrow⟩
  positions := h.positions
  covered := h.covered

/-- The row written back by an object, and the terms it keeps. -/
theorem exists_row_persist {accountId : AccountId} {side : Side} {symbol : Symbol}
    (h : ∃ row ∈ s.orders, row.clientOrderId = clientOrderId ∧ row.accountId = accountId ∧
      row.side = side ∧ row.symbol = symbol) :
    ∃ row ∈ (persist s order).orders, row.clientOrderId = clientOrderId ∧
      row.accountId = accountId ∧ row.side = side ∧ row.symbol = symbol := by
  obtain ⟨row, hmem, hid, haccount, hside, hsymbol⟩ := h
  obtain ⟨haccount', hside', hsymbol', -, -, -⟩ := updateRow_terms order row
  refine ⟨_, mem_map.mpr ⟨row, hmem, rfl⟩, ?_, ?_, ?_, ?_⟩
  · rw [clientOrderId_updateRow, hid]
  · rw [haccount', haccount]
  · rw [hside', hside]
  · rw [hsymbol', hsymbol]

theorem sellObligation_updateRow_le (h : SellStage account unbooked unapplied s) {order row : Order}
    (hkeeps : KeepsSettled order s) (hmem : row ∈ s.orders) (code : String) :
    sellObligation account code s.bookedFills s.appliedFills
        (updateRow order.clientOrderId (writeState order) row) ≤
      sellObligation account code s.bookedFills s.appliedFills row := by
  obtain ⟨haccount, hside, hsymbol, -, -, hquantity⟩ := updateRow_terms order row
  have hactive := fun hnow => isActive_of_updateRow hkeeps hmem hnow
  have hbooked := h.booked_le_quantity hmem
  unfold sellObligation isSellOf
  rw [haccount, hside, hsymbol, hquantity, clientOrderId_updateRow]
  split
  · by_cases hnow : (updateRow order.clientOrderId (writeState order) row).isActive = true
    · have hbefore : row.isActive = true := hactive hnow
      rw [if_pos hnow, if_pos hbefore]
    · rw [if_neg hnow]
      split
      · linarith
      · exact le_refl _
  · exact le_refl _

/-- Writing back an object that is sound for its row. -/
theorem ofPersist (h : SellStage account unbooked unapplied s)
    (hrows : RowsSettled (persist s order)) (hkeeps : KeepsSettled order s)
    (hsound : order.filledQuantity + filledOf unbooked order.clientOrderId ≤
      filledOf s.fills order.clientOrderId)
    (hcomplete : ∀ row ∈ s.orders, row.clientOrderId = order.clientOrderId →
      order.status = .filled → row.quantity ≤ order.filledQuantity) (hactive : order.isActive = true →
      filledOf s.appliedFills order.clientOrderId ≤ order.filledQuantity ∧
        (s.inflight order.clientOrderId = none →
          filledOf s.bookedFills order.clientOrderId ≤ order.filledQuantity)) :
    SellStage account unbooked unapplied (persist s order) where
  rows := hrows
  bookedFills := h.bookedFills
  stored := h.stored
  capacity := h.capacity
  quantity row hmem := by
    obtain ⟨-, hold⟩ | ⟨-, old, hold, -, hwrite⟩ := mem_persist hmem
    · exact h.quantity row hold
    · rw [hwrite]
      exact h.quantity old hold
  terms row hmem other hother := by
    obtain ⟨-, hold⟩ | ⟨-, old, hold, -, hwrite⟩ := mem_persist hmem
    · exact h.terms row hold other hother
    · rw [hwrite] at hother ⊢
      exact h.terms old hold other hother
  cached := h.cached
  row row hmem := by
    obtain ⟨-, hold⟩ | ⟨hid, old, hold, holdid, hwrite⟩ := mem_persist hmem
    · exact h.row row hold
    · have hfilled : row.filledQuantity = order.filledQuantity := by rw [hwrite]; rfl
      have hstatus : row.status = order.status := by rw [hwrite]; rfl
      have hquantity : row.quantity = old.quantity := by rw [hwrite]; rfl
      refine ⟨⟨by rw [hid, hfilled]; exact hsound, fun hdone => ?_⟩, fun hrow => ?_⟩
      · rw [hquantity, hfilled]
        exact hcomplete old hold holdid (hstatus.symm.trans hdone)
      · have horder : order.isActive = true := by
          unfold Order.isActive at hrow ⊢
          rwa [← hstatus]
        rw [hid, hfilled]
        exact hactive horder
  pending fill hfill := by
    obtain ⟨hquantity, hcached, hrow⟩ := h.pending fill hfill
    exact ⟨hquantity, hcached, exists_row_persist hrow⟩
  positions := h.positions
  covered code := by
    refine le_trans ?_ (h.covered code)
    unfold committed
    change total _ (s.orders.map _) ≤ _
    rw [total_map]
    exact total_le_total fun row hmem => h.sellObligation_updateRow_le hkeeps hmem code

theorem ofPersistCached (h : SellStage account unbooked unapplied s)
    (hcached : s.inflight clientOrderId = some order) (hrow : (findOrder s order.clientOrderId).isSome) :
    SellStage account unbooked unapplied (persist s order) := by
  have hid := h.rows.keyed.id _ _ hcached
  obtain ⟨hsound, hfilled⟩ := h.cached _ _ hcached
  refine h.ofPersist (.ofRoutine (.persist hcached hrow) h.rows) (h.rows.keepsSettled hcached)
    hsound.le ?_ fun hactive => ⟨?_, ?_⟩
  · intro row hmem hrowid hdone
    rw [← h.terms row hmem order (by rw [hrowid, hid]; exact hcached)]
    exact hsound.complete hdone
  · rw [hid]
    exact (h.applied_le_booked _).trans (hfilled hactive)
  · intro hnone
    rw [hid, hcached] at hnone
    cases hnone

theorem ofRoutine (hroutine : Routine s s') (h : SellStage account unbooked unapplied s) :
    SellStage account unbooked unapplied s' := by
  induction hroutine with
  | other hinflight horders hfills hbooked happlied hpositions =>
    exact h.of_eq hinflight horders hfills hbooked happlied hpositions
  | load huncached hrow =>
    have hid := findOrder_clientOrderId hrow
    obtain ⟨hsound, hfilled⟩ := h.row _ (findOrder_mem hrow)
    refine h.ofCache (.ofRoutine (.load huncached hrow) h.rows) ?_ ⟨hsound.le, hsound.complete⟩ ?_
    · intro row hmem heq
      rw [row_eq_of_findOrder h.rows.unique hrow hmem heq]
      rfl
    · intro hactive
      have hbooked := (hfilled hactive).2 (by rw [hid]; exact huncached)
      rwa [hid] at hbooked
  | @mutate s clientOrderId order order' hcached hlegal hdone hsame =>
    have hid : order'.clientOrderId = order.clientOrderId := by rw [← hsame]
    have hquantity : order'.quantity = order.quantity := by rw [← hsame]
    have hfilled : order'.filledQuantity = order.filledQuantity := by rw [← hsame]
    obtain ⟨hsound, hbooked⟩ := h.cached _ _ hcached
    refine h.ofCache (.ofRoutine (.mutate hcached hlegal hdone hsame) h.rows) ?_ ⟨?_, ?_⟩ ?_
    · intro row hmem heq
      rw [hquantity]
      exact h.terms row hmem order (by rw [heq]; exact hcached)
    · rw [hid, hfilled]
      exact hsound.le
    · intro hcomplete
      rw [hquantity, hfilled]
      exact hsound.complete (hdone hcomplete)
    · intro hactive
      rw [hfilled]
      refine hbooked ?_
      by_contra hsettled
      have hterminal := isTerminal_of_canTransition hlegal
        (by simpa [Order.isActive, OrderStatus.isActive] using hsettled)
      simp [Order.isActive, OrderStatus.isActive, hterminal] at hactive
  | persist hcached hrow => exact h.ofPersistCached hcached hrow
  | trans _ _ ih ih' => exact ih' (ih h)

end SellStage

end FinDashboard.Risk
