import FinDashboard.Simulation.FrozenCash
import FinDashboard.Simulation.FuturesSettlement

/-!
# What a failed fill leaves behind

`process_bar` turns the error of a fill into a rejection of its order. The opening branch
checks the cash before it writes anything. The closing branch books the proceeds and releases
the reservation first, and only then finds out whether position and lots cover the sale.
-/

namespace FinDashboard.Simulation

open Ledger List

variable (money : ℚ → ℚ)

/-- Cash, position with lots and order rows are those before the fill. A position without a row
counts as the empty one the fill would create. -/
structure Untouched (st : State) (order : Order) (e : Execution) (after : State) : Prop where
  cash : after.account.cash = st.account.cash
  frozenCash : after.account.frozenCash = st.account.frozenCash
  position : (ensurePosition after order e.fillPrice).2 = (ensurePosition st order e.fillPrice).2
  orders : after.orders = st.orders

/-- A fill that raises has written nothing. -/
def FillAtomic (st : State) (order : Order) (e : Execution) : Prop :=
  ∀ error, (applyFill money st order e).outcome = .error error →
    Untouched st order e (applyFill money st order e).state

/-- The event has filled the order before. -/
def AlreadyFilled (st : State) (order : Order) (e : Execution) : Prop :=
  ∃ fill ∈ st.fills, fill.eventKey = ⟨e.sourceEventId, order.orderId, order.filledQuantity⟩

/-- The lots cover a sale. The second part says nothing as long as no lot is negative. -/
def LotsCover (lots : List Lot) (quantity : ℚ) : Prop :=
  quantity ≤ total Lot.quantity lots ∧ ∀ later, later <:+ lots.tail → 0 ≤ total Lot.quantity later

/-- The position covers a sale, the lots of a security too. -/
def Position.Covers (position : Position) (e : Execution) : Prop :=
  e.quantity ≤ position.totalQuantity ∧
    (e.rule.isFutures = false → LotsCover position.lots e.quantity)

/-- There is nothing to book: no quantity to release, and proceeds equal to the fees. -/
structure NothingToBook (position : Position) (order : Order) (e : Execution) : Prop where
  reserved : min order.reservedQuantity e.quantity = 0
  frozen : 0 ≤ position.frozenQuantity
  margin : e.rule.isFutures = true →
    reservationSlice money position.marginUsed e.quantity position.totalQuantity = 0
  proceeds : (if e.rule.isFutures then realizedBy money position e
    else e.turnover - e.tax money order.side) = e.commission money

variable {money}

theorem consumeLots_cons_uncovered (lot : Lot) (rest : List Lot) (quantity : ℚ) :
    (consumeLots (lot :: rest) quantity).2 =
      (consumeLots rest (quantity - min lot.quantity quantity)).2 := by
  rw [consumeLots]
  split_ifs <;> rfl

theorem lotsCover_cons (lot : Lot) (rest : List Lot) (quantity : ℚ) : LotsCover (lot :: rest) quantity ↔
      LotsCover rest (quantity - min lot.quantity quantity) := by
  have exceeds : quantity - min lot.quantity quantity ≤ total Lot.quantity rest ↔
      quantity ≤ lot.quantity + total Lot.quantity rest ∧ 0 ≤ total Lot.quantity rest := by
    rcases le_total lot.quantity quantity with below | above
    · rw [min_eq_left below]
      constructor
      · intro h
        exact ⟨by linarith, by linarith⟩
      · intro h
        linarith [h.1]
    · rw [min_eq_right above, sub_self]
      constructor
      · intro h
        exact ⟨by linarith, h⟩
      · exact fun h => h.2
  unfold LotsCover
  rw [exceeds, total_cons, and_assoc]
  refine and_congr_right fun _ => ?_
  constructor
  · intro later
    exact ⟨later rest (suffix_refl _), fun part hpart => later part (hpart.trans (tail_suffix rest))⟩
  · rintro ⟨whole, parts⟩ part hpart
    cases rest with
    | nil =>
      rw [tail_cons, suffix_nil] at hpart
      rw [hpart]
      exact whole
    | cons next rest =>
      rw [tail_cons, suffix_cons_iff] at hpart
      obtain rfl | hlater := hpart
      · exact whole
      · exact parts part hlater

theorem consumeLots_uncovered_iff (lots : List Lot) (quantity : ℚ) :
    ¬ 0 < (consumeLots lots quantity).2 ↔ LotsCover lots quantity := by
  induction lots generalizing quantity with
  | nil => simp [consumeLots, LotsCover]
  | cons lot rest ih => rw [consumeLots_cons_uncovered, ih, lotsCover_cons]

theorem decreasePosition_ok_iff (position : Position) (e : Execution) :
    (∃ sold, decreasePosition position e.quantity e.filledAt.date (!e.rule.isFutures) = .ok sold) ↔
      position.Covers e := by
  have lots : (∃ kept, lotsAfterSale position e.quantity (!e.rule.isFutures) = .ok kept) ↔
      (e.rule.isFutures = false → LotsCover position.lots e.quantity) := by
    rw [← consumeLots_uncovered_iff]
    unfold lotsAfterSale
    cases e.rule.isFutures with
    | true => simp
    | false =>
      by_cases uncovered : 0 < (consumeLots position.lots e.quantity).2 <;> simp [uncovered]
  unfold Position.Covers
  rw [← lots]
  constructor
  · rintro ⟨sold, decreased⟩
    obtain ⟨covered, kept, sale, -⟩ := decreasePosition_ok decreased
    exact ⟨covered, kept, sale⟩
  · rintro ⟨covered, kept, sale⟩
    exact ⟨_, decreasePosition_of_covered covered sale⟩

section Failed

variable {st : State} {order : Order} {e : Execution}

theorem applyFill_known (known : AlreadyFilled st order e) :
    ∃ existing, (applyFill money st order e).outcome = .ok existing := by
  unfold applyFill
  dsimp only
  cases found : st.fills.findIdx? (fun fill =>
      fill.eventKey = (⟨e.sourceEventId, order.orderId, order.filledQuantity⟩ : FillEventKey)) with
  | some existing => exact ⟨existing, rfl⟩
  | none =>
    obtain ⟨fill, member, same⟩ := known
    have absent := findIdx?_eq_none_iff.mp found fill member
    simp [same] at absent

theorem applyFill_fresh (fresh : ¬ AlreadyFilled st order e) :
    applyFill money st order e = match bookRows money (fillRows st order e) e with
      | (rows, some error) => {
          state := (ensurePosition st order e.fillPrice).1.withRows rows
          order := rows.order, outcome := .error error }
      | (rows, none) => {
          state := (settleFill money (ensurePosition st order e.fillPrice).1 order rows e).1
          order := (settleFill money (ensurePosition st order e.fillPrice).1 order rows e).2
          outcome := .ok (ensurePosition st order e.fillPrice).1.fills.length } := by
  have absent : st.fills.findIdx? (fun fill =>
      fill.eventKey = (⟨e.sourceEventId, order.orderId, order.filledQuantity⟩ : FillEventKey)) =
      none := by
    refine findIdx?_eq_none_iff.mpr fun fill member => ?_
    exact decide_eq_false fun same => fresh ⟨fill, member, same⟩
  have account : (ensurePosition st order e.fillPrice).1.account = st.account := by
    rw [ensurePosition_eq]
  unfold applyFill
  dsimp only
  rw [absent]
  dsimp only
  rw [account]
  change (match bookRows money (fillRows st order e) e with
    | (rows, some error) => _
    | (rows, none) => _) = _
  rcases bookRows money (fillRows st order e) e with ⟨rows, _ | error⟩ <;> rfl

/-- The rows of a failed fill, compared with those before it. -/
theorem untouched_withRows (listed : st.Listed order) {rows : FillRows}
    (terms : order.SameTerms rows.order)
    (key : rows.position.key = (ensurePosition st order e.fillPrice).2.key) :
    Untouched st order e ((ensurePosition st order e.fillPrice).1.withRows rows) ↔
      rows.account.cash = st.account.cash ∧ rows.account.frozenCash = st.account.frozenCash ∧
        rows.position = (ensurePosition st order e.fillPrice).2 ∧ rows.order = order := by
  obtain ⟨member, orderKey⟩ := ensurePosition_spec st order e.fillPrice
  have position : (ensurePosition ((ensurePosition st order e.fillPrice).1.withRows rows) order
      e.fillPrice).2 = rows.position := by
    have found : ((ensurePosition st order e.fillPrice).1.withRows rows).getPosition order.key =
        some rows.position := by
      rw [← orderKey, ← key]
      exact find?_overwrite ⟨_, member, key.symm⟩
    rw [ensurePosition, found]
  have kept : (ensurePosition st order e.fillPrice).1.orders = st.orders := by
    rw [ensurePosition_eq]
  have orders : ((ensurePosition st order e.fillPrice).1.withRows rows).orders =
      st.orders.set order.orderId rows.order := by
    rw [← terms.orderId, ← kept]
    rfl
  constructor
  · intro untouched
    refine ⟨untouched.cash, untouched.frozenCash, position.symm.trans untouched.position, ?_⟩
    have same := untouched.orders
    rw [orders] at same
    have row : (st.orders.set order.orderId rows.order)[order.orderId]? = some order := by
      rw [same]
      exact listed
    obtain ⟨bound, -⟩ := List.getElem?_eq_some_iff.mp listed
    rw [List.getElem?_set_self bound] at row
    exact Option.some.inj row
  · rintro ⟨cash, frozenCash, samePosition, sameOrder⟩
    refine ⟨cash, frozenCash, position.trans samePosition, ?_⟩
    obtain ⟨bound, row⟩ := List.getElem?_eq_some_iff.mp listed
    have unchanged := set_getElem_self bound
    rw [row] at unchanged
    rw [orders, sameOrder, unchanged]

theorem closedAccount_cash (account : Account) (position : Position) (side : Side)
    (e : Execution) : (closedAccount money account position side e).cash = account.cash +
      if e.rule.isFutures then
        reservationSlice money position.marginUsed e.quantity position.totalQuantity +
          realizedBy money position e - e.commission money
      else e.turnover - e.commission money - e.tax money side := by
  unfold closedAccount
  split_ifs <;> rfl

theorem closedAccount_frozenCash (account : Account) (position : Position) (side : Side) (e : Execution) :
    (closedAccount money account position side e).frozenCash = account.frozenCash := by
  unfold closedAccount
  split_ifs <;> rfl

theorem unreservedOrder_eq_iff : unreservedOrder order e = order ↔
    min order.reservedQuantity e.quantity = 0 := by
  constructor
  · intro same
    have reserved : order.reservedQuantity - min order.reservedQuantity e.quantity =
        order.reservedQuantity := congrArg Order.reservedQuantity same
    linarith
  · intro nothing
    simp [unreservedOrder, nothing]

theorem unfrozenPosition_eq_iff (rows : FillRows)
    (nothing : min rows.order.reservedQuantity e.quantity = 0) :
    unfrozenPosition money rows e = rows.position ↔
      0 ≤ rows.position.frozenQuantity ∧ (e.rule.isFutures = true →
        reservationSlice money rows.position.marginUsed e.quantity rows.position.totalQuantity = 0) := by
  constructor
  · intro same
    have frozen : max 0 (rows.position.frozenQuantity -
        min rows.order.reservedQuantity e.quantity) = rows.position.frozenQuantity :=
      congrArg Position.frozenQuantity same
    have margin : (if e.rule.isFutures then rows.position.marginUsed - reservationSlice money
        rows.position.marginUsed e.quantity rows.position.totalQuantity
        else rows.position.marginUsed) = rows.position.marginUsed :=
      congrArg Position.marginUsed same
    refine ⟨frozen ▸ le_max_left _ _, fun futures => ?_⟩
    rw [if_pos futures] at margin
    linarith
  · rintro ⟨frozen, margin⟩
    by_cases futures : e.rule.isFutures = true
    · simp [unfrozenPosition, nothing, frozen, futures, margin futures]
    · simp [unfrozenPosition, nothing, frozen, futures]

/-- The rows a closing fill has written when the decrease fails are those before it exactly when
there was nothing to book. -/
theorem closedRows_untouched_iff : ((closedRows money (fillRows st order e) e
        (unfrozenPosition money (fillRows st order e) e)).account.cash = st.account.cash ∧
      (closedRows money (fillRows st order e) e
        (unfrozenPosition money (fillRows st order e) e)).account.frozenCash = st.account.frozenCash ∧
      unfrozenPosition money (fillRows st order e) e = (ensurePosition st order e.fillPrice).2 ∧
      unreservedOrder order e = order) ↔
      NothingToBook money (ensurePosition st order e.fillPrice).2 order e := by
  have account : (closedRows money (fillRows st order e) e
      (unfrozenPosition money (fillRows st order e) e)).account =
      closedAccount money st.account (ensurePosition st order e.fillPrice).2 order.side e := rfl
  rw [account, closedAccount_cash, closedAccount_frozenCash, unreservedOrder_eq_iff]
  constructor
  · rintro ⟨cash, -, position, reserved⟩
    obtain ⟨frozen, margin⟩ := (unfrozenPosition_eq_iff (fillRows st order e) reserved).mp position
    refine ⟨reserved, frozen, margin, ?_⟩
    by_cases futures : e.rule.isFutures = true
    · have slice : reservationSlice money (ensurePosition st order e.fillPrice).2.marginUsed
          e.quantity (ensurePosition st order e.fillPrice).2.totalQuantity = 0 := margin futures
      rw [if_pos futures, slice] at cash
      rw [if_pos futures]
      linarith
    · rw [if_neg futures] at cash ⊢
      linarith
  · rintro ⟨reserved, frozen, margin, proceeds⟩
    refine ⟨?_, rfl, (unfrozenPosition_eq_iff (fillRows st order e) reserved).mpr
      ⟨frozen, margin⟩, reserved⟩
    by_cases futures : e.rule.isFutures = true
    · rw [if_pos futures] at proceeds ⊢
      rw [margin futures]
      linarith
    · rw [if_neg futures] at proceeds ⊢
      linarith

end Failed

/-- A fill of a listed order leaves no trace of an error exactly when it cannot raise after
its first write, or had nothing to write. -/
theorem fillAtomic_iff (st : State) (order : Order) (e : Execution) (listed : st.Listed order) :
    FillAtomic money st order e ↔ AlreadyFilled st order e ∨ order.positionEffect = .open ∨
        (ensurePosition st order e.fillPrice).2.Covers e ∨
        NothingToBook money (ensurePosition st order e.fillPrice).2 order e := by
  by_cases known : AlreadyFilled st order e
  · obtain ⟨existing, filled⟩ : ∃ existing, (applyFill money st order e).outcome = .ok existing :=
      applyFill_known known
    refine iff_of_true (fun error failed => ?_) (Or.inl known)
    rw [filled] at failed
    cases failed
  unfold FillAtomic
  rw [applyFill_fresh known]
  cases effect : order.positionEffect with
  | «open» =>
    refine iff_of_true (fun error failed => ?_) (Or.inr (Or.inl rfl))
    cases booked : bookRows money (fillRows st order e) e with
    | mk rows raised =>
      cases raised with
      | none => rw [booked] at failed; cases failed
      | some raised =>
        have kept : rows = fillRows st order e := by
          unfold bookRows at booked
          simp only [fillRows_order, effect] at booked
          exact openFill_failed booked
        dsimp only
        rw [kept]
        exact (untouched_withRows listed (.refl order) rfl).mpr ⟨rfl, rfl, rfl, rfl⟩
  | close =>
    have booked : bookRows money (fillRows st order e) e = closeFill money (fillRows st order e) e := by
      unfold bookRows
      simp only [fillRows_order, effect]
    have covers : (unfrozenPosition money (fillRows st order e) e).Covers e ↔
        (ensurePosition st order e.fillPrice).2.Covers e := Iff.rfl
    rw [booked, closeFill_eq, ← covers, ← decreasePosition_ok_iff]
    cases decreased : decreasePosition (unfrozenPosition money (fillRows st order e) e) e.quantity
        e.filledAt.date (!e.rule.isFutures) with
    | ok sold =>
      refine iff_of_true (fun error failed => ?_) (Or.inr (Or.inr (Or.inl ⟨sold, rfl⟩)))
      cases failed
    | error raised =>
      have nothing : _ ↔ NothingToBook money (ensurePosition st order e.fillPrice).2 order e :=
        closedRows_untouched_iff
      have rows : Untouched st order e ((ensurePosition st order e.fillPrice).1.withRows
          (closedRows money (fillRows st order e) e
            (unfrozenPosition money (fillRows st order e) e))) ↔ _ :=
        untouched_withRows listed ⟨rfl, rfl, rfl, rfl, rfl, rfl, rfl, rfl, rfl⟩ rfl
      dsimp only
      constructor
      · intro atomic
        have untouched := rows.mp (atomic raised rfl)
        exact Or.inr (Or.inr (Or.inr (nothing.mp untouched)))
      · rintro (impossible | impossible | impossible | empty) error -
        · exact absurd impossible known
        · cases impossible
        · obtain ⟨sold, ok⟩ := impossible
          cases ok
        · exact rows.mpr (nothing.mpr empty)

/-- A contract is opened and then sold under a rule for securities. -/
def crossRuleRun : List Action :=
  [.transitionSession .running,
   .processBar (flatBar "E1" "IF2406" .future ⟨1, 0, 0⟩ 10 ten_pos),
   .submitDecision (singleDecision "D-1" (futureTarget 10 (by norm_num))) ⟨1, 0, 0⟩,
   .processBar (flatBar "E2" "IF2406" .future ⟨2, 0, 0⟩ 10 ten_pos),
   .submitDecision (singleDecision "D-2" (securityTarget "IF2406" "convertible" .convertible 0
     zero_nonneg)) ⟨2, 0, 0⟩]

/-- The rule of the closing order. -/
def convertibleRule : SimulationAssetRule where
  key := "convertible"
  market := .aShare
  instrumentType := .convertible
  rule := convertibleBond

/-- What the next bar makes of the closing order. -/
def crossRuleFill : Execution where
  quantity := 10
  fillPrice := 9.995
  rawPrice := 10
  filledAt := ⟨3, 0, 0⟩
  sourceEventId := "E3"
  rule := convertibleRule

/-- Before that, the opening order of the run is filled or left alone. -/
theorem fillAtomic_opening : ∃ order,
    (runCalls moneyQuant (sampleSession moneyQuant) (crossRuleRun.take 3)).Listed order ∧
      FillAtomic moneyQuant (runCalls moneyQuant (sampleSession moneyQuant) (crossRuleRun.take 3))
        order crossRuleFill := by
  obtain ⟨order, -, listed, effect⟩ : ∃ order ∈
      (runCalls moneyQuant (sampleSession moneyQuant) (crossRuleRun.take 3)).orders,
      (runCalls moneyQuant (sampleSession moneyQuant) (crossRuleRun.take 3)).Listed order ∧
        order.positionEffect = .open := by
    unfold State.Listed
    decide +kernel
  exact ⟨order, listed, (fillAtomic_iff _ order _ listed).mpr (Or.inr (Or.inl effect))⟩

/-- The position of the contract has no lots, so the sale fails; its proceeds stay. -/
theorem fillAtomic_fails : ∃ st order e, Reachable moneyQuant (fun _ _ => True) st ∧
    st.Listed order ∧ order.isActive = true ∧ order.resolveRule = .ok e.rule ∧
    ¬ FillAtomic moneyQuant st order e := by
  have reached : Reachable moneyQuant (fun _ _ => True)
      (runCalls moneyQuant (sampleSession moneyQuant) crossRuleRun) := by
    apply (Reachable.opened (sampleSession_opened moneyQuant)).calls
    exact ⟨trivial, trivial, trivial, trivial, trivial, trivial⟩
  obtain ⟨order, -, listed, active, ⟨key, market, type⟩, failed, moved⟩ : ∃ order ∈
      (runCalls moneyQuant (sampleSession moneyQuant) crossRuleRun).orders,
      (runCalls moneyQuant (sampleSession moneyQuant) crossRuleRun).Listed order ∧
        order.isActive = true ∧
        (order.assetRuleKey = "convertible" ∧ order.market = .aShare ∧
          order.instrumentType = .convertible) ∧
        (applyFill moneyQuant (runCalls moneyQuant (sampleSession moneyQuant) crossRuleRun) order
          crossRuleFill).outcome.toOption = none ∧
        (applyFill moneyQuant (runCalls moneyQuant (sampleSession moneyQuant) crossRuleRun) order
          crossRuleFill).state.account.cash ≠
          (runCalls moneyQuant (sampleSession moneyQuant) crossRuleRun).account.cash := by
    unfold State.Listed
    decide +kernel
  refine ⟨_, order, crossRuleFill, reached, listed, active, ?_, fun atomic => ?_⟩
  · rw [Order.resolveRule, key, market, type]
    rfl
  · cases outcome : (applyFill moneyQuant (runCalls moneyQuant (sampleSession moneyQuant)
        crossRuleRun) order crossRuleFill).outcome with
    | ok existing =>
      rw [outcome] at failed
      cases failed
    | error error => exact moved (atomic error outcome).cash

end FinDashboard.Simulation
