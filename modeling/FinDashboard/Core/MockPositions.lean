import FinDashboard.Core.PositionRows
import Mathlib.Data.List.Infix

/-!
# The local positions and those of the mock broker

The mock broker keeps positions of its own from the fills it reports. `PositionManager` folds
the same fills into the local rows. As long as no more is sold than was bought, both keep the
same holding, availability and average price.
-/

namespace FinDashboard.Broker

/-- A fill with the fees the broker charges for it. -/
structure ChargedFill extends Fill where
  commission : ℚ := 0
  deriving DecidableEq, Repr

/-- What `MockBroker` keeps of an account; positions are keyed by the code. -/
structure MockBroker where
  accountId : AccountId
  cash : ℚ
  positions : String → Option Position := fun _ => none

def MockBroker.position (broker : MockBroker) (symbol : Symbol) : Position :=
  (broker.positions symbol.code).getD (.empty broker.accountId symbol)

/-- The position `_apply_fill_to_account` leaves after a purchase. -/
def mockIncrease (pos : Position) (quantity price : ℚ) : Position :=
  let newTotal := pos.totalQuantity + quantity
  let averagePrice :=
    if 0 < newTotal then (pos.totalQuantity * pos.averagePrice + quantity * price) / newTotal
    else pos.averagePrice
  { pos with
    averagePrice
    totalQuantity := newTotal
    availableQuantity := newTotal
    marketValue := newTotal * averagePrice }

/-- The position `_apply_fill_to_account` leaves after a sale; the total is not clamped. -/
def mockDecrease (pos : Position) (quantity : ℚ) : Position :=
  let newTotal := pos.totalQuantity - quantity
  { pos with
    totalQuantity := newTotal
    availableQuantity := max 0 (pos.availableQuantity - quantity)
    marketValue := newTotal * pos.averagePrice }

def applyFillToAccount (fill : ChargedFill) (side : Side) (broker : MockBroker) : MockBroker :=
  let pos := broker.position fill.symbol
  match side with
  | .buy =>
    { broker with
      positions := Function.update broker.positions fill.symbol.code
        (some (mockIncrease pos fill.quantity fill.price))
      cash := broker.cash - (fill.quantity * fill.price + fill.commission) }
  | .sell =>
    { broker with
      positions := Function.update broker.positions fill.symbol.code
        (some (mockDecrease pos fill.quantity))
      cash := broker.cash + (fill.quantity * fill.price - fill.commission) }

def applyFillsToAccount (fills : List ChargedFill) (broker : MockBroker) : MockBroker :=
  fills.foldl (fun broker fill => applyFillToAccount fill fill.side broker) broker

theorem position_applyFillToAccount (fill : ChargedFill) (broker : MockBroker) :
    (applyFillToAccount fill fill.side broker).position fill.symbol = if fill.side = .buy then
        mockIncrease (broker.position fill.symbol) fill.quantity fill.price
      else mockDecrease (broker.position fill.symbol) fill.quantity := by
  unfold applyFillToAccount
  cases side : fill.side <;> simp [MockBroker.position]

end FinDashboard.Broker

namespace FinDashboard.Core

open Async Broker Persistence

/-- `apply_fill` for one fill after the other. -/
def applyFills (account : AccountId) : List ChargedFill → TradingTask Unit
  | [] => return
  | fill :: rest => do
    applyFill account fill.toFill
    applyFills account rest

def bought (fills : List ChargedFill) : ℚ :=
  ((fills.filter (·.side = .buy)).map (·.quantity)).sum

def sold (fills : List ChargedFill) : ℚ :=
  ((fills.filter (·.side = .sell)).map (·.quantity)).sum

@[simp] theorem bought_cons (fill : ChargedFill) (fills : List ChargedFill) :
    bought (fill :: fills) = (if fill.side = .buy then fill.quantity else 0) + bought fills := by
  by_cases side : fill.side = .buy <;> simp [bought, side]

@[simp] theorem sold_cons (fill : ChargedFill) (fills : List ChargedFill) :
    sold (fill :: fills) = (if fill.side = .sell then fill.quantity else 0) + sold fills := by
  by_cases side : fill.side = .sell <;> simp [sold, side]

/-- Two records of a holding agree on what reconciliation compares. -/
structure SameHolding (row kept : Position) : Prop where
  total : row.totalQuantity = kept.totalQuantity
  available : row.availableQuantity = kept.availableQuantity
  average : row.averagePrice = kept.averagePrice

/-- A record of a quantity held, all of it available. -/
structure Holds (held : ℚ) (position : Position) : Prop where
  total : position.totalQuantity = held
  available : position.availableQuantity = held

variable {fill : ChargedFill}

section Steps

variable {held : ℚ} {row kept : Position}

/-- A purchase of any quantity leaves the two records in agreement. -/
theorem SameHolding.buy (same : SameHolding row kept)
    (holds : Holds held row) (side : fill.side = .buy) (quantity : 0 ≤ fill.quantity) :
    SameHolding (positionAfter fill.toFill row) (mockIncrease kept fill.quantity fill.price) ∧
      Holds (held + fill.quantity) (positionAfter fill.toFill row) := by
  have after : positionAfter fill.toFill row = increasePosition row fill.quantity fill.price := by
    simp [positionAfter, side, quantity]
  rw [after]
  constructor
  · constructor <;> simp [increasePosition, mockIncrease, same.total, same.average]
  · constructor <;> simp [increasePosition, holds.total]

/-- A sale of at most the holding does not reach the clamp of the local row. -/
theorem SameHolding.sell (same : SameHolding row kept) (holds : Holds held row) (side : fill.side = .sell)
    (quantity : 0 ≤ fill.quantity) (covered : fill.quantity ≤ held) :
    SameHolding (positionAfter fill.toFill row) (mockDecrease kept fill.quantity) ∧
      Holds (held - fill.quantity) (positionAfter fill.toFill row) := by
  have rest := sub_nonneg.mpr covered
  have total := same.total.symm.trans holds.total
  have available := same.available.symm.trans holds.available
  rcases quantity.eq_or_lt with zero | positive
  · -- a sale of nothing takes the branch of a purchase
    have after : positionAfter fill.toFill row = increasePosition row 0 fill.price := by
      simp [positionAfter, side, ← zero]
    have averageKept : (increasePosition row 0 fill.price).averagePrice = row.averagePrice := by
      by_cases nothing : 0 < row.totalQuantity
      · have nonzero := nothing.ne'
        simp [increasePosition, nothing, mul_div_cancel_left₀ _ nonzero]
      · simp [increasePosition, nothing]
    rw [after, ← zero]
    rw [← zero] at rest
    constructor
    · constructor
      · simp [increasePosition, mockDecrease, holds.total, total]
      · simp only [increasePosition, mockDecrease, holds.total, available, add_zero]
        rw [max_eq_right rest, sub_zero]
      · rw [averageKept]
        exact same.average
    · constructor <;> simp [increasePosition, holds.total]
  · have negative : ¬ 0 ≤ -fill.quantity := by linarith
    have after : positionAfter fill.toFill row = decreasePosition row fill.quantity := by
      simp [positionAfter, side, negative]
    rw [after]
    constructor
    · constructor
      · simp [decreasePosition, mockDecrease, holds.total, total, max_eq_right rest]
      · simp [decreasePosition, mockDecrease, holds.available, available]
      · simp [decreasePosition, mockDecrease, same.average]
    · constructor
      · simp [decreasePosition, holds.total, max_eq_right rest]
      · simp [decreasePosition, holds.available, max_eq_right rest]

end Steps

section Folds

variable (answer : Point → Store → Reply) {account : AccountId} {symbol : Symbol}

theorem run_applyFill (fill : Fill) (s : Store) :
    (applyFill account fill).run answer s =
      (.ok (), { upsertLocal (positionAfter fill (localPosition s account fill.symbol)) s with
        appliedFills := s.appliedFills ++ [fill] }) := rfl

theorem SameHolding.upsertLocal {s : Store} {kept : Position} {held : ℚ}
    (same : SameHolding (positionAfter fill.toFill (localPosition s account fill.symbol)) kept)
    (holds : Holds held (positionAfter fill.toFill (localPosition s account fill.symbol)))
    (applied : List Fill) :
    SameHolding (localPosition { Persistence.upsertLocal
        (positionAfter fill.toFill (localPosition s account fill.symbol)) s with
        appliedFills := applied } account fill.symbol) kept ∧
      Holds held (localPosition { Persistence.upsertLocal
        (positionAfter fill.toFill (localPosition s account fill.symbol)) s with
        appliedFills := applied } account fill.symbol) := by
  have key := positionAfter_key fill.toFill (localPosition s account fill.symbol)
  obtain ⟨total, available, average⟩ := localPosition_upsertLocal key
  exact ⟨⟨total.trans same.total, available.trans same.available, average.trans same.average⟩,
    ⟨total.trans holds.total, available.trans holds.available⟩⟩

theorem applyFill_sameHolding {s : Store} {broker : MockBroker} {held : ℚ}
    (same : SameHolding (localPosition s account fill.symbol) (broker.position fill.symbol))
    (holds : Holds held (localPosition s account fill.symbol)) (quantity : 0 ≤ fill.quantity)
    (covered : sold [fill] ≤ held + bought [fill]) :
    ∃ t, (applyFill account fill.toFill).run answer s = (.ok (), t) ∧
      SameHolding (localPosition t account fill.symbol)
        ((applyFillToAccount fill fill.side broker).position fill.symbol) ∧
      Holds (held + bought [fill] - sold [fill]) (localPosition t account fill.symbol) := by
  refine ⟨_, run_applyFill answer fill.toFill s, ?_⟩
  rw [position_applyFillToAccount]
  cases side : fill.side with
  | buy =>
    have net : held + bought [fill] - sold [fill] = held + fill.quantity := by
      simp [side, bought, sold]
    obtain ⟨agree, holding⟩ := same.buy holds side quantity
    rw [net, if_pos rfl]
    exact agree.upsertLocal holding _
  | sell =>
    have net : held + bought [fill] - sold [fill] = held - fill.quantity := by
      simp [side, bought, sold]
    have enough : fill.quantity ≤ held := by
      simpa [side, bought, sold] using covered
    obtain ⟨agree, holding⟩ := same.sell holds side quantity enough
    rw [net, if_neg (by simp)]
    exact agree.upsertLocal holding _

theorem applyFills_sameHolding {fills : List ChargedFill} {s : Store} {broker : MockBroker}
    {held : ℚ} (same : SameHolding (localPosition s account symbol) (broker.position symbol))
    (holds : Holds held (localPosition s account symbol)) (symbols : ∀ fill ∈ fills, fill.symbol = symbol)
    (quantities : ∀ fill ∈ fills, 0 ≤ fill.quantity)
    (covered : ∀ taken, taken <+: fills → sold taken ≤ held + bought taken) :
    ∃ t, (applyFills account fills).run answer s = (.ok (), t) ∧
      SameHolding (localPosition t account symbol)
        ((applyFillsToAccount fills broker).position symbol) := by
  induction fills generalizing s broker held with
  | nil => exact ⟨s, rfl, same⟩
  | cons fill rest ih =>
    obtain ⟨symbolHere, symbolsLater⟩ := List.forall_mem_cons.mp symbols
    obtain ⟨quantityHere, quantitiesLater⟩ := List.forall_mem_cons.mp quantities
    have coveredHere := covered [fill] (List.prefix_append [fill] rest)
    subst symbolHere
    obtain ⟨t, first, sameNext, holdsNext⟩ :=
      applyFill_sameHolding answer same holds quantityHere coveredHere
    have coveredLater : ∀ taken, taken <+: rest →
        sold taken ≤ held + bought [fill] - sold [fill] + bought taken := by
      intro taken part
      have whole := covered (fill :: taken) (List.prefix_cons_inj fill |>.mpr part)
      simp only [sold_cons, bought_cons] at whole
      simp only [sold_cons, bought_cons]
      simp only [sold, bought, List.filter_nil, List.map_nil, List.sum_nil] at whole ⊢
      linarith
    obtain ⟨u, later, agree⟩ := ih sameNext holdsNext symbolsLater quantitiesLater coveredLater
    refine ⟨u, ?_, agree⟩
    rw [applyFills, Coroutine.run_bind_ok answer s first]
    exact later

/-- Folding `apply_fill` over the fills of one symbol, starting flat, keeps the position of the
mock broker: no part of the run may sell more than it bought. -/
theorem localFold_eq_mockFold (fills : List ChargedFill) (s : Store) (broker : MockBroker)
    (same : SameHolding (localPosition s account symbol) (broker.position symbol))
    (flat : Holds 0 (localPosition s account symbol)) (symbols : ∀ fill ∈ fills, fill.symbol = symbol)
    (quantities : ∀ fill ∈ fills, 0 ≤ fill.quantity)
    (covered : ∀ taken, taken <+: fills → sold taken ≤ bought taken) :
    ∃ t, (applyFills account fills).run answer s = (.ok (), t) ∧
      SameHolding (localPosition t account symbol)
        ((applyFillsToAccount fills broker).position symbol) := by
  refine applyFills_sameHolding answer same flat symbols quantities fun taken part => ?_
  rw [zero_add]
  exact covered taken part

end Folds

def stockFill (fillId : String) (side : Side) (quantity price : ℚ) : ChargedFill where
  fillId := fillId
  clientOrderId := "order"
  symbol := ⟨"600000", .aShare⟩
  side := side
  quantity := quantity
  price := price
  filledAt := 0

/-- Two purchases at different prices, a partial sale, a full one and a new purchase. -/
def roundTrips : List ChargedFill :=
  [stockFill "F-1" .buy 100 10, stockFill "F-2" .buy 200 13, stockFill "F-3" .sell 50 12,
    stockFill "F-4" .sell 250 11, stockFill "F-5" .buy 30 9]

theorem localFold_roundTrips :
    ∃ t, (applyFills "account" roundTrips).run (fun _ _ => {}) {} = (.ok (), t) ∧
      SameHolding (localPosition t "account" ⟨"600000", .aShare⟩)
        ((applyFillsToAccount roundTrips ⟨"account", 1000000, fun _ => none⟩).position
          ⟨"600000", .aShare⟩) := by
  refine localFold_eq_mockFold _ _ _ _ ⟨rfl, rfl, rfl⟩ ⟨rfl, rfl⟩ (by decide)
    (by decide +kernel) fun taken part => ?_
  have parts : ∀ taken ∈ roundTrips.inits, sold taken ≤ bought taken := by decide +kernel
  exact parts taken ((List.mem_inits taken roundTrips).mpr part)

end FinDashboard.Core
