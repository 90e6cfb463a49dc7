import FinDashboard.Tsmom.Fills
import Mathlib.Algebra.Order.Field.Basic
import Mathlib.Tactic.LinearCombination
import Mathlib.Tactic.Ring

/-!
# Participation and margin

Nothing reads the participation limit, and the cash is tested for each opening order alone. What the fills
of a bar need together is determined by the orders and the book before the bar.
-/

namespace FinDashboard.Tsmom

open Ledger Runs List

variable {K : Type} [Field K] [LinearOrder K] {setup : Setup K} {prices : Prices K} {k : ℕ}

/-- The margin a position requires at the price its lots were filled at. -/
def positionMargin (specs : List (String × ContractSpec K)) (symbol : String)
    (position : Position K) : K :=
  (find symbol specs).elim 0 fun spec => spec.marginRequired position.entryPrice position.lots

def symbolMargin (setup : Setup K) (book : Book K) (symbol : String) : K :=
  positionMargin setup.specs symbol (book.side true symbol) +
    positionMargin setup.specs symbol (book.side false symbol)

def bookMargin (setup : Setup K) (symbols : List String) (book : Book K) : K :=
  (symbols.map (symbolMargin setup book)).sum

/-- The margin a fill takes: that of the opened lots at their price, or back that of the closed lots at
the price they had. -/
def Fill.margin (fill : Fill K) : K :=
  if fill.order.action.opens then fill.spec.marginRequired fill.fillPrice fill.lots
  else -fill.spec.marginRequired fill.held.entryPrice fill.lots

/-- No side has fewer lots than none. -/
def Book.Nonneg (book : Book K) : Prop := ∀ isLong symbol, 0 ≤ (book.side isLong symbol).lots

section OneFill

variable {fill : Fill K} {book : Book K}

theorem nonneg_applyTo (nonneg : book.Nonneg) (found : fill? setup prices k book fill.order = some fill) :
    (fill.applyTo k book).Nonneg := by
  intro isLong symbol
  have before := nonneg fill.order.action.isLong fill.order.symbol
  have positive := fill.lots_pos
  rw [Fill.applyTo, Book.side_fill]
  split
  · unfold Fill.position
    cases opens : fill.order.action.opens with
    | true =>
      rw [if_pos rfl, increase_lots before]
      omega
    | false =>
      have enough := lots_le_of_closes found opens
      rw [if_neg Bool.false_ne_true, decrease_lots enough]
      omega
  · exact nonneg isLong symbol

/-- More lots at the average price require the margin of both. -/
theorem lots_mul_entryPrice_increase [IsStrictOrderedRing K] {position : Position K} {lots : ℤ}
    (price : K) (contractId : String) (nonneg : 0 ≤ position.lots) (positive : 0 < lots) :
    ((position.increase lots price contractId).lots : K) *
        (position.increase lots price contractId).entryPrice =
      position.lots * position.entryPrice + lots * price := by
  unfold Position.increase
  by_cases held : 0 < position.lots
  · rw [if_pos held]
    have some : ((position.lots + lots : ℤ) : K) ≠ 0 := Int.cast_ne_zero.mpr (by omega)
    exact mul_div_cancel₀ _ some
  · rw [if_neg held]
    obtain none : position.lots = 0 := by omega
    rw [none, Int.cast_zero, zero_mul, zero_add]

omit [LinearOrder K] in
theorem lots_mul_entryPrice_decrease {position : Position K} {lots : ℤ} (enough : lots ≤ position.lots) :
    ((position.decrease lots).lots : K) * (position.decrease lots).entryPrice =
      position.lots * position.entryPrice - lots * position.entryPrice := by
  unfold Position.decrease
  by_cases nothing : position.lots - lots ≤ 0
  · rw [if_pos nothing]
    obtain rfl : lots = position.lots := by omega
    rw [Int.cast_zero, zero_mul, sub_self]
  · rw [if_neg nothing, Int.cast_sub, sub_mul]

theorem positionMargin_position [IsStrictOrderedRing K] (nonneg : book.Nonneg)
    (found : fill? setup prices k book fill.order = some fill) :
    positionMargin setup.specs fill.order.symbol
        (fill.position (book.side fill.order.action.isLong fill.order.symbol)) =
      positionMargin setup.specs fill.order.symbol
        (book.side fill.order.action.isLong fill.order.symbol) + fill.margin := by
  obtain ⟨-, held, possible, -⟩ := fill?_spec found
  have specified := (fillable?_spec possible).1
  unfold positionMargin Fill.margin Fill.position ContractSpec.marginRequired
    ContractSpec.notionalValue
  rw [specified, Option.elim_some, Option.elim_some, held]
  have before := nonneg fill.order.action.isLong fill.order.symbol
  cases opens : fill.order.action.opens with
  | true =>
    have lots := lots_mul_entryPrice_increase fill.fillPrice fill.order.contractId before
      fill.lots_pos
    rw [if_pos rfl, if_pos rfl]
    linear_combination (fill.spec.multiplier * fill.spec.marginRate) * lots
  | false =>
    have lots := lots_mul_entryPrice_decrease (lots_le_of_closes found opens)
    rw [if_neg Bool.false_ne_true, if_neg Bool.false_ne_true]
    linear_combination (fill.spec.multiplier * fill.spec.marginRate) * lots

theorem bookMargin_applyTo [IsStrictOrderedRing K] (nonneg : book.Nonneg)
    (known : fill.order.symbol ∈ prices.symbols)
    (found : fill? setup prices k book fill.order = some fill) :
    bookMargin setup prices.symbols (fill.applyTo k book) =
      bookMargin setup prices.symbols book + fill.margin := by
  have others : ∀ other, other ≠ fill.order.symbol →
      symbolMargin setup (fill.applyTo k book) other = symbolMargin setup book other := by
    intro other differ
    simp only [symbolMargin, Fill.applyTo, Book.side_fill, differ, and_false, if_false]
  have own : symbolMargin setup (fill.applyTo k book) fill.order.symbol =
      symbolMargin setup book fill.order.symbol + fill.margin := by
    have changed := positionMargin_position nonneg found
    unfold symbolMargin
    simp only [Fill.applyTo, Book.side_fill, and_true]
    cases side : fill.order.action.isLong with
    | true =>
      rw [side] at changed
      simp only [if_true, Bool.false_eq_true, if_false, changed]
      ring
    | false =>
      rw [side] at changed
      simp only [if_true, Bool.true_eq_false, if_false, changed]
      ring
  unfold bookMargin
  rw [sum_map_change prices.nodup known others, own]
  ring

end OneFill

section OneBar

variable {state : TsmomState K}

theorem bookMargin_fillPending [IsStrictOrderedRing K] (setup : Setup K)
    (placed : Placed prices.symbols state.pendingOrders) (nonneg : state.book.Nonneg) :
    (fillPending setup prices k state).Nonneg ∧
      bookMargin setup prices.symbols (fillPending setup prices k state) =
        bookMargin setup prices.symbols state.book +
          ((barFills setup prices k state).map Fill.margin).sum := by
  refine fillPending_measure _ _ _ placed nonneg ?_
  intro book fill kept pending found
  exact ⟨nonneg_applyTo kept found, bookMargin_applyTo kept (placed.known _ pending) found⟩

theorem nonneg_stateAt [IsStrictOrderedRing K] (setup : Setup K) (prices : Prices K) (n : ℕ) :
    (stateAt setup prices n).book.Nonneg := by
  induction n with
  | zero => intro isLong symbol; cases isLong <;> exact le_refl (0 : ℤ)
  | succ n ih =>
    have filled := (bookMargin_fillPending (k := n) setup (placed_stateAt setup prices n) ih).1
    have step : (stateAt setup prices (n + 1)).book =
        settle setup.specs prices n (fillPending setup prices n (stateAt setup prices n)) :=
      book_closeBar setup prices _ _
    intro isLong symbol
    rw [step, (sameBook_settle _ _ _).side]
    exact filled isLong symbol

theorem trade_of_bar (setup : Setup K) (prices : Prices K) {n : ℕ} (past : k < n)
    (trade : FuturesTrade K) : (trade ∈ (stateAt setup prices n).book.trades ∧ trade.barIndex = k) ↔
      trade ∈ (barFills setup prices k (stateAt setup prices k)).map (·.trade k) := by
  have fills := trades_fillPending setup k (placed_stateAt setup prices k)
  have upTo := trades_upTo setup prices past
  rw [fills] at upTo
  constructor
  · rintro ⟨member, here⟩
    have inside : trade ∈ (stateAt setup prices n).book.trades.filter
        fun trade => trade.barIndex ≤ k :=
      mem_filter.mpr ⟨member, decide_eq_true (by omega)⟩
    rw [upTo] at inside
    rcases mem_append.mp inside with old | new
    · have early := trades_stateAt_lt setup prices k trade old
      omega
    · exact new
  · intro new
    have inside : trade ∈ (stateAt setup prices n).book.trades.filter
        fun trade => trade.barIndex ≤ k := by
      rw [upTo]
      exact mem_append_right _ new
    obtain ⟨fill, -, rfl⟩ := mem_map.mp new
    exact ⟨(mem_filter.mp inside).1, rfl⟩

end OneBar

/-- The trades of a bar keep to the participation limit, and what the positions require after its fills
keeps to the cash before them. -/
def WithinLimits (setup : Setup K) (prices : Prices K) (trades : List (FuturesTrade K)) (k : ℕ) : Prop :=
  (∀ trade ∈ trades, trade.barIndex = k →
    (trade.lots : K) ≤ setup.config.maxParticipation * prices.volumeAt trade.symbol k) ∧
  bookMargin setup prices.symbols (fillPending setup prices k (stateAt setup prices k)) ≤
    (stateAt setup prices k).book.cash

/-- The orders pending before a bar ask for lots within the participation limit, and their margins
together with that of the book keep to the cash. -/
def AsksWithinLimits (setup : Setup K) (prices : Prices K) (k : ℕ) (state : TsmomState K) : Prop :=
  (∀ fill ∈ barFills setup prices k state,
    (fill.lots : K) ≤ setup.config.maxParticipation * prices.volumeAt fill.order.symbol k) ∧
  bookMargin setup prices.symbols state.book +
    ((barFills setup prices k state).map Fill.margin).sum ≤ state.book.cash

end FinDashboard.Tsmom
