import FinDashboard.Tsmom.Lots
import Mathlib.Algebra.BigOperators.Group.Finset.Basic

/-!
# Equity and the profit of the lots

The account is marked from close to close, so a lot that is bought or sold away from the previous close
earns a different amount in the account than it does, and no commission is ever paid.
-/

namespace FinDashboard.Tsmom

open Ledger Runs List

variable {K : Type} [Field K] [LinearOrder K]

def multiplierOf (specs : List (String × ContractSpec K)) (symbol : String) : K :=
  (find symbol specs).elim 0 (·.multiplier)

def commissionsOf (trades : List (FuturesTrade K)) : K := (trades.map (·.commission)).sum

/-- The initial capital with the profit of the lots some trades opened, valued at given closes, less the
commissions of the trades. -/
def profitEquity (setup : Setup K) (close : String → K) (trades : List (FuturesTrade K)) : K :=
  setup.initialCapital + profitOf (multiplierOf setup.specs) close (lotsOf trades) -
    commissionsOf trades

/-- How much the account has more than the lots have earned. -/
def excess (setup : Setup K) (close : String → K) (book : Book K) : K :=
  book.cash - profitEquity setup close book.trades

/-- What a fill adds to that: the lots that are opened are marked from the previous close instead of their
price, the lots that are closed are not marked to theirs, and the commission is not paid. -/
def Fill.excess (prevClose : String → K) (fill : Fill K) : K :=
  (if fill.order.action.opens then 1 else -1) * direction fill.order.action.isLong *
      (fill.lots : K) * fill.spec.multiplier * (fill.fillPrice - prevClose fill.order.symbol) +
    fill.spec.commission fill.fillPrice fill.lots

/-- What the fills of a bar add. -/
def barExcess (setup : Setup K) (prices : Prices K) (k : ℕ) (state : TsmomState K) : K :=
  ((barFills setup prices k state).map (Fill.excess fun symbol => prices.prevClose symbol k)).sum

/-- The held lots of a book are its positions. -/
structure Tracked (symbols : List String) (book : Book K) : Prop where
  counts : ∀ isLong symbol,
    ((heldCount symbol isLong (lotsOf book.trades) : ℕ) : ℤ) = (book.side isLong symbol).lots
  known : ∀ lot ∈ lotsOf book.trades, lot.symbol ∈ symbols

variable {setup : Setup K} {prices : Prices K} {k : ℕ}

section OneFill

variable {fill : Fill K} {book : Book K}

theorem tradeLots_opens (opens : fill.order.action.opens = true) (lots : List (Lot K)) :
    tradeLots lots (fill.trade k) = lots ++ replicate fill.lots.toNat
      { symbol := fill.order.symbol, isLong := fill.order.action.isLong,
        entryPrice := fill.fillPrice } := by
  have action : (fill.trade k).action = fill.order.action := rfl
  unfold tradeLots
  rw [action]
  cases own : fill.order.action with
  | openLong => rfl
  | openShort => rfl
  | closeLong => rw [own] at opens; cases opens
  | closeShort => rw [own] at opens; cases opens
  | roll => rw [own] at opens; cases opens

theorem tradeLots_closes (closes : fill.order.action.opens = false)
    (notRoll : fill.order.action ≠ .roll) (lots : List (Lot K)) :
    tradeLots lots (fill.trade k) = closeLots fill.order.symbol fill.order.action.isLong
      fill.fillPrice fill.lots.toNat lots := by
  have action : (fill.trade k).action = fill.order.action := rfl
  unfold tradeLots
  rw [action]
  cases own : fill.order.action with
  | openLong => rw [own] at closes; cases closes
  | openShort => rw [own] at closes; cases closes
  | closeLong => rfl
  | closeShort => rfl
  | roll => exact absurd own notRoll

theorem closable (tracked : Tracked prices.symbols book)
    (found : fill? setup prices k book fill.order = some fill)
    (closes : fill.order.action.opens = false) : fill.lots.toNat ≤
      heldCount fill.order.symbol fill.order.action.isLong (lotsOf book.trades) := by
  have held := lots_le_of_closes found closes
  have counted := tracked.counts fill.order.action.isLong fill.order.symbol
  omega

theorem side_applyTo (tracked : Tracked prices.symbols book)
    (found : fill? setup prices k book fill.order = some fill) (isLong : Bool) (symbol : String) :
    ((fill.applyTo k book).side isLong symbol).lots = (book.side isLong symbol).lots +
        if isLong = fill.order.action.isLong ∧ symbol = fill.order.symbol then
          (if fill.order.action.opens then fill.lots else -fill.lots) else 0 := by
  unfold Fill.applyTo
  rw [Book.side_fill]
  by_cases own : isLong = fill.order.action.isLong ∧ symbol = fill.order.symbol
  · rw [if_pos own, if_pos own, own.1, own.2]
    have counted := tracked.counts fill.order.action.isLong fill.order.symbol
    unfold Fill.position
    cases opens : fill.order.action.opens with
    | true =>
      rw [if_pos rfl, if_pos rfl, increase_lots (by omega)]
    | false =>
      rw [if_neg Bool.false_ne_true, if_neg Bool.false_ne_true,
        decrease_lots (lots_le_of_closes found opens), sub_eq_add_neg]
  · rw [if_neg own, if_neg own, add_zero]

/-- A fill keeps the held lots and the positions together. -/
theorem tracked_applyTo (tracked : Tracked prices.symbols book)
    (known : fill.order.symbol ∈ prices.symbols) (notRoll : fill.order.action ≠ .roll)
    (found : fill? setup prices k book fill.order = some fill) :
    Tracked prices.symbols (fill.applyTo k book) := by
  have trades : (fill.applyTo k book).trades = book.trades ++ [fill.trade k] :=
    Book.fill_trades book
  have positive := fill.lots_pos
  constructor
  · intro isLong symbol
    have counted := tracked.counts isLong symbol
    rw [side_applyTo tracked found, trades, lotsOf_append]
    cases opens : fill.order.action.opens with
    | true =>
      rw [tradeLots_opens opens, heldCount_append, heldCount_replicate, if_pos rfl]
      split <;> omega
    | false =>
      have fewer := heldCount_closeLots symbol isLong fill.fillPrice (closable tracked found opens)
      rw [tradeLots_closes opens notRoll, if_neg Bool.false_ne_true]
      by_cases own : isLong = fill.order.action.isLong ∧ symbol = fill.order.symbol
      · rw [if_pos own] at fewer ⊢
        omega
      · rw [if_neg own] at fewer ⊢
        omega
  · intro lot member
    rw [trades, lotsOf_append] at member
    cases opens : fill.order.action.opens with
    | true =>
      rw [tradeLots_opens opens] at member
      rcases mem_append.mp member with old | new
      · exact tracked.known lot old
      · rw [(mem_replicate.mp new).2]
        exact known
    | false =>
      rw [tradeLots_closes opens notRoll] at member
      have symbol : lot.symbol ∈ _ := mem_map_of_mem (f := (·.symbol)) member
      rw [symbols_closeLots] at symbol
      obtain ⟨other, old, same⟩ := mem_map.mp symbol
      rw [← same]
      exact tracked.known other old

/-- A fill moves the account and the profit of the lots apart by its excess. -/
theorem excess_applyTo {prevClose : String → K} (tracked : Tracked prices.symbols book)
    (notRoll : fill.order.action ≠ .roll) (found : fill? setup prices k book fill.order = some fill) :
    excess setup prevClose (fill.applyTo k book) =
      excess setup prevClose book + fill.excess prevClose := by
  have trades : (fill.applyTo k book).trades = book.trades ++ [fill.trade k] :=
    Book.fill_trades book
  have cash : (fill.applyTo k book).cash = book.cash := Book.fill_cash book
  have commissions : commissionsOf (book.trades ++ [fill.trade k]) =
      commissionsOf book.trades + fill.spec.commission fill.fillPrice fill.lots := by
    unfold commissionsOf
    rw [map_append, sum_append, map_singleton, sum_singleton]
    rfl
  have multiplier : multiplierOf setup.specs fill.order.symbol = fill.spec.multiplier := by
    obtain ⟨-, -, possible, -⟩ := fill?_spec found
    rw [multiplierOf, (fillable?_spec possible).1]
    rfl
  have lots : ((fill.lots.toNat : ℕ) : K) = (fill.lots : K) := by
    have same : ((fill.lots.toNat : ℕ) : ℤ) = fill.lots := Int.toNat_of_nonneg fill.lots_pos.le
    rw [← Int.cast_natCast, same]
  unfold excess profitEquity Fill.excess
  rw [trades, cash, commissions, lotsOf_append]
  cases opens : fill.order.action.opens with
  | true =>
    rw [tradeLots_opens opens, profitOf_append, profitOf_replicate, multiplier, lots, if_pos rfl]
    ring
  | false =>
    rw [tradeLots_closes opens notRoll, profitOf_closeLots (closable tracked found opens),
      multiplier, lots, if_neg Bool.false_ne_true]
    ring

end OneFill

section OneBar

/-- What a symbol adds to the account from close to close. -/
def dayMove (setup : Setup K) (prices : Prices K) (k : ℕ) (book : Book K) (symbol : String) : K :=
  (prices.closeAt symbol k - prices.prevClose symbol k) * multiplierOf setup.specs symbol *
    (((book.side true symbol).lots : K) - ((book.side false symbol).lots : K))

/-- A closed position would be marked by nothing. -/
theorem mark_eq {K : Type} [Field K] {lots : ℤ} {cash gain : K} (nonneg : 0 ≤ lots) (unit : K) (marks : gain = unit * lots) :
    (if 0 < lots then cash + gain else cash) = cash + gain := by
  by_cases held : 0 < lots
  · rw [if_pos held]
  · obtain rfl : lots = 0 := by omega
    rw [if_neg held, marks, Int.cast_zero, mul_zero, add_zero]

theorem cash_settleSymbol (setup : Setup K) {symbol : String} {book : Book K}
    (positive : 0 < prices.closeAt symbol k)
    (nonneg : ∀ isLong symbol, 0 ≤ (book.side isLong symbol).lots) :
    (settleSymbol setup.specs prices k book symbol).cash =
      book.cash + dayMove setup prices k book symbol := by
  have long := nonneg true symbol
  have short := nonneg false symbol
  simp only [Book.side, if_true, Bool.false_eq_true, if_false] at long short
  unfold settleSymbol dayMove multiplierOf Position.isOpen
  simp only [Book.side, if_true, Bool.false_eq_true, if_false, decide_eq_true_eq]
  cases find symbol setup.specs with
  | none => simp
  | some spec =>
    dsimp only
    rw [if_neg (not_le.mpr positive)]
    dsimp only
    rw [mark_eq long _ rfl, mark_eq short
      (-((prices.closeAt symbol k - prices.prevClose symbol k) * spec.multiplier)) (by ring),
      Option.elim_some]
    ring

/-- The mark of a bar adds what the symbols moved. -/
theorem cash_settle (setup : Setup K) {book : Book K}
    (positive : ∀ symbol ∈ prices.symbols, 0 < prices.closeAt symbol k)
    (nonneg : ∀ isLong symbol, 0 ≤ (book.side isLong symbol).lots) :
    (settle setup.specs prices k book).cash =
      book.cash + (prices.symbols.map (dayMove setup prices k book)).sum := by
  have adds : ∀ other, SameBook book other → ∀ symbol ∈ prices.symbols,
      SameBook book (settleSymbol setup.specs prices k other symbol) ∧
        (settleSymbol setup.specs prices k other symbol).cash =
          other.cash + dayMove setup prices k book symbol := by
    intro other same symbol member
    have moved := cash_settleSymbol setup (positive symbol member)
      (show ∀ isLong symbol, 0 ≤ (other.side isLong symbol).lots by rw [same.side]; exact nonneg)
    refine ⟨same.trans (sameBook_settleSymbol setup.specs prices other symbol), ?_⟩
    rw [moved, dayMove, dayMove, same.side]
  have total := foldl_measure (SameBook book) (·.cash) (fun _ => dayMove setup prices k book)
    ⟨rfl, rfl, rfl⟩ adds (pairwise_of_forall fun _ _ _ => rfl)
  exact total.2

/-- The mark keeps the account and the profit of the lots as far apart as they are. -/
theorem excess_settle (setup : Setup K) {book : Book K} (tracked : Tracked prices.symbols book)
    (positive : ∀ symbol ∈ prices.symbols, 0 < prices.closeAt symbol k) :
    Tracked prices.symbols (settle setup.specs prices k book) ∧
      excess setup (fun symbol => prices.closeAt symbol k) (settle setup.specs prices k book) =
        excess setup (fun symbol => prices.prevClose symbol k) book := by
  have nonneg : ∀ isLong symbol, 0 ≤ (book.side isLong symbol).lots := by
    intro isLong symbol
    rw [← tracked.counts]
    exact Int.natCast_nonneg _
  have cash := cash_settle setup positive nonneg
  have same := sameBook_settle (k := k) setup.specs prices book
  have trades := same.2.2
  constructor
  · constructor
    · intro isLong symbol
      rw [trades, tracked.counts, same.side]
    · rw [trades]
      exact tracked.known
  · have moves : prices.symbols.map (dayMove setup prices k book) =
        prices.symbols.map fun symbol =>
          (prices.closeAt symbol k - prices.prevClose symbol k) *
            multiplierOf setup.specs symbol * netHeld (lotsOf book.trades) symbol := by
      apply map_congr_left
      intro symbol _
      rw [dayMove, netHeld, ← tracked.counts, ← tracked.counts, Int.cast_natCast, Int.cast_natCast]
    have profit := profitOf_later (multiplierOf setup.specs)
      (fun symbol => prices.prevClose symbol k) (fun symbol => prices.closeAt symbol k)
      prices.nodup tracked.known
    rw [excess, excess, profitEquity, profitEquity, trades, cash, profit, moves]
    ring

/-- A bar moves the account and the profit of the lots apart by the excess of its fills. -/
theorem excess_barStep (setup : Setup K) {state : TsmomState K}
    (placed : Placed prices.symbols state.pendingOrders) (tracked : Tracked prices.symbols state.book)
    (positive : ∀ symbol ∈ prices.symbols, 0 < prices.closeAt symbol k) :
    Tracked prices.symbols (barStep setup prices k state).book ∧
      excess setup (fun symbol => prices.closeAt symbol k) (barStep setup prices k state).book =
        excess setup (fun symbol => prices.prevClose symbol k) state.book +
          barExcess setup prices k state := by
  have each : ∀ book fill, Tracked prices.symbols book → fill.order ∈ state.pendingOrders →
      fill? setup prices k book fill.order = some fill →
      Tracked prices.symbols (fill.applyTo k book) ∧
        excess setup (fun symbol => prices.prevClose symbol k) (fill.applyTo k book) =
          excess setup (fun symbol => prices.prevClose symbol k) book +
            fill.excess fun symbol => prices.prevClose symbol k := by
    intro book fill kept pending found
    have notRoll := placed.no_roll fill.order pending
    exact ⟨tracked_applyTo kept (placed.known fill.order pending) notRoll found,
      excess_applyTo kept notRoll found⟩
  have filled := fillPending_measure _ _ _ placed tracked each
  obtain ⟨kept, same⟩ := excess_settle setup filled.1 positive
  rw [barStep, book_closeBar]
  exact ⟨kept, same.trans filled.2⟩

end OneBar

/-- After some bars the account has more than the lots have earned by the excess of the fills so far. -/
theorem excess_stateAt (setup : Setup K) {n : ℕ}
    (positive : ∀ k < n, ∀ symbol ∈ prices.symbols, 0 < prices.closeAt symbol k) :
    Tracked prices.symbols (stateAt setup prices n).book ∧
      excess setup (fun symbol => prices.prevClose symbol n) (stateAt setup prices n).book =
        ∑ k ∈ Finset.range n, barExcess setup prices k (stateAt setup prices k) := by
  induction n with
  | zero =>
    refine ⟨⟨fun isLong symbol => by cases isLong <;> rfl, nofun⟩, ?_⟩
    simp [excess, profitEquity, commissionsOf, lotsOf, profitOf, stateAt, initialState]
  | succ n ih =>
    obtain ⟨tracked, before⟩ := ih fun k early => positive k (by omega)
    have today := excess_barStep setup (placed_stateAt setup prices n) tracked
      (positive n (Nat.lt_succ_self n))
    refine ⟨today.1, ?_⟩
    rw [Finset.sum_range_succ, ← before]
    exact today.2

end FinDashboard.Tsmom
