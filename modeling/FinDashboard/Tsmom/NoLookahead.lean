import FinDashboard.Tsmom.Backtest

/-!
# What a run of the trend backtest writes down

Trades are dated by the bar that fills them, and records and signals have one entry for each bar.
-/

namespace FinDashboard.Tsmom

open List

section RunLog

open Ledger Runs

variable {K : Type}

/-- The positions and the trades stay as they are. -/
def SameBook (before after : Book K) : Prop :=
  after.longPositions = before.longPositions ∧ after.shortPositions = before.shortPositions ∧
    after.trades = before.trades

theorem SameBook.trans {first second third : Book K} (one : SameBook first second)
    (two : SameBook second third) : SameBook first third :=
  ⟨two.1.trans one.1, two.2.1.trans one.2.1, two.2.2.trans one.2.2⟩

theorem SameBook.side {before after : Book K} (same : SameBook before after) :
    after.side = before.side := by
  funext isLong
  rw [Book.side, Book.side, same.1, same.2.1]

variable [Zero K] [One K] [Add K] [Sub K] [Neg K] [Mul K] [Div K] [NatCast K] [IntCast K] [LT K]
  [LE K] [DecidableLT K] [DecidableLE K] {k : ℕ}

variable (setup : Setup K)

section Dates

variable {math : FloatMath K} {config : FuturesTsmomConfig K} {spec : ContractSpec K}
  {openPrice : K} {order : PendingOrder K} {book : Book K} {prices : Prices K}

/-- The book has traded at a bar, and only appended to its trades. -/
def TradesAt (k : ℕ) (before after : Book K) : Prop :=
  AppendedAt (fun trade : FuturesTrade K => trade.barIndex) k before.trades after.trades

omit [Div K] [NatCast K] [DecidableLE K] in
theorem tradesAt_fill (isLong : Bool) (position : Position K) (lots : ℤ) (price : K) :
    TradesAt k book (book.fill isLong order.symbol position
      (tradeOf spec order k lots price openPrice)) := by
  unfold TradesAt
  rw [Book.fill_trades]
  exact .one _ rfl

theorem tradesAt_fillOpen (isLong : Bool) :
    TradesAt k book (fillOpen math config spec k openPrice order book isLong) := by
  unfold fillOpen
  by_cases nothing : order.targetLots ≤ 0
  · rw [if_pos nothing]
    exact .refl _
  · rw [if_neg nothing]
    dsimp only
    split
    · exact .refl _
    · exact tradesAt_fill isLong _ _ _

theorem tradesAt_fillClose (isLong : Bool) :
    TradesAt k book (fillClose config spec k openPrice order book isLong) := by
  unfold fillClose
  dsimp only
  split
  · exact .refl _
  · exact tradesAt_fill isLong _ _ _

theorem tradesAt_fillRoll (isLong : Bool) :
    TradesAt k book (fillRoll config spec k openPrice order book isLong) := by
  unfold fillRoll
  dsimp only
  split
  · exact tradesAt_fill isLong _ _ _
  · exact .refl _

theorem tradesAt_fillOrder (prices : Prices K) :
    TradesAt k book (fillOrder setup.math setup.config setup.specs prices k book order) := by
  unfold fillOrder
  cases fillable? setup.specs prices k order with
  | none => exact .refl _
  | some found =>
    dsimp only
    unfold fillAt
    cases order.action with
    | openLong => exact tradesAt_fillOpen true
    | openShort => exact tradesAt_fillOpen false
    | closeLong => exact tradesAt_fillClose true
    | closeShort => exact tradesAt_fillClose false
    | roll => exact (tradesAt_fillRoll true).trans (tradesAt_fillRoll false)

omit [Div K] [NatCast K] [DecidableLT K] in
theorem sameBook_settleSymbol (specs : List (String × ContractSpec K)) (prices : Prices K)
    (book : Book K) (symbol : String) : SameBook book (settleSymbol specs prices k book symbol) := by
  unfold settleSymbol
  cases find symbol specs with
  | none => exact ⟨rfl, rfl, rfl⟩
  | some spec =>
    dsimp only
    split <;> exact ⟨rfl, rfl, rfl⟩

omit [Div K] [NatCast K] [DecidableLT K] in
/-- The mark of a bar changes nothing but the cash. -/
theorem sameBook_settle (specs : List (String × ContractSpec K)) (prices : Prices K)
    (book : Book K) : SameBook book (settle specs prices k book) := by
  have all : ∀ (symbols : List String) (book : Book K),
      SameBook book (symbols.foldl (settleSymbol specs prices k) book) := by
    intro symbols
    induction symbols with
    | nil => exact fun _ => ⟨rfl, rfl, rfl⟩
    | cons symbol rest ih =>
      exact fun book => (sameBook_settleSymbol specs prices book symbol).trans (ih _)
  exact all prices.symbols book

theorem book_closeBar (prices : Prices K) (filled : Book K) (state : TsmomState K) :
    (closeBar setup prices k filled state).book = settle setup.specs prices k filled := by
  unfold closeBar
  dsimp only
  split <;> rfl

theorem tradesAt_barStep (prices : Prices K) (k : ℕ) (state : TsmomState K) :
    TradesAt k state.book (barStep setup prices k state).book := by
  unfold TradesAt
  rw [barStep, book_closeBar, (sameBook_settle _ _ _).2.2]
  exact AppendedAt.foldl (fun book : Book K => book.trades) (fun _ _ => tradesAt_fillOrder setup prices) state.pendingOrders state.book

/-- The trades after some bars were made in them. -/
theorem trades_stateAt_lt (prices : Prices K) (n : ℕ) :
    ∀ trade ∈ (stateAt setup prices n).book.trades, trade.barIndex < n :=
  date_lt_of_mem (fun state : TsmomState K => state.book.trades) rfl (tradesAt_barStep setup prices) n

theorem trades_stateAt_succ (prices : Prices K) (k : ℕ) : (stateAt setup prices (k + 1)).book.trades =
      (fillPending setup prices k (stateAt setup prices k)).trades := by
  calc
    (stateAt setup prices (k + 1)).book.trades
        = (barStep setup prices k (stateAt setup prices k)).book.trades := rfl
    _ = (fillPending setup prices k (stateAt setup prices k)).trades := by
      rw [barStep, book_closeBar, (sameBook_settle _ _ _).2.2]

/-- The trades up to a bar that has come are those its fills leave. -/
theorem trades_upTo (prices : Prices K) {n : ℕ} (past : k < n) :
    (stateAt setup prices n).book.trades.filter (fun trade => trade.barIndex ≤ k) =
      (fillPending setup prices k (stateAt setup prices k)).trades :=
  (filter_date_le (fun state : TsmomState K => state.book.trades) rfl
    (tradesAt_barStep setup prices) past).trans (trades_stateAt_succ setup prices k)

end Dates

section Logs

/-- Every bar adds one record and one entry of signals, and changes nothing it has written. -/
theorem closeBar_logs (prices : Prices K) (filled : Book K) (state : TsmomState K) : ∃ record signals,
      (closeBar setup prices k filled state).dailyRecords = state.dailyRecords ++ [record] ∧
      (closeBar setup prices k filled state).allSignals = state.allSignals ++ [signals] := by
  unfold closeBar
  dsimp only
  split <;> exact ⟨_, _, rfl, rfl⟩

theorem logs_length (prices : Prices K) (n : ℕ) : (stateAt setup prices n).dailyRecords.length = n ∧
      (stateAt setup prices n).allSignals.length = n := by
  induction n with
  | zero => exact ⟨rfl, rfl⟩
  | succ n ih =>
    obtain ⟨record, signals, records, entries⟩ := closeBar_logs (k := n) setup prices
      (fillPending setup prices n (stateAt setup prices n)) (stateAt setup prices n)
    have step : stateAt setup prices (n + 1) = closeBar setup prices n
        (fillPending setup prices n (stateAt setup prices n)) (stateAt setup prices n) := rfl
    rw [step, records, entries, length_append, length_append, ih.1, ih.2]
    exact ⟨rfl, rfl⟩

/-- A log of one entry a bar is cut to what the first bars wrote. -/
theorem take_eq_of_prefix {α : Type} {first whole : List α} {m : ℕ} (front : first <+: whole)
    (length : first.length = m) : whole.take m = first := by
  rw [← length]
  exact (prefix_iff_eq_take.mp front).symm

theorem logs_take (prices : Prices K) (m n : ℕ) : (stateAt setup prices n).dailyRecords.take m =
        (stateAt setup prices (min m n)).dailyRecords ∧ (stateAt setup prices n).allSignals.take m =
        (stateAt setup prices (min m n)).allSignals := by
  rcases Nat.le_total m n with early | ended
  · rw [Nat.min_eq_left early]
    constructor
    · refine take_eq_of_prefix (afterBars_grows ?_ early) (logs_length setup prices m).1
      intro j state
      obtain ⟨record, signals, records, -⟩ := closeBar_logs (k := j) setup prices
        (fillPending setup prices j state) state
      exact ⟨[record], records.symm⟩
    · refine take_eq_of_prefix (afterBars_grows ?_ early) (logs_length setup prices m).2
      intro j state
      obtain ⟨record, signals, -, entries⟩ := closeBar_logs (k := j) setup prices
        (fillPending setup prices j state) state
      exact ⟨[signals], entries.symm⟩
  · rw [Nat.min_eq_right ended]
    constructor
    · exact take_of_length_le (by rw [(logs_length setup prices n).1]; exact ended)
    · exact take_of_length_le (by rw [(logs_length setup prices n).2]; exact ended)

theorem record_stateAt (prices : Prices K) {n : ℕ} (past : k < n) :
    (stateAt setup prices n).dailyRecords[k]? =
      some (recordOf setup.specs prices k (stateAt setup prices (k + 1)).book) := by
  have upTo := (logs_take setup prices (k + 1) n).1
  rw [Nat.min_eq_left past] at upTo
  have last : (stateAt setup prices (k + 1)).dailyRecords =
      (stateAt setup prices k).dailyRecords ++
        [recordOf setup.specs prices k (stateAt setup prices (k + 1)).book] := by
    have step : stateAt setup prices (k + 1) = closeBar setup prices k
        (fillPending setup prices k (stateAt setup prices k)) (stateAt setup prices k) := rfl
    rw [step, book_closeBar]
    unfold closeBar
    dsimp only
    split <;> rfl
  have before := (logs_length setup prices k).1
  calc
    (stateAt setup prices n).dailyRecords[k]?
        = ((stateAt setup prices n).dailyRecords.take (k + 1))[k]? :=
          (getElem?_take_of_lt (Nat.lt_succ_self k)).symm
    _ = some (recordOf setup.specs prices k (stateAt setup prices (k + 1)).book) := by
      rw [upTo, last, getElem?_append_right (by omega), before, Nat.sub_self]
      rfl

end Logs

end RunLog

/-!
## The trend backtest looks at no later bar

Two runs whose prices agree up to a bar record the same up to that bar. Nothing is assumed of the
arithmetic.
-/

section NoLookahead

open Runs

variable {K : Type} [Zero K] [One K] [Add K] [Sub K] [Neg K] [Mul K] [Div K] [NatCast K] [IntCast K]
  [LT K] [LE K] [DecidableLT K] [DecidableLE K] {setup : Setup K} {a b : Prices K} {k : ℕ}

section Bar

/-- The fills of a bar read its opens and volumes. -/
theorem fillPending_congr (agree : Prices.Agree 0 (k + 1) a b) (state : TsmomState K) :
    fillPending setup a k state = fillPending setup b k state := by
  have fills : fillOrder setup.math setup.config setup.specs a k =
      fillOrder setup.math setup.config setup.specs b k := by
    funext book order
    have opens := agree.opens order.symbol k (by omega)
    have volumes := agree.volumes order.symbol k (by omega)
    simp only [fillOrder, fillable?, opens, volumes]
  simp only [fillPending, fills]

/-- The rest of a bar reads the closes up to it. -/
theorem closeBar_congr (agree : Prices.Agree (k + 1) 0 a b) (filled : Book K)
    (state : TsmomState K) : closeBar setup a k filled state = closeBar setup b k filled state := by
  have settled : ∀ book, settle setup.specs a k book = settle setup.specs b k book := by
    have each : settleSymbol setup.specs a k = settleSymbol setup.specs b k := by
      funext book symbol
      simp only [settleSymbol, Prices.closeAt_congr agree, Prices.prevClose_congr agree]
    intro book
    simp only [settle, each, agree.symbols]
  have recorded : ∀ book, recordOf setup.specs a k book = recordOf setup.specs b k book := by
    intro book
    have each : exposureOf setup.specs a k book = exposureOf setup.specs b k book := by
      funext symbol
      simp only [exposureOf, Prices.closeAt_congr agree]
    simp only [recordOf, each, agree.symbols]
  have histories : closesHistory a k = closesHistory b k := by
    have each : (fun symbol => (symbol, (a.closes symbol).take (k + 1))) =
        fun symbol => (symbol, (b.closes symbol).take (k + 1)) := by
      funext symbol
      rw [take_congr (agree.closes symbol)]
    simp only [closesHistory, each, agree.symbols]
  have ordered : ∀ book signals, nextOrders setup a k book signals =
      nextOrders setup b k book signals := by
    intro book signals
    simp only [nextOrders, Prices.closeAt_congr agree, agree.symbols]
  simp only [closeBar, settled, recorded, histories, ordered]

theorem barStep_congr (agree : Prices.Agree (k + 1) (k + 1) a b) (state : TsmomState K) :
    barStep setup a k state = barStep setup b k state := by
  have fills : fillPending setup a k state = fillPending setup b k state :=
    fillPending_congr (agree.mono (Nat.zero_le (k + 1)) (Nat.le_refl (k + 1))) state
  simp only [barStep, fills]
  exact closeBar_congr (agree.mono (Nat.le_refl (k + 1)) (Nat.zero_le _)) _ state

end Bar

theorem stateAt_congr (agree : Prices.Agree k k a b) : stateAt setup a k = stateAt setup b k :=
  afterBars_congr fun _ early state =>
    barStep_congr (agree.mono (by omega) (by omega)) state

/-- Runs over histories that agree on the closes before a bar and on the opens and volumes up to it make
the same trades up to that bar; where the closes of the bar agree too, the records, the equity and the
signals up to it are the same. -/
theorem no_lookahead (setup : Setup K) (a b : Prices K) (first second : TsmomResult K) (k : ℕ)
    (ranFirst : runBacktest setup a = .ok first) (ranSecond : runBacktest setup b = .ok second)
    (length : first.barCount = second.barCount) : (Prices.Agree k (k + 1) a b →
      first.trades.filter (fun trade => trade.barIndex ≤ k) =
        second.trades.filter (fun trade => trade.barIndex ≤ k)) ∧ (Prices.Agree (k + 1) (k + 1) a b →
      first.equityCurve.take (k + 1) = second.equityCurve.take (k + 1) ∧
        first.dailyRecords.take (k + 1) = second.dailyRecords.take (k + 1) ∧
        first.allSignals.take (k + 1) = second.allSignals.take (k + 1)) := by
  obtain ⟨-, -, rfl⟩ := runBacktest_eq_ok.mp ranFirst
  obtain ⟨-, -, rfl⟩ := runBacktest_eq_ok.mp ranSecond
  replace length : barCount a = barCount b := length
  rw [length]
  generalize barCount b = n
  constructor
  · intro agree
    rcases Nat.lt_or_ge k n with past | ahead
    · have before : stateAt setup a k = stateAt setup b k :=
        stateAt_congr (agree.mono (Nat.le_refl k) (by omega))
      have fills : ∀ state, fillPending setup a k state = fillPending setup b k state :=
        fillPending_congr (agree.mono (Nat.zero_le k) (Nat.le_refl (k + 1)))
      simp only [resultOf, trades_upTo setup _ past, before, fills]
    · have whole : stateAt setup a n = stateAt setup b n :=
        stateAt_congr (agree.mono ahead (by omega))
      simp only [resultOf, whole]
  · intro agree
    have same : stateAt setup a (min (k + 1) n) = stateAt setup b (min (k + 1) n) :=
      stateAt_congr (agree.mono (Nat.min_le_left _ _) (Nat.min_le_left _ _))
    have recorded : (resultOf setup a n).dailyRecords.take (k + 1) =
        (resultOf setup b n).dailyRecords.take (k + 1) := by
      simp only [resultOf, (logs_take setup _ (k + 1) n).1, same]
    have signals : (resultOf setup a n).allSignals.take (k + 1) =
        (resultOf setup b n).allSignals.take (k + 1) := by
      simp only [resultOf, (logs_take setup _ (k + 1) n).2, same]
    refine ⟨?_, recorded, signals⟩
    calc
      (resultOf setup a n).equityCurve.take (k + 1)
          = ((resultOf setup a n).dailyRecords.take (k + 1)).map (·.equity) := map_take.symm
      _ = ((resultOf setup b n).dailyRecords.take (k + 1)).map (·.equity) := by rw [recorded]
      _ = (resultOf setup b n).equityCurve.take (k + 1) := map_take

theorem no_lookahead_smallRun : (resultOf smallSetup risingPrices 6).trades.filter
        (fun trade => trade.barIndex ≤ 4) =
      (resultOf smallSetup (smallPrices [1, 2, 4, 8, 7, 1] [1, 2, 4, 8, 10, 20] 200) 6).trades.filter
        (fun trade => trade.barIndex ≤ 4) := by
  have agree : Prices.Agree 4 5 risingPrices
      (smallPrices [1, 2, 4, 8, 7, 1] [1, 2, 4, 8, 10, 20] 200) := by
    refine ⟨rfl, fun _ => ?_, fun _ => ?_, fun _ _ _ => rfl⟩
    · exact (by decide +kernel : ∀ i < 4, [(1 : ℚ), 2, 4, 8, 16, 32][i]? = [(1 : ℚ), 2, 4, 8, 7, 1][i]?)
    · exact (by decide +kernel : ∀ i < 5, [(1 : ℚ), 2, 4, 8, 10, 16][i]? = [(1 : ℚ), 2, 4, 8, 10, 20][i]?)
  have firstRun := smallRun [1, 2, 4, 8, 16, 32] [1, 2, 4, 8, 10, 16] 200 rfl
  have secondRun := smallRun [1, 2, 4, 8, 7, 1] [1, 2, 4, 8, 10, 20] 200 rfl
  exact (no_lookahead smallSetup _ _ _ _ 4 firstRun secondRun rfl).1 agree

end NoLookahead

end FinDashboard.Tsmom
