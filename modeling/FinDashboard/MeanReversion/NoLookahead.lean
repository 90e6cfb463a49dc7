import FinDashboard.MeanReversion.Simulator
import Mathlib.Algebra.Field.Rat
import Mathlib.Algebra.Order.Ring.Rat

/-!
# What a mean-reversion run sees of later bars

A bar reads the closes up to it, and its fills read its opens and volumes, but an order to buy is sized by
the worth of the portfolio at the closes of the bar that fills it.
-/

namespace FinDashboard.MeanReversion

open Ledger Runs List

variable {K : Type} [Zero K] [One K] [Add K] [Sub K] [Mul K] [Div K] [NatCast K] [LT K] [LE K]
  [DecidableLT K] [DecidableLE K] {setup : Setup K} {a b : Prices K} {k : ℕ}

section Fills

/-- What is open has the same close of a bar in two histories. -/
def SameWorth (a b : Prices K) (k : ℕ) (account : Account K) : Prop :=
  ∀ p ∈ account.positions, a.closeAt p.symbol k = b.closeAt p.symbol k

/-- Whenever an order to buy comes up to be filled at a bar, what is open by then has the same close of
the bar in two histories. -/
def SizedAlike (setup : Setup K) (a b : Prices K) (k : ℕ) :
    Account K × DayTotals K → List (PendingOrder K) → Prop
  | _, [] => True
  | filled, order :: rest =>
    (order.side = .buy → (fillable? a k order).isSome → SameWorth a b k filled.1) ∧
      SizedAlike setup a b k (fillOrder setup a k filled order) rest

instance [DecidableEq K] (account : Account K) : Decidable (SameWorth a b k account) :=
  inferInstanceAs (Decidable (∀ p ∈ account.positions, a.closeAt p.symbol k = b.closeAt p.symbol k))

instance decidableSizedAlike [DecidableEq K] :
    ∀ (filled : Account K × DayTotals K) (orders : List (PendingOrder K)),
      Decidable (SizedAlike setup a b k filled orders)
  | _, [] => .isTrue trivial
  | filled, order :: rest =>
    let _ := decidableSizedAlike (fillOrder setup a k filled order) rest
    inferInstanceAs (Decidable
      ((order.side = .buy → (fillable? a k order).isSome → SameWorth a b k filled.1) ∧
        SizedAlike setup a b k (fillOrder setup a k filled order) rest))

omit [One K] [Sub K] [Div K] [NatCast K] [LT K] [LE K] [DecidableLT K] [DecidableLE K] in
theorem portfolioValue_congr (math : NanMath K) {account : Account K} (same : SameWorth a b k account) :
    portfolioValue math a k account = portfolioValue math b k account := by
  have values : (account.positions.map fun p => p.shares * a.closeAt p.symbol k) =
      account.positions.map fun p => p.shares * b.closeAt p.symbol k := by
    apply map_congr_left
    intro p member
    rw [same p member]
  rw [portfolioValue, portfolioValue, values]

/-- An order reads the open and the volume of the bar, and for a buy the worth of the portfolio. -/
theorem fillOrder_congr (agree : Prices.Agree 0 (k + 1) a b) (filled : Account K × DayTotals K)
    (order : PendingOrder K)
    (same : order.side = .buy → (fillable? a k order).isSome → SameWorth a b k filled.1) :
    fillOrder setup a k filled order = fillOrder setup b k filled order := by
  have opens : fillable? a k order = fillable? b k order := by
    rw [fillable?, fillable?, agree.opens order.symbol k (by omega)]
  have volumes := agree.volumes order.symbol k (by omega)
  unfold fillOrder
  rw [← opens]
  cases found : fillable? a k order with
  | none => rfl
  | some rawPrice =>
    cases side : order.side with
    | sell => rfl
    | buy =>
      have worth := portfolioValue_congr setup.math (same side (by rw [found]; rfl))
      dsimp only
      rw [worth, volumes]

theorem foldl_fillOrder_congr (agree : Prices.Agree 0 (k + 1) a b) (orders : List (PendingOrder K))
    (filled : Account K × DayTotals K) (sized : SizedAlike setup a b k filled orders) :
    orders.foldl (fillOrder setup a k) filled = orders.foldl (fillOrder setup b k) filled := by
  induction orders generalizing filled with
  | nil => rfl
  | cons order rest ih =>
    obtain ⟨first, later⟩ := sized
    rw [foldl_cons, foldl_cons, ← fillOrder_congr agree filled order first]
    exact ih _ later

/-- With the closes of the bar the fills are the same, whatever is open. -/
theorem sizedAlike_of_agree (agree : Prices.Agree (k + 1) 0 a b) (orders : List (PendingOrder K))
    (filled : Account K × DayTotals K) : SizedAlike setup a b k filled orders := by
  induction orders generalizing filled with
  | nil => exact trivial
  | cons order rest ih => exact ⟨fun _ _ p _ => Prices.closeAt_congr agree p.symbol, ih _⟩

section Dates

variable {filled : Account K × DayTotals K} {order : PendingOrder K}

/-- The trades of an account after a fill are those before it and some of the bar. -/
def TradesAt (k : ℕ) (before after : Account K × DayTotals K) : Prop :=
  AppendedAt (fun trade : Trade K => trade.barIndex) k before.1.trades after.1.trades

theorem tradesAt_fillBuy (config : MeanReversionConfig K) (worth : K) (volume : Option K)
    (rawPrice : K) : TradesAt k filled (fillBuy config k worth volume order rawPrice filled) := by
  unfold fillBuy
  dsimp only
  split
  · exact .refl _
  · split
    · exact .refl _
    · split
      · split
        · exact .refl _
        · exact .one _ rfl
      · exact .one _ rfl

omit [Zero K] [LE K] [DecidableLE K] in
theorem tradesAt_fillSell (config : MeanReversionConfig K) (rawPrice : K) :
    TradesAt k filled (fillSell config k order rawPrice filled) := by
  unfold fillSell
  dsimp only
  split
  · exact .refl _
  · exact .one _ rfl

theorem tradesAt_fillOrder (setup : Setup K) (prices : Prices K) :
    TradesAt k filled (fillOrder setup prices k filled order) := by
  unfold fillOrder
  split
  · exact .refl _
  · split
    · exact tradesAt_fillBuy _ _ _ _
    · exact tradesAt_fillSell _ _

end Dates

end Fills

section Bar

omit [One K] [Add K] [Sub K] [Mul K] [Div K] [NatCast K] [LT K] [LE K] [DecidableLT K]
  [DecidableLE K] in
theorem safeClose_congr (agree : Prices.Agree (k + 1) 0 a b) (symbol : String) :
    safeClose a symbol k = safeClose b symbol k := by
  have here := agree.closes symbol k (by omega)
  unfold safeClose
  cases there : (b.closes symbol)[k]? with
  | some close => rw [here, there]
  | none =>
    rw [there] at here
    have short := getElem?_eq_none_iff.mp here
    have short' := getElem?_eq_none_iff.mp there
    have same : a.closes symbol = b.closes symbol := by
      have taken := take_congr (agree.closes symbol)
      rwa [take_of_length_le (by omega), take_of_length_le (by omega)] at taken
    rw [here, same]

omit [Zero K] [One K] [Add K] [Sub K] [Mul K] [Div K] [NatCast K] [LT K] [LE K] [DecidableLT K]
  [DecidableLE K] in
theorem closesAtBar_congr (agree : Prices.Agree (k + 1) 0 a b) : closesAtBar a k = closesAtBar b k := by
  have reached : ∀ symbol, k < (a.closes symbol).length ↔ k < (b.closes symbol).length := by
    intro symbol
    have here := agree.closes symbol k (by omega)
    rw [← not_iff_not, not_lt, not_lt, ← getElem?_eq_none_iff, ← getElem?_eq_none_iff, here]
  have taken : ∀ symbol, (a.closes symbol).take (k + 1) = (b.closes symbol).take (k + 1) :=
    fun symbol => take_congr (agree.closes symbol)
  simp only [closesAtBar, agree.symbols, reached, taken]

variable [Neg K] [BEq K]

/-- The rest of a bar reads the closes up to it. -/
theorem closeBar_congr (agree : Prices.Agree (k + 1) 0 a b) (filled : Account K × DayTotals K)
    (state : SimulatorState K) : closeBar setup a k filled state = closeBar setup b k filled state := by
  have equity : ∀ account, equityOf setup.math a k account = equityOf setup.math b k account := by
    intro account
    simp only [equityOf, safeClose_congr agree]
  simp only [closeBar, equity, closesAtBar_congr agree]

theorem barStep_congr (agree : Prices.Agree (k + 1) (k + 1) a b) (state : SimulatorState K) :
    barStep setup a k state = barStep setup b k state := by
  have closes := agree.mono (Nat.le_refl (k + 1)) (Nat.zero_le (k + 1))
  have fills : fillPending setup a k state.account state.pendingOrders =
      fillPending setup b k state.account state.pendingOrders :=
    foldl_fillOrder_congr (agree.mono (Nat.zero_le (k + 1)) (Nat.le_refl (k + 1))) _ _
      (sizedAlike_of_agree closes _ _)
  rw [barStep, barStep, fills]
  exact closeBar_congr closes _ state

end Bar

variable [Neg K] [BEq K]

theorem stateAt_congr (agree : Prices.Agree k k a b) : stateAt setup a k = stateAt setup b k :=
  afterBars_congr fun _ early state =>
    barStep_congr (agree.mono (by omega) (by omega)) state

theorem trades_closeBar (setup : Setup K) (prices : Prices K) (filled : Account K × DayTotals K)
    (state : SimulatorState K) :
    (closeBar setup prices k filled state).account.trades = filled.1.trades := by
  unfold closeBar
  dsimp only
  split
  · rfl
  · split <;> rfl

theorem tradesAt_barStep (setup : Setup K) (prices : Prices K) (k : ℕ) (state : SimulatorState K) :
    AppendedAt (fun trade : Trade K => trade.barIndex) k state.account.trades
      (barStep setup prices k state).account.trades := by
  rw [barStep, trades_closeBar]
  exact AppendedAt.foldl (fun filled : Account K × DayTotals K => filled.1.trades)
    (fun _ _ => tradesAt_fillOrder setup prices) state.pendingOrders _

/-- The trades up to a bar that has come are those its fills leave. -/
theorem trades_upTo (setup : Setup K) (prices : Prices K) {n : ℕ} (past : k < n) :
    (stateAt setup prices n).account.trades.filter (fun trade => trade.barIndex ≤ k) =
      (fillPending setup prices k (stateAt setup prices k).account
        (stateAt setup prices k).pendingOrders).1.trades :=
  (filter_date_le (fun state : SimulatorState K => state.account.trades) rfl
    (tradesAt_barStep setup prices) past).trans (trades_closeBar setup prices _ _)

/-- Runs over histories that agree on the closes before a bar and on the opens and volumes up to it make
the same trades up to that bar, where its orders to buy are sized alike. -/
theorem same_trades_of_sizedAlike (setup : Setup K) (a b : Prices K)
    (first second : MeanReversionResult K) (k : ℕ) (ranFirst : run setup a = some first)
    (ranSecond : run setup b = some second)
    (lengths : ∀ symbol, (a.closes symbol).length = (b.closes symbol).length)
    (agree : Prices.Agree k (k + 1) a b)
    (sized : SizedAlike setup a b k ((stateAt setup a k).account, { bought := 0, sold := 0 })
      (stateAt setup a k).pendingOrders) :
    first.trades.filter (fun trade => trade.barIndex ≤ k) =
      second.trades.filter (fun trade => trade.barIndex ≤ k) := by
  have bars : barCount a = barCount b := by
    simp only [barCount, agree.symbols, lengths]
  unfold run at ranFirst ranSecond
  split at ranFirst
  · cases ranFirst
  split at ranSecond
  · cases ranSecond
  cases ranFirst
  cases ranSecond
  rw [bars]
  generalize barCount b = n
  rcases Nat.lt_or_ge k n with past | ahead
  · have before : stateAt setup a k = stateAt setup b k :=
      stateAt_congr (agree.mono (Nat.le_refl k) (by omega))
    have fills := foldl_fillOrder_congr (agree.mono (Nat.zero_le k) (Nat.le_refl (k + 1))) _ _ sized
    have here : fillPending setup a k (stateAt setup a k).account
          (stateAt setup a k).pendingOrders =
        fillPending setup b k (stateAt setup b k).account (stateAt setup b k).pendingOrders := by
      rw [← before]
      exact fills
    simp only [resultOf, trades_upTo setup _ past, here]
  · have whole : stateAt setup a n = stateAt setup b n :=
      stateAt_congr (agree.mono ahead (by omega))
    simp only [resultOf, whole]

section Pair

/-- Exact arithmetic, as far as a run over the pair uses it: a return over two days has no root and is
always a number. -/
def pairSetup : Setup ℚ where
  math :=
    { sqrt := fun x => x
      truncate := fun x => x.num.tdiv x.den
      sum := sum
      nan := 0 }
  config :=
    { family := .reversal
      lookback := 2
      entryThreshold := 1 / 10
      exitThreshold := 1 / 20
      bollingerNumStd := 2
      regimeMethod := .none
      regimeVolLookback := 5
      regimeVolMaxRatio := 3
      maxWeightPerPosition := 1 / 5
      maxDailyTurnover := 1
      maxParticipation := 1 / 10
      commissionRate := 0
      commissionMin := 0
      stampTaxRate := 0
      slippageBps := 0 }
  initialCapital := 1000

/-- Both symbols fall on the seventh day and are bought at the open of the eighth, whose closes vary. -/
def pairPrices (closeA closeB : ℚ) : Prices ℚ where
  symbols := ["A", "B"]
  closes symbol := [10, 10, 10, 10, 10, 10, 8, if symbol = "A" then closeA else closeB, 8]
  opens _ := replicate 9 8
  volumes _ := []
  nodup := by decide

theorem pairPrices_agree (closeA closeB closeA' closeB' : ℚ) :
    Prices.Agree 7 8 (pairPrices closeA closeB) (pairPrices closeA' closeB') where
  symbols := rfl
  closes symbol i early := by
    obtain rfl | rfl | rfl | rfl | rfl | rfl | rfl :
      i = 0 ∨ i = 1 ∨ i = 2 ∨ i = 3 ∨ i = 4 ∨ i = 5 ∨ i = 6 := by omega
    all_goals rfl
  opens _ _ _ := rfl
  volumes _ _ _ := rfl

theorem same_trades_of_sizedAlike_pair :
    (resultOf pairSetup (pairPrices 8 8) 9).trades.filter (fun trade => trade.barIndex ≤ 7) =
      (resultOf pairSetup (pairPrices 8 20) 9).trades.filter (fun trade => trade.barIndex ≤ 7) :=
  same_trades_of_sizedAlike pairSetup (pairPrices 8 8) (pairPrices 8 20) _ _ 7 rfl rfl
    (fun _ => rfl) (pairPrices_agree 8 8 8 20) (by decide +kernel)

/-- The first symbol is bought first, and its close of that day decides how much of the second is
bought. -/
theorem shares_bought_vary : Prices.Agree 7 8 (pairPrices 8 8) (pairPrices 16 8) ∧
      (resultOf pairSetup (pairPrices 8 8) 9).trades.filter (fun trade => trade.barIndex ≤ 7) ≠
        (resultOf pairSetup (pairPrices 16 8) 9).trades.filter (fun trade => trade.barIndex ≤ 7) :=
  ⟨pairPrices_agree 8 8 16 8, by decide +kernel⟩

end Pair

end FinDashboard.MeanReversion
