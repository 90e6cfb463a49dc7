import FinDashboard.ConvertibleDoubleLow.Announcements
import FinDashboard.Ledger.Totals
import Mathlib.Tactic.Linarith
import Mathlib.Tactic.Ring

/-!
# The books of a convertible backtest

Every order records what it moves, and the close-out at the end does not: the books close if and only if
it has nothing to close out.
-/

namespace FinDashboard.ConvertibleDoubleLow

open Ledger List

variable {config : ConvertibleDoubleLowConfig ℚ} {inputs : BacktestInputs ℚ} {state next : State ℚ}
  {date : ℤ} {opens volumes : String → Option ℚ} {code : String}

section Statement

/-- The quantity the trades of a bond bought less the quantity they sold. -/
def netQuantity (code : String) (trades : List (ConvertibleTrade ℚ)) : ℚ :=
  total (fun trade => if trade.code = code then
    if trade.side = .buy then trade.quantity else -trade.quantity else 0) trades

/-- What some positions are worth, each at the close of its bond or else at its entry price. -/
def worthOf (snapshots : List (ConvertibleSnapshot ℚ)) (positions : List (String × Position ℚ)) : ℚ :=
  total (fun entry => markPrice snapshots entry * entry.2.quantity) positions

def closingCommissionOf (opens : String → Option ℚ) (entry : String × Position ℚ) : ℚ :=
  match tradable? (opens entry.1) with
  | some openPrice => closingCommission (openPrice * entry.2.quantity)
  | none => 0

/-- What the close-out brings in for a position, where it can close it. -/
def closingProceedsOf (opens : String → Option ℚ) (entry : String × Position ℚ) : ℚ :=
  match tradable? (opens entry.1) with
  | some openPrice => openPrice * entry.2.quantity
  | none => 0

/-- The commissions a run takes from its cash, given the state before the close-out. -/
def commissionsDeducted (opens : String → Option ℚ) (settled : State ℚ) : ℚ :=
  total (·.commission) settled.trades + total (closingCommissionOf opens) settled.positions

/-- The reported books of a run agree with the cash and the positions it ends with. -/
structure BooksClose (inputs : BacktestInputs ℚ) (config : ConvertibleDoubleLowConfig ℚ) (lastDate : ℤ)
    (ended : ConvertibleBacktestResult ℚ × State ℚ) : Prop where
  cash : ended.2.cash = config.capital + total (·.cashFlow) ended.1.trades
  commission : ended.1.commission =
    commissionsDeducted (inputs.nextOpens lastDate) (afterBars inputs config)
  quantities : ∀ code, find code ended.2.positions = none → netQuantity code ended.1.trades = 0
  equity : ended.1.finalEquity =
    ended.2.cash + worthOf (inputs.snapshots lastDate) ended.2.positions

/-- Nothing that is open after the last bar can be closed out, and what is open is valued in the last
equity there is: it is worth nothing and the cash is not less than that equity, or the equity is that of
now. -/
structure NothingToClose (inputs : BacktestInputs ℚ) (lastDate : ℤ) (settled : State ℚ) : Prop where
  unclosable : ∀ entry ∈ settled.positions, tradable? (inputs.nextOpens lastDate entry.1) = none
  valued : (worthOf (inputs.snapshots lastDate) settled.positions = 0 ∧
      ∀ last ∈ settled.equityCurve.getLast?, last.2 ≤ settled.cash) ∨
    (0 ≤ worthOf (inputs.snapshots lastDate) settled.positions ∧ ∃ last ∈ settled.equityCurve.getLast?,
        last.2 = settled.cash + worthOf (inputs.snapshots lastDate) settled.positions)

end Statement

section Bars

/-- The books before the close-out. -/
structure Books (config : ConvertibleDoubleLowConfig ℚ) (state : State ℚ) : Prop where
  cash : state.cash = config.capital + total (·.cashFlow) state.trades
  commission : state.totalCommission = total (·.commission) state.trades
  quantities : ∀ code, netQuantity code state.trades =
    (find code state.positions).elim 0 (·.quantity)
  keys : (state.positions.map (·.1)).Nodup

theorem toLots_le (quantity : ℚ) : toLots quantity ≤ quantity := by
  have floor := Rat.floor_le (quantity / 10)
  unfold toLots
  have lots : ((Decimals.floor (quantity / ((10 : ℕ) : ℚ)) : ℤ) : ℚ) ≤ quantity / 10 := floor
  push_cast
  linarith

theorem participating_le (volume quantity : ℚ) : participating config volume quantity ≤ quantity := by
  unfold participating
  split_ifs with limited
  · apply (toLots_le _).trans
    unfold pyMin
    split_ifs with less
    · exact le_of_lt less
    · exact le_refl _
  · exact le_refl _

theorem netQuantity_append (code : String) (trades : List (ConvertibleTrade ℚ))
    (trade : ConvertibleTrade ℚ) :
    netQuantity code (trades ++ [trade]) = netQuantity code trades + if trade.code = code then
      if trade.side = .buy then trade.quantity else -trade.quantity else 0 := by
  rw [netQuantity, total_append, total_cons, total_nil, add_zero, netQuantity]

theorem nodup_keys_remove {positions : List (String × Position ℚ)}
    (keys : (positions.map (·.1)).Nodup) : ((remove code positions).map (·.1)).Nodup :=
  keys.sublist ((remove_sublist code positions).map _)

namespace Books

theorem initial : Books config (initialState config) where
  cash := by simp [initialState]
  commission := rfl
  quantities _ := rfl
  keys := nodup_nil

theorem recordBuy (books : Books config state) {issuer : String} (fresh : find code state.positions = none)
    (openPrice fillPrice qty : ℚ) :
    Books config (recordBuy config code issuer date openPrice fillPrice qty state) where
  cash := by
    have cash := books.cash
    simp only [ConvertibleDoubleLow.recordBuy, total_append, total_cons, total_nil]
    linarith
  commission := by
    have commission := books.commission
    simp only [ConvertibleDoubleLow.recordBuy, total_append, total_cons, total_nil]
    linarith
  quantities other := by
    have before := books.quantities other
    simp only [ConvertibleDoubleLow.recordBuy, netQuantity_append, find_assign]
    by_cases same : code = other
    · rw [← same, fresh] at before
      rw [if_pos same, if_pos same, ← same, before]
      simp
    · rw [if_neg same, if_neg same, before, add_zero]
  keys := nodup_keys_assign books.keys

theorem recordSell (books : Books config state) {pos : Position ℚ} {qty : ℚ} {reason : TradeReason}
    (held : find code state.positions = some pos) (most : qty ≤ pos.quantity) (openPrice : ℚ) :
    Books config (recordSell config code pos date openPrice qty reason state) where
  cash := by
    have cash := books.cash
    simp only [ConvertibleDoubleLow.recordSell, total_append, total_cons, total_nil]
    linarith
  commission := by
    have commission := books.commission
    simp only [ConvertibleDoubleLow.recordSell, total_append, total_cons, total_nil]
    linarith
  quantities other := by
    have before := books.quantities other
    simp only [ConvertibleDoubleLow.recordSell, netQuantity_append]
    by_cases same : code = other
    · rw [← same, held] at before
      rw [if_pos same, if_neg (by decide), ← same, before, Option.elim_some]
      by_cases left : 0 < pos.quantity - qty
      · rw [if_pos left, find_assign, if_pos rfl, Option.elim_some]
        ring
      · rw [if_neg left, find_remove, if_pos rfl, Option.elim_none]
        linarith
    · have apart : ¬other = code := fun h => same h.symm
      rw [if_neg same, before, add_zero]
      split_ifs
      · rw [find_assign, if_neg same]
      · rw [find_remove, if_neg apart]
  keys := by
    simp only [ConvertibleDoubleLow.recordSell]
    split_ifs
    · exact nodup_keys_assign books.keys
    · exact nodup_keys_remove books.keys

theorem doRebalance (books : Books config state) : Books config (doRebalance inputs config date state) := by
  apply doRebalance_invariant books
  · intro s code reason s' books case
    cases case with
    | nothing => exact books
    | sold pos openPrice held => exact books.recordSell held (participating_le _ _) openPrice
  · intro s code issuer targetValue s' books fresh case
    cases case with
    | nothing => exact books
    | bought openPrice qty => exact books.recordBuy fresh openPrice _ qty

theorem bar (books : Books config state) (entry : ℤ × ℕ) : Books config (bar inputs config state entry) := by
  have rebalanced : Books config (rebalanceBar inputs config entry.2 entry.1 state) := by
    unfold rebalanceBar
    split_ifs
    · exact Books.doRebalance { books with }
    · exact books
  unfold ConvertibleDoubleLow.bar
  dsimp only
  split
  · exact { rebalanced with }
  · exact rebalanced

theorem afterBars (inputs : BacktestInputs ℚ) (config : ConvertibleDoubleLowConfig ℚ) :
    Books config (afterBars inputs config) :=
  foldlRecOn _ _ initial fun _ books entry _ => books.bar entry

end Books

end Bars

section CloseOut

/-- What the close-out of some positions does to the books. -/
structure ClosedOut (opens : String → Option ℚ) (entries : List (String × Position ℚ))
    (state next : State ℚ) : Prop where
  cash : next.cash = state.cash + total (closingProceedsOf opens) entries -
    total (closingCommissionOf opens) entries
  trades : next.trades = state.trades
  commission : next.totalCommission = state.totalCommission

variable (lastDate : ℤ)

theorem foldl_closePosition (entries : List (String × Position ℚ)) (keys : (entries.map (·.1)).Nodup)
    (held : ∀ entry ∈ entries, find entry.1 state.positions = some entry.2) :
    ClosedOut opens entries state ((entries.map (·.1)).foldl (closePosition lastDate opens) state) := by
  induction entries generalizing state with
  | nil => exact { cash := by simp, trades := rfl, commission := rfl }
  | cons entry rest ih =>
    obtain ⟨first, keys⟩ := nodup_cons.mp keys
    have here := held entry mem_cons_self
    rw [map_cons, foldl_cons]
    cases closePosition_case lastDate opens state entry.1 with
    | nothing same kept =>
      have shut : tradable? (opens entry.1) = none := by
        rcases kept with shut | gone
        · exact shut
        · cases here.symm.trans gone
      have later := ih keys fun other member => held other (mem_cons_of_mem _ member)
      rw [same]
      exact
        { cash := by
            rw [later.cash, total_cons, total_cons, closingProceedsOf, closingCommissionOf, shut]
            ring
          trades := later.trades
          commission := later.commission }
    | closed pos openPrice found opened cash positions trades commission curve rebalanced =>
      have kept : ∀ other ∈ rest,
          find other.1 (closePosition lastDate opens state entry.1).positions = some other.2 := by
        intro other member
        have apart : other.1 ≠ entry.1 := fun same =>
          first (mem_map.mpr ⟨other, member, same⟩)
        rw [positions, find_remove, if_neg apart]
        exact held other (mem_cons_of_mem _ member)
      have same := Option.some.inj (here.symm.trans found)
      have later := ih keys kept
      exact
        { cash := by
            rw [later.cash, cash, total_cons, total_cons, closingProceedsOf, closingCommissionOf,
              opened, same]
            dsimp only
            ring
          trades := later.trades.trans trades
          commission := later.commission.trans commission }

/-- The close-out adds what it sells to the cash and takes its commissions from it, and records no
trade and no commission. -/
theorem closeAllPositions_spec (keys : (state.positions.map (·.1)).Nodup) :
    ClosedOut opens state.positions state (closeAllPositions lastDate opens state) :=
  foldl_closePosition lastDate state.positions keys fun _ member => find_of_mem keys member

theorem closeAllPositions_of_unclosable
    (unclosable : ∀ entry ∈ state.positions, tradable? (opens entry.1) = none) :
    closeAllPositions lastDate opens state = state := by
  have each : ∀ codes : List String, (∀ code ∈ codes, tradable? (opens code) = none) →
      codes.foldl (closePosition lastDate opens) state = state := by
    intro codes shut
    induction codes with
    | nil => rfl
    | cons code rest ih =>
      have nothing : closePosition lastDate opens state code = state := by
        rw [closePosition, shut code mem_cons_self]
      rw [foldl_cons, nothing]
      exact ih fun other member => shut other (mem_cons_of_mem _ member)
  apply each
  intro code member
  obtain ⟨entry, held, rfl⟩ := mem_map.mp member
  exact unclosable entry held

theorem one_le_closingCommission (proceeds : ℚ) : 1 ≤ closingCommission proceeds := by
  unfold closingCommission pyMax
  split_ifs with less
  · exact le_refl _
  · exact not_lt.mp less

/-- A close-out that takes no commission has nothing to close out. -/
theorem unclosable_of_total_zero {positions : List (String × Position ℚ)}
    (untaken : total (closingCommissionOf opens) positions = 0) :
    ∀ entry ∈ positions, tradable? (opens entry.1) = none := by
  have nonneg : ∀ entry ∈ positions, 0 ≤ closingCommissionOf opens entry := by
    intro entry _
    unfold closingCommissionOf
    split
    · exact zero_le_one.trans (one_le_closingCommission _)
    · exact le_refl _
  intro entry member
  have least := le_total_of_mem nonneg member
  rw [untaken, closingCommissionOf] at least
  cases opened : tradable? (opens entry.1) with
  | none => rfl
  | some openPrice =>
    rw [opened] at least
    have positive := one_le_closingCommission (openPrice * entry.2.quantity)
    dsimp only at least
    linarith

/-- The larger of a cash and a last equity is the cash and a worth only if the worth is nothing and the
equity no more than the cash, or the equity is that of now. -/
theorem pyMax_eq_add_iff (cash last worth : ℚ) : pyMax cash last = cash + worth ↔
    (worth = 0 ∧ last ≤ cash) ∨ (0 ≤ worth ∧ last = cash + worth) := by
  unfold pyMax
  split_ifs with less
  · constructor
    · intro same
      exact Or.inr ⟨by linarith, same⟩
    · rintro (⟨zero, most⟩ | ⟨nonneg, same⟩)
      · linarith
      · exact same
  · have most := not_lt.mp less
    constructor
    · intro same
      exact Or.inl ⟨by linarith, most⟩
    · rintro (⟨zero, -⟩ | ⟨nonneg, same⟩)
      · linarith
      · linarith

end CloseOut

section Runs

theorem finalEquity_eq_iff (worth : ℚ) : (buildResult state).finalEquity = state.cash + worth ↔
    (worth = 0 ∧ ∀ last ∈ state.equityCurve.getLast?, last.2 ≤ state.cash) ∨
      (0 ≤ worth ∧ ∃ last ∈ state.equityCurve.getLast?, last.2 = state.cash + worth) := by
  unfold buildResult
  cases curve : state.equityCurve.getLast? with
  | none => simp
  | some last => simpa using pyMax_eq_add_iff state.cash last.2 worth

/-- The books of a run close if and only if it has nothing to close out at the end. -/
theorem booksClose_iff (inputs : BacktestInputs ℚ) (config : ConvertibleDoubleLowConfig ℚ)
    (ended : ConvertibleBacktestResult ℚ × State ℚ) (lastDate : ℤ)
    (ran : runBacktest inputs config = some ended) (last : inputs.dates.getLast? = some lastDate) :
    BooksClose inputs config lastDate ended ↔
      NothingToClose inputs lastDate (afterBars inputs config) := by
  have books := Books.afterBars inputs config
  have spec : ClosedOut (inputs.nextOpens lastDate) (afterBars inputs config).positions
      (afterBars inputs config)
      (closeAllPositions lastDate (inputs.nextOpens lastDate) (afterBars inputs config)) :=
    closeAllPositions_spec lastDate books.keys
  rw [runBacktest, last] at ran
  cases ran
  constructor
  · intro closes
    have taken := closes.commission
    rw [commissionsDeducted, ← books.commission] at taken
    have untaken : total (closingCommissionOf (inputs.nextOpens lastDate))
        (afterBars inputs config).positions = 0 := by
      have same : (buildResult (closeAllPositions lastDate (inputs.nextOpens lastDate)
          (afterBars inputs config))).commission = (afterBars inputs config).totalCommission :=
        spec.commission
      linarith
    have unclosable := unclosable_of_total_zero untaken
    have equity := closes.equity
    dsimp only at equity
    rw [closeAllPositions_of_unclosable lastDate unclosable, finalEquity_eq_iff] at equity
    exact { unclosable := unclosable, valued := equity }
  · intro nothing
    have unclosable := nothing.unclosable
    rw [closeAllPositions_of_unclosable lastDate unclosable]
    exact
      { cash := books.cash
        commission := by
          have untaken : total (closingCommissionOf (inputs.nextOpens lastDate))
              (afterBars inputs config).positions = 0 := by
            apply total_zero
            intro entry member
            rw [closingCommissionOf, unclosable entry member]
          rw [commissionsDeducted, untaken, add_zero]
          exact books.commission
        quantities := by
          intro code gone
          have net := books.quantities code
          dsimp only at gone
          rw [gone] at net
          exact net
        equity := (finalEquity_eq_iff _).mpr nothing.valued }

/-- A market whose bond has no open after the second day. -/
def shutMarket : BacktestInputs ℚ :=
  { twoDays 111 [] with nextOpens := fun date _ => if date ≤ 0 then some 110 else none }

/-- The bond stays open and is valued at the close of the last day. -/
theorem booksClose_shutMarket : BooksClose shutMarket defaultConfig 1
      (buildResult (afterBars shutMarket defaultConfig), afterBars shutMarket defaultConfig) :=
  (booksClose_iff shutMarket defaultConfig (buildResult _, _) 1
    (congrArg some (congrArg (fun state => (buildResult state, state))
      (closeAllPositions_of_unclosable 1 fun _ _ => rfl))) rfl).mpr
    { unclosable := fun _ _ => rfl
      valued := Or.inr ⟨by decide +kernel, (1, 500184 / 5), by decide +kernel, by decide +kernel⟩ }

/-- A bond that is closed out leaves a commission and a sale that are not in the books. -/
theorem booksClose_twoDays : ∃ ended, runBacktest (twoDays 111 []) defaultConfig = some ended ∧
      ¬BooksClose (twoDays 111 []) defaultConfig 1 ended := by
  refine ⟨_, rfl, ?_⟩
  intro closes
  have commission := closes.commission
  have reported : (buildResult (closeAllPositions 1 ((twoDays 111 []).nextOpens 1)
      (afterBars (twoDays 111 []) defaultConfig))).commission = 1 := by decide +kernel
  have deducted : commissionsDeducted ((twoDays 111 []).nextOpens 1)
      (afterBars (twoDays 111 []) defaultConfig) = 2 := by decide +kernel
  dsimp only at commission
  rw [deducted] at commission
  have absurd := reported.symm.trans commission
  norm_num at absurd

end Runs

end FinDashboard.ConvertibleDoubleLow
