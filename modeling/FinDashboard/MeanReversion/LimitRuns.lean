import FinDashboard.MeanReversion.Limits

/-!
# Runs within the limits

The bars of a run keep the limits as long as each of them is orderly. Two entries of one bar, tested
against the same positions, show that the bars of a run need not be.
-/

namespace FinDashboard.MeanReversion

open Ledger Runs List

variable {K : Type} {k : ℕ}

variable {config : MeanReversionConfig K}

/-- A cooldown that goes on is one day shorter after a bar. -/
theorem Cooling.decrement {before after : Account K}
    (cooling : Cooling config k before) (trades : after.trades = before.trades)
    (cooldowns : after.cooldowns = decrementCooldowns before.cooldowns) :
    Cooling config (k + 1) after := by
  intro sale member sells active
  rw [trades] at member
  obtain ⟨cd, cooling, same, left⟩ := cooling sale member sells (by omega)
  have running : 0 < cd.remaining := by omega
  refine ⟨{ cd with remaining := cd.remaining - 1 }, ?_, same, ?_⟩
  · rw [cooldowns, decrementCooldowns]
    exact mem_map.mpr ⟨cd, mem_filter.mpr ⟨cooling, decide_eq_true running⟩, rfl⟩
  · dsimp only
    omega

variable {symbol : String}

theorem Cooling.ended {account : Account K} (cooling : Cooling config k account)
    (none : ∀ cd ∈ account.cooldowns, cd.symbol = symbol → cd.remaining = 0) :
    ∀ sale ∈ account.trades, sale.side = .sell → sale.symbol = symbol →
      sale.barIndex + config.cooldownDays ≤ k := by
  intro sale sold sells same
  by_contra active
  obtain ⟨cd, cooling, symbols, left⟩ := cooling sale sold sells (by omega)
  have ended := none cd cooling (symbols.trans same)
  omega

variable [Field K] {setup : Setup K} {prices : Prices K}

section Start

theorem tradedOn_eq_zero {trades : List (Trade K)} (earlier : ∀ trade ∈ trades, trade.barIndex < k) :
    tradedOn k trades = 0 := by
  have none : trades.filter (fun trade => trade.barIndex = k) = [] := by
    apply filter_eq_nil_iff.mpr
    intro trade member
    have before := earlier trade member
    simp only [decide_eq_true_eq]
    omega
  rw [tradedOn, none, total_nil]

theorem forcedOn_eq_zero {trades : List (Trade K)} (earlier : ∀ trade ∈ trades, trade.barIndex < k) :
    forcedOn k trades = 0 := by
  have none : trades.filter (fun trade => trade.barIndex = k ∧ trade.reason = .maxHolding) = [] := by
    apply filter_eq_nil_iff.mpr
    intro trade member
    have before := earlier trade member
    simp only [decide_eq_true_eq, not_and]
    omega
  rw [forcedOn, none, total_nil]

theorem tradedOn_appendedAt {before after : List (Trade K)} {bar : ℕ} (other : bar ≠ k)
    (appended : AppendedAt (fun trade : Trade K => trade.barIndex) k before after) :
    tradedOn bar after = tradedOn bar before ∧ forcedOn bar after = forcedOn bar before := by
  obtain ⟨added, grown, dated⟩ := appended
  have traded : added.filter (fun trade => trade.barIndex = bar) = [] := by
    apply filter_eq_nil_iff.mpr
    intro trade member
    have here : trade.barIndex = k := dated trade member
    simp only [decide_eq_true_eq]
    omega
  have forced : added.filter (fun trade => trade.barIndex = bar ∧ trade.reason = .maxHolding) = [] := by
    apply filter_eq_nil_iff.mpr
    intro trade member
    have here : trade.barIndex = k := dated trade member
    simp only [decide_eq_true_eq, not_and]
    omega
  rw [grown, tradedOn, forcedOn, filter_append, filter_append, traded, forced,
    append_nil, append_nil, tradedOn, forcedOn]
  exact ⟨rfl, rfl⟩

end Start

variable [LinearOrder K]

/-- The account of a run after some bars. -/
structure SettledAccount (config : MeanReversionConfig K) (k : ℕ) (account : Account K) : Prop where
  limits : PositionLimits config account
  positive : ∀ p ∈ account.positions, 0 < p.shares
  cooldown : CooldownKept config account.trades
  cooling : Cooling config k account
  dated : ∀ trade ∈ account.trades, trade.barIndex < k

/-- The state of a run after some bars. -/
structure Settled (setup : Setup K) (k : ℕ) (state : SimulatorState K) : Prop where
  account : SettledAccount setup.config k state.account
  queue : Queue setup state.account.positions state.pendingOrders
  reentry : ∀ order ∈ state.pendingOrders, order.side = .buy → ∀ sale ∈ state.account.trades,
    sale.side = .sell → sale.symbol = order.symbol →
      sale.barIndex + setup.config.cooldownDays ≤ k
  within : 0 < decisionWorth state → ((entriesOf state.pendingOrders).length : K) *
    entryWeight setup ≤ setup.config.maxDailyTurnover
  recorded : state.equityCurve.length = k
  turnover : TurnoverKept setup.config state.equityCurve state.account.trades

section Bar

variable [IsStrictOrderedRing K] {state : SimulatorState K} {orders : List (PendingOrder K)}
  {filled : Account K × DayTotals K} {worth : K}

theorem entryWeight_nonneg : 0 ≤ entryWeight setup :=
  div_nonneg zero_le_one (Nat.cast_nonneg _)

/-- The entries of a portfolio that has not risen are of their weight in the worth they were decided
with. -/
theorem entryValues_le (weights : ∀ order ∈ orders, order.side = .buy →
      order.targetWeight = entryWeight setup) (solvent : 0 ≤ worth)
    (level : Guarded (fillOrder setup prices k) (NotRisen setup prices k worth) filled orders) :
    entryValues setup prices k filled orders ≤
      ((entriesOf orders).length : K) * entryWeight setup * worth := by
  induction orders generalizing filled with
  | nil => simp [entryValues, entriesOf]
  | cons order rest ih =>
    have later := ih (fun other member => weights other (mem_cons_of_mem _ member)) level.2
    have weight : (0 : K) ≤ entryWeight setup * worth := mul_nonneg entryWeight_nonneg solvent
    rw [entryValues, length_entriesOf_cons]
    push_cast
    by_cases ordered : order.side = .buy ∧ (fillable? prices k order).isSome
    · have size : max 0 (orderValue setup prices k filled order) ≤ entryWeight setup * worth := by
        apply max_le weight
        calc
          orderValue setup prices k filled order ≤
              portfolioValue setup.math prices k filled.1 * order.targetWeight :=
            pyMin_le_left _ _
          _ ≤ worth * entryWeight setup := by
            rw [weights order mem_cons_self ordered.1]
            exact mul_le_mul_of_nonneg_right (level.1 ordered.1 ordered.2) entryWeight_nonneg
          _ = entryWeight setup * worth := mul_comm _ _
      rw [if_pos ordered, if_pos ordered.1]
      linarith
    · rw [if_neg ordered]
      by_cases buys : order.side = .buy
      · rw [if_pos buys]
        linarith
      · rw [if_neg buys]
        linarith

theorem Settled.filling (settled : Settled setup k state) (orderly : OrderlyBar setup prices k state) :
    Filling setup prices k (decisionWorth state) (state.account, { bought := 0, sold := 0 })
      state.pendingOrders where
  queue := settled.queue
  limits := settled.account.limits
  positive := settled.account.positive
  cooldown := settled.account.cooldown
  cooled order member buys sale sold sells same _ := by
    have reentry := settled.reentry order member buys sale sold sells same
    have cooled := orderly.cooled order member buys sale sold sells same
    omega
  cooling := settled.account.cooling
  dated trade member := le_of_lt (settled.account.dated trade member)
  bought := le_refl _
  sold := le_refl _
  turnover := by
    rw [turnoverAhead, tradedOn_eq_zero settled.account.dated,
      forcedOn_eq_zero settled.account.dated, zero_add, add_zero]
    rcases orderly.turnover with ⟨none, level⟩ | within
    · have entries := entryValues_le (fun order member buys =>
        (settled.queue.entry order member buys).2.1) orderly.solvent level
      rw [none, total_nil, zero_add]
      apply entries.trans
      rcases eq_or_lt_of_le orderly.solvent with zero | positive
      · rw [← zero, mul_zero, mul_zero]
      · exact mul_le_mul_of_nonneg_right (settled.within positive) (le_of_lt positive)
    · exact within

end Bar

section Decisions

variable {account : Account K} {scan : EntryScan K} {worth : K}

theorem checkEntry_eq_none
    {positions : List (OpenPosition K)} {cooldowns : List CooldownState} {value turnover : K}
    (allowed : checkEntry config symbol positions cooldowns value worth turnover = none) :
    (∀ cd ∈ cooldowns, cd.symbol = symbol → cd.remaining = 0) ∧
      (0 < worth → turnover + value / worth ≤ config.maxDailyTurnover) := by
  unfold checkEntry at allowed
  cases found : cooldowns.find? fun cd => cd.symbol = symbol ∧ 0 < cd.remaining with
  | some cd =>
    rw [found] at allowed
    cases allowed
  | none =>
    rw [found] at allowed
    dsimp only at allowed
    constructor
    · intro cd member same
      have ended := find?_eq_none.mp found cd member
      simp only [decide_eq_true_eq, not_and, not_lt] at ended
      exact Nat.le_zero.mp (ended same)
    · intro positive
      split_ifs at allowed with full held exceeded
      exact not_lt.mp exceeded

/-- What holds of the orders a bar has found so far. -/
structure ScanSound (setup : Setup K) (account : Account K) (worth : K) (scan : EntryScan K) : Prop where
  queue : Queue setup account.positions scan.newOrders
  held : ∀ p ∈ account.positions, p.symbol ∈ scan.heldSymbols
  ordered : ∀ order ∈ scan.newOrders, order.symbol ∈ scan.symbolsWithOrders
  cooled : ∀ order ∈ scan.newOrders, order.side = .buy → ∀ cd ∈ account.cooldowns,
    cd.symbol = order.symbol → cd.remaining = 0
  tested : 0 < worth → ((entriesOf scan.newOrders).length : K) * entryWeight setup ≤
    scan.dailyTurnover
  within : 0 < worth → ((entriesOf scan.newOrders).length : K) * entryWeight setup ≤
    setup.config.maxDailyTurnover

theorem exitOrder?_eq_some {closes : List (String × List K)} {position : OpenPosition K}
    {order : PendingOrder K} (exits : exitOrder? setup closes position = some order) :
    order.symbol = position.symbol ∧ order.side = .sell ∧ order.reason ≠ .entry := by
  unfold exitOrder? at exits
  cases found : find position.symbol closes with
  | none =>
    rw [found] at exits
    cases exits
  | some series =>
    rw [found] at exits
    dsimp only at exits
    split_ifs at exits
    · cases exits
      exact ⟨rfl, rfl, nofun⟩
    · cases exits
      exact ⟨rfl, rfl, nofun⟩

theorem exits_sublist (closes : List (String × List K)) (positions : List (OpenPosition K)) :
    ((positions.filterMap (exitOrder? setup closes)).map (·.symbol)).Sublist
      (positions.map (·.symbol)) := by
  induction positions with
  | nil => exact List.Sublist.refl _
  | cons position rest ih =>
    cases exits : exitOrder? setup closes position with
    | none =>
      rw [filterMap_cons_none exits, map_cons]
      exact ih.cons _
    | some order =>
      rw [filterMap_cons_some exits, map_cons, map_cons, (exitOrder?_eq_some exits).1]
      exact ih.cons_cons _

theorem exits_sound (closes : List (String × List K)) (blocked : ℕ) {turnover : K}
    (distinct : (account.positions.map (·.symbol)).Nodup) (traded : 0 < worth → 0 ≤ turnover)
    (limit : 0 < setup.config.maxDailyTurnover) :
    ScanSound setup account worth
      { newOrders := account.positions.filterMap (exitOrder? setup closes)
        heldSymbols := account.positions.map (·.symbol)
        symbolsWithOrders :=
          (account.positions.filterMap (exitOrder? setup closes)).map (·.symbol)
        dailyTurnover := turnover
        blockedCount := blocked } := by
  have sells : ∀ order ∈ account.positions.filterMap (exitOrder? setup closes),
      order.side = .sell ∧ order.reason ≠ .entry := by
    intro order member
    obtain ⟨position, -, exits⟩ := mem_filterMap.mp member
    exact (exitOrder?_eq_some exits).2
  have none : entriesOf (account.positions.filterMap (exitOrder? setup closes)) = [] := by
    apply filter_eq_nil_iff.mpr
    intro order member
    rw [(sells order member).1]
    decide
  exact
    { queue :=
        { separate := distinct.sublist (exits_sublist closes account.positions)
          entry := by
            intro order member buys
            cases (sells order member).1.symm.trans buys
          exit := fun order member _ => (sells order member).2 }
      held := fun p member => mem_map_of_mem member
      ordered := fun order member => mem_map_of_mem member
      cooled := by
        intro order member buys
        cases (sells order member).1.symm.trans buys
      tested := by
        intro positive
        rw [none, length_nil, Nat.cast_zero, zero_mul]
        exact traded positive
      within := by
        intro _
        rw [none, length_nil, Nat.cast_zero, zero_mul]
        exact le_of_lt limit }

variable [IsStrictOrderedRing K]

theorem ScanSound.enter (sound : ScanSound setup account worth scan) {value : K}
    (blocked : ℕ) (unheld : symbol ∉ scan.heldSymbols) (fresh : symbol ∉ scan.symbolsWithOrders)
    (cooled : ∀ cd ∈ account.cooldowns, cd.symbol = symbol → cd.remaining = 0)
    (within : 0 < worth → scan.dailyTurnover + entryWeight setup ≤ setup.config.maxDailyTurnover) :
    ScanSound setup account worth
      { newOrders := scan.newOrders ++
          [{ symbol, side := .buy, targetWeight := entryWeight setup, signalValue := value,
             reason := .entry }]
        heldSymbols := symbol :: scan.heldSymbols
        symbolsWithOrders := symbol :: scan.symbolsWithOrders
        dailyTurnover := scan.dailyTurnover + entryWeight setup
        blockedCount := blocked } where
  queue := by
    apply sound.queue.append _ rfl rfl rfl
    · intro member
      obtain ⟨p, held, rfl⟩ := mem_map.mp member
      exact unheld (sound.held p held)
    · intro member
      obtain ⟨order, known, rfl⟩ := mem_map.mp member
      exact fresh (sound.ordered order known)
  held p member := mem_cons_of_mem _ (sound.held p member)
  ordered order member := by
    rcases mem_append.mp member with old | new
    · exact mem_cons_of_mem _ (sound.ordered order old)
    · rw [mem_singleton.mp new]
      exact mem_cons_self
  cooled order member buys := by
    rcases mem_append.mp member with old | new
    · exact sound.cooled order old buys
    · rw [mem_singleton.mp new]
      exact cooled
  tested positive := by
    have tested := sound.tested positive
    rw [length_entriesOf_append rfl]
    push_cast
    linarith
  within positive := by
    have tested := sound.tested positive
    have room := within positive
    rw [length_entriesOf_append rfl]
    push_cast
    linarith

theorem scanSignal_sound (regime : List (String × RegimeResult K)) (sig : SignalResult K)
    (sound : ScanSound setup account worth scan) : ScanSound setup account worth
      (scanSignal setup regime account worth (entryWeight setup) scan sig) := by
  unfold scanSignal
  by_cases unheld : sig.symbol ∈ scan.heldSymbols
  · rw [if_pos unheld]
    exact sound
  by_cases fresh : sig.symbol ∈ scan.symbolsWithOrders
  · rw [if_neg unheld, if_pos fresh]
    exact sound
  rw [if_neg unheld, if_neg fresh]
  split
  · exact sound
  split
  · exact { sound with }
  split
  · exact { sound with }
  cases checked : checkEntry setup.config sig.symbol account.positions account.cooldowns
      (worth * entryWeight setup) worth scan.dailyTurnover with
  | some block => exact { sound with }
  | none =>
    obtain ⟨cooled, within⟩ := checkEntry_eq_none checked
    apply sound.enter _ unheld fresh cooled
    intro positive
    have turnover := within positive
    rwa [mul_div_cancel_left₀ _ (ne_of_gt positive)] at turnover

theorem scanSignals_sound (regime : List (String × RegimeResult K)) (signals : List (SignalResult K))
    (sound : ScanSound setup account worth scan) : ScanSound setup account worth
      (signals.foldl (scanSignal setup regime account worth (entryWeight setup)) scan) := by
  induction signals generalizing scan with
  | nil => exact sound
  | cons sig rest ih => exact ih (scanSignal_sound regime sig sound)

end Decisions

section Close

variable {filled : Account K × DayTotals K} {state : SimulatorState K} {worth : K}
  {orders : List (PendingOrder K)}

theorem Filling.settledAccount (filling : Filling setup prices k worth filled orders)
    (account : Account K) (symbols : account.positions.map (·.symbol) = filled.1.positions.map (·.symbol))
    (shares : account.positions.map (·.shares) = filled.1.positions.map (·.shares))
    (cooldowns : account.cooldowns = decrementCooldowns filled.1.cooldowns)
    (trades : account.trades = filled.1.trades) : SettledAccount setup.config (k + 1) account where
  limits :=
    { count := by
        have length := congrArg length symbols
        rw [length_map, length_map] at length
        rw [length]
        exact filling.limits.count
      distinct := by
        rw [symbols]
        exact filling.limits.distinct }
  positive p member := by
    have mapped : p.shares ∈ account.positions.map (·.shares) := mem_map_of_mem member
    rw [shares] at mapped
    obtain ⟨old, held, same⟩ := mem_map.mp mapped
    rw [← same]
    exact filling.positive old held
  cooldown := by
    rw [trades]
    exact filling.cooldown
  cooling := filling.cooling.decrement trades cooldowns
  dated trade member := by
    rw [trades] at member
    exact Nat.lt_succ_of_le (filling.dated trade member)

/-- The turnover of a bar joins that of the bars before it. -/
theorem TurnoverKept.append {equityCurve : List K} {before after : List (Trade K)}
    (kept : TurnoverKept config equityCurve before) (recorded : equityCurve.length = k)
    (appended : AppendedAt (fun trade : Trade K => trade.barIndex) k before after)
    (here : tradedOn k after ≤ config.maxDailyTurnover * equityCurve.getLast?.getD 0 + forcedOn k after)
    (equity : K) : TurnoverKept config (equityCurve ++ [equity]) after := by
  intro bar worth decided next
  rw [length_append, length_singleton, recorded] at next
  rw [getElem?_append_left (by omega)] at decided
  by_cases last : bar + 1 = k
  · have final : equityCurve.getLast?.getD 0 = worth := by
      rw [getLast?_eq_getElem?, recorded, ← last, Nat.add_sub_cancel, decided, Option.getD_some]
    rw [last, ← final]
    exact here
  · obtain ⟨traded, forced⟩ := tradedOn_appendedAt last appended
    rw [traded, forced]
    exact kept bar worth decided (by omega)

/-- After its last fill a bar is within its turnover. -/
theorem Filling.traded_le (filling : Filling setup prices k worth filled []) :
    tradedOn k filled.1.trades ≤ setup.config.maxDailyTurnover * worth + forcedOn k filled.1.trades := by
  have within := filling.turnover
  simp only [turnoverAhead, signalExits, filter_nil, total_nil, entryValues, add_zero] at within
  exact within

theorem Settled.of_idle (account : SettledAccount setup.config k state.account)
    (idle : state.pendingOrders = []) (limit : 0 < setup.config.maxDailyTurnover)
    (recorded : state.equityCurve.length = k)
    (turnover : TurnoverKept setup.config state.equityCurve state.account.trades) :
    Settled setup k state where
  account := account
  queue := by
    rw [idle]
    exact { separate := nodup_nil, entry := nofun, exit := nofun }
  reentry := by
    rw [idle]
    nofun
  within _ := by
    rw [idle, entriesOf, filter_nil, length_nil, Nat.cast_zero, zero_mul]
    exact le_of_lt limit
  recorded := recorded
  turnover := turnover

theorem Settled.of_scan {scan : EntryScan K} (account : SettledAccount setup.config k state.account)
    (queued : state.pendingOrders = scan.newOrders) (recorded : state.equityCurve.length = k)
    (turnover : TurnoverKept setup.config state.equityCurve state.account.trades)
    (sound : ScanSound setup state.account (decisionWorth state) scan) : Settled setup k state where
  account := account
  queue := by
    rw [queued]
    exact sound.queue
  reentry := by
    rw [queued]
    exact fun order member buys => account.cooling.ended (sound.cooled order member buys)
  within := by
    rw [queued]
    exact sound.within
  recorded := recorded
  turnover := turnover

theorem Settled.initial (limit : 0 < setup.config.maxDailyTurnover) :
    Settled setup 0 { account := { cash := setup.initialCapital } } :=
  .of_idle
    { limits := { count := Nat.zero_le _, distinct := nodup_nil }
      positive := nofun
      cooldown := nofun
      cooling := nofun
      dated := nofun }
    rfl limit rfl nofun

variable [IsStrictOrderedRing K]

theorem Filling.turnover_nonneg {equity : K} (filling : Filling setup prices k worth filled orders) :
    0 ≤ if 0 < equity then (filled.2.bought + filled.2.sold) / equity else 0 := by
  split_ifs with positive
  · exact div_nonneg (add_nonneg filling.bought filling.sold) (le_of_lt positive)
  · exact le_refl _

theorem Settled.closeBar (settled : Settled setup k state)
    (filling : Filling setup prices k (decisionWorth state) filled [])
    (appended : AppendedAt (fun trade : Trade K => trade.barIndex) k state.account.trades filled.1.trades)
    (limit : 0 < setup.config.maxDailyTurnover) :
    Settled setup (k + 1) (closeBar setup prices k filled state) := by
  have turnover := settled.turnover.append settled.recorded appended filling.traded_le
  have recorded : ∀ equity : K, (state.equityCurve ++ [equity]).length = k + 1 := by
    intro equity
    rw [length_append, length_singleton, settled.recorded]
  have idle := filling.settledAccount
    { filled.1 with cooldowns := decrementCooldowns filled.1.cooldowns } rfl rfl rfl rfl
  unfold MeanReversion.closeBar
  dsimp only
  by_cases warmup : k < setup.config.minDataDays
  · rw [if_pos warmup]
    exact .of_idle idle rfl limit (recorded _) (turnover _)
  by_cases none : (closesAtBar prices k).isEmpty
  · rw [if_neg warmup, if_pos none]
    exact .of_idle idle rfl limit (recorded _) (turnover _)
  rw [if_neg warmup, if_neg none]
  have account := filling.settledAccount
    { filled.1 with
      cooldowns := decrementCooldowns filled.1.cooldowns
      positions := filled.1.positions.map fun p => { p with barsHeld := p.barsHeld + 1 } }
    (map_map ..) (map_map ..) rfl rfl
  apply Settled.of_scan account rfl (recorded _) (turnover _)
  rw [decisionWorth, getLast?_concat, Option.getD_some]
  apply scanSignals_sound
  exact exits_sound _ _ account.limits.distinct (fun _ => filling.turnover_nonneg) limit

end Close

section Runs

variable [IsStrictOrderedRing K]

theorem Settled.barStep {state : SimulatorState K} (settled : Settled setup k state)
    (slippage : 0 ≤ setup.config.slippageBps) (most : setup.config.slippageBps ≤ ((10000 : ℕ) : K))
    (limit : 0 < setup.config.maxDailyTurnover) (orderly : OrderlyBar setup prices k state) :
    Settled setup (k + 1) (barStep setup prices k state) := by
  have start := settled.filling orderly
  rw [← append_nil state.pendingOrders] at start
  have filled := Filling.run state.pendingOrders start slippage most orderly.room
  have appended : AppendedAt (fun trade : Trade K => trade.barIndex) k state.account.trades
      (fillPending setup prices k state.account state.pendingOrders).1.trades :=
    AppendedAt.foldl (fun filled : Account K × DayTotals K => filled.1.trades)
      (fun _ _ => tradesAt_fillOrder setup prices) state.pendingOrders _
  exact settled.closeBar filled appended limit

/-- A run whose bars are orderly is within its limits after every bar, and has no more positions than
allowed after every fill. -/
theorem hardLimits_of_orderly (setup : Setup K) (prices : Prices K) (n : ℕ)
    (slippage : 0 ≤ setup.config.slippageBps) (most : setup.config.slippageBps ≤ ((10000 : ℕ) : K))
    (limit : 0 < setup.config.maxDailyTurnover)
    (orderly : ∀ k < n, OrderlyBar setup prices k (stateAt setup prices k)) :
    (∀ m ≤ n, HardLimits setup (stateAt setup prices m)) ∧
      ∀ k < n, ∀ first rest, (stateAt setup prices k).pendingOrders = first ++ rest →
        PositionLimits setup.config
          (fillPending setup prices k (stateAt setup prices k).account first).1 := by
  have settled : ∀ k ≤ n, Settled setup k (stateAt setup prices k) :=
    afterBars_guarded (Settled.initial limit) orderly
      fun _ _ settled orderly => settled.barStep slippage most limit orderly
  constructor
  · intro m early
    have reached := settled m early
    exact
      { positions := reached.account.limits
        cooldown := reached.account.cooldown
        turnover := reached.turnover }
  · intro k early first rest queued
    have bar := orderly k early
    have room := bar.room
    have start := (settled k (Nat.le_of_lt early)).filling bar
    rw [queued] at start room
    exact (Filling.run first start slippage most room.of_append.1).limits

theorem hardLimits_of_orderly_pair :
    (∀ m ≤ 9, HardLimits pairSetup (stateAt pairSetup (pairPrices 8 8) m)) ∧ ∀ k < 9, ∀ first rest,
        (stateAt pairSetup (pairPrices 8 8) k).pendingOrders = first ++ rest →
          PositionLimits pairSetup.config (fillPending pairSetup (pairPrices 8 8) k
            (stateAt pairSetup (pairPrices 8 8) k).account first).1 :=
  hardLimits_of_orderly pairSetup (pairPrices 8 8) 9 (by decide +kernel) (by decide +kernel)
    (by decide +kernel) (by decide +kernel)

end Runs

section Crowd

/-- The setup of the pair with two places, and a symbol that falls two days before the pair does. -/
def crowdSetup : Setup ℚ :=
  { pairSetup with config := { pairSetup.config with maxPositions := 2, maxPositions_pos := by decide } }

def crowdPrices : Prices ℚ where
  symbols := ["A", "B", "C"]
  closes symbol :=
    if symbol = "A" then [10, 10, 10, 10, 10, 10, 8, 7, 6, 5] else [10, 10, 10, 10, 10, 10, 10, 10, 8, 7]
  opens _ := replicate 10 8
  volumes _ := []
  nodup := by decide

/-- Both symbols of the pair are tested against the one position that is open, and both are bought. -/
theorem hardLimits_exceeded : 0 ≤ crowdSetup.config.slippageBps ∧ crowdSetup.config.maxDailyTurnover = 1 ∧
      ¬HardLimits crowdSetup (stateAt crowdSetup crowdPrices 10) := by
  refine ⟨by decide +kernel, rfl, ?_⟩
  intro limits
  have count : (stateAt crowdSetup crowdPrices 10).account.positions.length = 3 := by
    decide +kernel
  have most := limits.positions.count
  rw [count] at most
  exact absurd most (by decide)

end Crowd

end FinDashboard.MeanReversion
