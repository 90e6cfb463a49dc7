import FinDashboard.Ledger.Totals
import FinDashboard.MeanReversion.NoLookahead
import FinDashboard.Runs.Guarded
import Mathlib.Algebra.Order.Field.Basic
import Mathlib.Tactic.Linarith
import Mathlib.Tactic.Ring

/-!
# The limits of a mean-reversion run

An entry is tested against the positions and the turnover of the bar that decides it, and filled on the
next. The number of positions, the cooldowns and the turnover stay within their limits as long as no entry
finds them exhausted by then.
-/

namespace FinDashboard.MeanReversion

open Ledger Runs List

variable {K : Type}

variable {position : OpenPosition K}

section Accounts

variable {k : ℕ} {config : MeanReversionConfig K} {positions : List (OpenPosition K)}
  {symbol : String} {orders : List (PendingOrder K)} {order : PendingOrder K}

/-- No more positions than allowed, and no two of one symbol. -/
structure PositionLimits (config : MeanReversionConfig K) (account : Account K) : Prop where
  count : account.positions.length ≤ config.maxPositions
  distinct : (account.positions.map (·.symbol)).Nodup

/-- No symbol is bought within the cooldown after a sale of it. -/
def CooldownKept (config : MeanReversionConfig K) (trades : List (Trade K)) : Prop :=
  ∀ sale ∈ trades, ∀ purchase ∈ trades, sale.side = .sell → purchase.side = .buy →
    purchase.symbol = sale.symbol → sale.barIndex < purchase.barIndex →
      sale.barIndex + config.cooldownDays < purchase.barIndex

/-- No entry is for a symbol that was sold exactly the cooldown before. -/
def CooledDown (config : MeanReversionConfig K) (k : ℕ) (state : SimulatorState K) : Prop :=
  ∀ order ∈ state.pendingOrders, order.side = .buy → ∀ sale ∈ state.account.trades,
    sale.side = .sell → sale.symbol = order.symbol →
      sale.barIndex + config.cooldownDays ≠ k

/-- A symbol whose cooldown is not over has one among the cooldowns. -/
def Cooling (config : MeanReversionConfig K) (k : ℕ) (account : Account K) : Prop :=
  ∀ sale ∈ account.trades, sale.side = .sell → k ≤ sale.barIndex + config.cooldownDays →
    ∃ cd ∈ account.cooldowns, cd.symbol = sale.symbol ∧
      k + cd.remaining = sale.barIndex + config.cooldownDays

theorem CooldownKept.append {trades : List (Trade K)} {trade : Trade K}
    (kept : CooldownKept config trades) (dated : ∀ old ∈ trades, old.barIndex ≤ trade.barIndex)
    (cooled : trade.side = .buy → ∀ sale ∈ trades, sale.side = .sell → sale.symbol = trade.symbol →
      sale.barIndex < trade.barIndex → sale.barIndex + config.cooldownDays < trade.barIndex) :
    CooldownKept config (trades ++ [trade]) := by
  intro sale saleIn purchase purchaseIn sells buys same earlier
  rcases mem_append.mp purchaseIn with purchaseOld | purchaseNew
  · rcases mem_append.mp saleIn with saleOld | saleNew
    · exact kept sale saleOld purchase purchaseOld sells buys same earlier
    · have late := dated purchase purchaseOld
      rw [← mem_singleton.mp saleNew] at late
      omega
  · rw [mem_singleton.mp purchaseNew] at buys same earlier ⊢
    rcases mem_append.mp saleIn with saleOld | saleNew
    · exact cooled buys sale saleOld sells same.symm earlier
    · rw [mem_singleton.mp saleNew] at earlier
      omega

theorem find?_append_of_ne (other : symbol ≠ position.symbol) :
    (positions ++ [position]).find? (fun p => p.symbol = symbol) =
      positions.find? fun p => p.symbol = symbol := by
  rw [find?_append]
  simp [Ne.symm other]

theorem find?_eraseP_of_ne {sold : String} (other : symbol ≠ sold) :
    (positions.eraseP fun p => p.symbol = sold).find? (fun p => p.symbol = symbol) =
      positions.find? fun p => p.symbol = symbol := by
  induction positions with
  | nil => rfl
  | cons p rest ih =>
    by_cases erased : p.symbol = sold
    · have kept : p.symbol ≠ symbol := fun same => other (same.symm.trans erased)
      rw [eraseP_cons_of_pos (by simpa using erased), find?_cons_of_neg (by simpa using kept)]
    · rw [eraseP_cons_of_neg (by simpa using erased), find?_cons, find?_cons, ih]

def signalExits (orders : List (PendingOrder K)) : List (PendingOrder K) :=
  orders.filter fun order => order.reason = .exitSignal

def entriesOf (orders : List (PendingOrder K)) : List (PendingOrder K) :=
  orders.filter fun order => order.side = .buy

theorem length_entriesOf_cons (order : PendingOrder K) (rest : List (PendingOrder K)) :
    (entriesOf (order :: rest)).length =
      (if order.side = .buy then 1 else 0) + (entriesOf rest).length := by
  unfold entriesOf
  by_cases buys : order.side = .buy
  · rw [filter_cons_of_pos (by simpa using buys), length_cons, if_pos buys, add_comm]
  · rw [filter_cons_of_neg (by simpa using buys), if_neg buys, zero_add]

theorem length_entriesOf_append (buys : order.side = .buy) :
    (entriesOf (orders ++ [order])).length = (entriesOf orders).length + 1 := by
  rw [entriesOf, filter_append, length_append, entriesOf]
  simp [buys]

end Accounts

variable [Field K] {setup : Setup K} {prices : Prices K} {k : ℕ}

section Turnover

variable {trade : Trade K}

/-- What a bar traded, at its fill prices. -/
def tradedOn (k : ℕ) (trades : List (Trade K)) : K :=
  total (·.grossValue) (trades.filter fun trade => trade.barIndex = k)

/-- What a bar sold of positions held too long. -/
def forcedOn (k : ℕ) (trades : List (Trade K)) : K :=
  total (·.grossValue) (trades.filter fun trade => trade.barIndex = k ∧ trade.reason = .maxHolding)

theorem tradedOn_append (trades : List (Trade K)) (bar : trade.barIndex = k) :
    tradedOn k (trades ++ [trade]) = tradedOn k trades + trade.grossValue := by
  rw [tradedOn, filter_append, total_append, tradedOn]
  simp [bar]

theorem forcedOn_append (trades : List (Trade K)) (bar : trade.barIndex = k) :
    forcedOn k (trades ++ [trade]) = forcedOn k trades +
      if trade.reason = .maxHolding then trade.grossValue else 0 := by
  rw [forcedOn, filter_append, total_append, forcedOn]
  by_cases forced : trade.reason = .maxHolding
  · simp [bar, forced]
  · simp [bar, forced]

end Turnover

section Orders

variable {order : PendingOrder K} {orders rest : List (PendingOrder K)}
  {positions before after : List (OpenPosition K)}

/-- The worth the pending orders were decided with. -/
def decisionWorth (state : SimulatorState K) : K := state.equityCurve.getLast?.getD 0

def entryWeight (setup : Setup K) : K := 1 / (setup.config.maxPositions : K)

theorem total_signalExits_cons (weight : PendingOrder K → K) :
    total weight (signalExits (order :: rest)) =
      (if order.reason = .exitSignal then weight order else 0) + total weight (signalExits rest) := by
  unfold signalExits
  by_cases exits : order.reason = .exitSignal
  · rw [filter_cons_of_pos (by simpa using exits), total_cons, if_pos exits]
  · rw [filter_cons_of_neg (by simpa using exits), if_neg exits, zero_add]

/-- The pending orders are one for a symbol: exits, and entries of symbols that are not held. -/
structure Queue (setup : Setup K) (positions : List (OpenPosition K)) (orders : List (PendingOrder K)) :
    Prop where
  separate : (orders.map (·.symbol)).Nodup
  entry : ∀ order ∈ orders, order.side = .buy → order.reason = .entry ∧
    order.targetWeight = entryWeight setup ∧ order.symbol ∉ positions.map (·.symbol)
  exit : ∀ order ∈ orders, order.side = .sell → order.reason ≠ .entry

namespace Queue

theorem tail (queue : Queue setup positions (order :: rest)) : Queue setup positions rest where
  separate := (nodup_cons.mp queue.separate).2
  entry other member := queue.entry other (mem_cons_of_mem _ member)
  exit other member := queue.exit other (mem_cons_of_mem _ member)

theorem symbol_ne (queue : Queue setup positions (order :: rest)) :
    ∀ other ∈ rest, other.symbol ≠ order.symbol := by
  intro other member same
  have fresh := (nodup_cons.mp queue.separate).1
  exact fresh (mem_map.mpr ⟨other, member, same⟩)

theorem of_positions (queue : Queue setup before orders)
    (unheld : ∀ order ∈ orders, order.symbol ∉ before.map (·.symbol) →
      order.symbol ∉ after.map (·.symbol)) : Queue setup after orders where
  separate := queue.separate
  entry order member buys := by
    have entry := queue.entry order member buys
    exact ⟨entry.1, entry.2.1, unheld order member entry.2.2⟩
  exit := queue.exit

theorem append (queue : Queue setup positions orders)
    (fresh : order.symbol ∉ orders.map (·.symbol)) (reason : order.reason = .entry)
    (weight : order.targetWeight = entryWeight setup) (buys : order.side = .buy)
    (unheld : order.symbol ∉ positions.map (·.symbol)) : Queue setup positions (orders ++ [order]) where
  separate := by
    rw [map_append, map_singleton]
    apply nodup_append.mpr
    refine ⟨queue.separate, nodup_singleton _, ?_⟩
    intro known member other same
    rw [mem_singleton.mp same]
    rintro rfl
    exact fresh member
  entry other member sides := by
    rcases mem_append.mp member with old | new
    · exact queue.entry other old sides
    · rw [mem_singleton.mp new]
      exact ⟨reason, weight, unheld⟩
  exit other member sells := by
    rcases mem_append.mp member with old | new
    · exact queue.exit other old sells
    · rw [mem_singleton.mp new, buys] at sells
      cases sells

end Queue

end Orders

variable [LinearOrder K]

/-- What a bar trades is at most the turnover of the worth the bar before decides with, and what is sold
of positions held too long. -/
def TurnoverKept (config : MeanReversionConfig K) (equityCurve : List K) (trades : List (Trade K)) : Prop :=
  ∀ (k : ℕ) (worth : K), equityCurve[k]? = some worth → k + 1 < equityCurve.length →
    tradedOn (k + 1) trades ≤ config.maxDailyTurnover * worth + forcedOn (k + 1) trades

/-- The limits of a run in its state after some bars; the equity of a bar is the worth of the portfolio
the bar decides with. -/
structure HardLimits (setup : Setup K) (state : SimulatorState K) : Prop where
  positions : PositionLimits setup.config state.account
  cooldown : CooldownKept setup.config state.account.trades
  turnover : TurnoverKept setup.config state.equityCurve state.account.trades

section Condition

variable (setup prices k)

/-- An entry that can be filled finds a free place. -/
def RoomLeft (filled : Account K × DayTotals K) (order : PendingOrder K) : Prop :=
  order.side = .buy → (fillable? prices k order).isSome →
    filled.1.positions.length < setup.config.maxPositions

/-- An entry that can be filled finds a portfolio worth no more than when it was decided. -/
def NotRisen (worth : K) (filled : Account K × DayTotals K) (order : PendingOrder K) : Prop :=
  order.side = .buy → (fillable? prices k order).isSome →
    portfolioValue setup.math prices k filled.1 ≤ worth

def signalExitValue (account : Account K) (order : PendingOrder K) : K :=
  match fillable? prices k order, account.positions.find? fun p => p.symbol = order.symbol with
  | some rawPrice, some position =>
    rawPrice * (1 - basisPoints setup.config.slippageBps) * position.shares
  | _, _ => 0

def orderValue (filled : Account K × DayTotals K) (order : PendingOrder K) : K :=
  let worth := portfolioValue setup.math prices k filled.1
  pyMin (worth * order.targetWeight) (worth * setup.config.maxWeightPerPosition)

def entryValues : Account K × DayTotals K → List (PendingOrder K) → K
  | _, [] => 0
  | filled, order :: rest =>
    (if order.side = .buy ∧ (fillable? prices k order).isSome then
      max 0 (orderValue setup prices k filled order) else 0) +
      entryValues (fillOrder setup prices k filled order) rest

/-- There is no exit on a signal and the portfolio has not risen since the entries were tested, or what
the exits sell and the entries are to buy is within the turnover. -/
def TurnoverLeft (state : SimulatorState K) : Prop :=
  let filled : Account K × DayTotals K := (state.account, { bought := 0, sold := 0 })
  signalExits state.pendingOrders = [] ∧
      Guarded (fillOrder setup prices k) (NotRisen setup prices k (decisionWorth state)) filled
        state.pendingOrders ∨
    total (signalExitValue setup prices k state.account) (signalExits state.pendingOrders) +
        entryValues setup prices k filled state.pendingOrders ≤
      setup.config.maxDailyTurnover * decisionWorth state

/-- A bar whose fills stay within the limits the entries were tested against. -/
structure OrderlyBar (state : SimulatorState K) : Prop where
  solvent : 0 ≤ decisionWorth state
  room : Guarded (fillOrder setup prices k) (RoomLeft setup prices k)
    (state.account, { bought := 0, sold := 0 }) state.pendingOrders
  turnover : TurnoverLeft setup prices k state
  cooled : CooledDown setup.config k state

instance (state : SimulatorState K) : Decidable (OrderlyBar setup prices k state) :=
  have : ∀ filled order, Decidable (RoomLeft setup prices k filled order) := fun filled order =>
    inferInstanceAs (Decidable (order.side = .buy → (fillable? prices k order).isSome →
      filled.1.positions.length < setup.config.maxPositions))
  have : ∀ worth filled order, Decidable (NotRisen setup prices k worth filled order) :=
    fun worth filled order =>
      inferInstanceAs (Decidable (order.side = .buy → (fillable? prices k order).isSome →
        portfolioValue setup.math prices k filled.1 ≤ worth))
  have : Decidable (CooledDown setup.config k state) :=
    inferInstanceAs (Decidable (∀ order ∈ state.pendingOrders, order.side = .buy →
      ∀ sale ∈ state.account.trades, sale.side = .sell → sale.symbol = order.symbol →
        sale.barIndex + setup.config.cooldownDays ≠ k))
  have : Decidable (TurnoverLeft setup prices k state) :=
    inferInstanceAs (Decidable (signalExits state.pendingOrders = [] ∧
          Guarded (fillOrder setup prices k) (NotRisen setup prices k (decisionWorth state))
            (state.account, { bought := 0, sold := 0 }) state.pendingOrders ∨
        total (signalExitValue setup prices k state.account) (signalExits state.pendingOrders) +
            entryValues setup prices k (state.account, { bought := 0, sold := 0 })
              state.pendingOrders ≤
          setup.config.maxDailyTurnover * decisionWorth state))
  decidable_of_iff
    (0 ≤ decisionWorth state ∧ Guarded (fillOrder setup prices k) (RoomLeft setup prices k)
          (state.account, { bought := 0, sold := 0 }) state.pendingOrders ∧
        TurnoverLeft setup prices k state ∧ CooledDown setup.config k state)
    ⟨fun ⟨solvent, room, turnover, cooled⟩ => ⟨solvent, room, turnover, cooled⟩,
      fun bar => ⟨bar.solvent, bar.room, bar.turnover, bar.cooled⟩⟩

end Condition

variable {rawPrice : K}

section OneFill

variable {filled next : Account K × DayTotals K} {order : PendingOrder K}

/-- A fill of an order at a bar leaves its trade. -/
structure RecordedFill (k : ℕ) (order : PendingOrder K) (filled next : Account K × DayTotals K)
    (trade : Trade K) : Prop where
  trades : next.1.trades = filled.1.trades ++ [trade]
  symbol : trade.symbol = order.symbol
  side : trade.side = order.side
  bar : trade.barIndex = k
  reason : trade.reason = order.reason

/-- An entry opened a position. -/
structure BoughtFill (setup : Setup K) (prices : Prices K) (k : ℕ) (order : PendingOrder K)
    (filled next : Account K × DayTotals K) (trade : Trade K) (position : OpenPosition K) : Prop
    extends RecordedFill k order filled next trade where
  buys : order.side = .buy
  opened : (fillable? prices k order).isSome
  positions : next.1.positions = filled.1.positions ++ [position]
  same : position.symbol = order.symbol
  positive : 0 < position.shares
  cooldowns : next.1.cooldowns = filled.1.cooldowns
  bought : next.2.bought = filled.2.bought + trade.grossValue
  sold : next.2.sold = filled.2.sold
  nonneg : 0 ≤ trade.grossValue
  within : trade.grossValue ≤ orderValue setup prices k filled order

/-- An exit closed a position. -/
structure SoldFill (setup : Setup K) (prices : Prices K) (k : ℕ) (order : PendingOrder K)
    (filled next : Account K × DayTotals K) (trade : Trade K) (position : OpenPosition K)
    (rawPrice : K) : Prop extends RecordedFill k order filled next trade where
  sells : order.side = .sell
  opened : fillable? prices k order = some rawPrice
  held : filled.1.positions.find? (fun p => p.symbol = order.symbol) = some position
  positions : next.1.positions = filled.1.positions.eraseP fun p => p.symbol = order.symbol
  cooldowns : next.1.cooldowns = filled.1.cooldowns ++
    [{ symbol := order.symbol, remaining := setup.config.cooldownDays }]
  bought : next.2.bought = filled.2.bought
  sold : next.2.sold = filled.2.sold + trade.grossValue
  gross : trade.grossValue =
    rawPrice * (1 - basisPoints setup.config.slippageBps) * position.shares

/-- What filling an order does. -/
inductive FillCase (setup : Setup K) (prices : Prices K) (k : ℕ) (order : PendingOrder K)
    (filled next : Account K × DayTotals K) : Prop
  | skipped (same : next = filled)
      (unsold : order.side = .sell → signalExitValue setup prices k filled.1 order = 0)
  | bought (trade : Trade K) (position : OpenPosition K)
      (fill : BoughtFill setup prices k order filled next trade position)
  | sold (trade : Trade K) (position : OpenPosition K) (rawPrice : K)
      (fill : SoldFill setup prices k order filled next trade position rawPrice)

theorem fillable?_pos (opened : fillable? prices k order = some rawPrice) : 0 < rawPrice := by
  unfold fillable? at opened
  cases found : (prices.opens order.symbol)[k]? with
  | none =>
    rw [found] at opened
    cases opened
  | some price =>
    rw [found] at opened
    dsimp only at opened
    split_ifs at opened with nonpositive
    cases opened
    exact not_le.mp nonpositive

theorem sharesFor_le (config : MeanReversionConfig K) (volume : Option K) (orderValue fillPrice : K) :
    sharesFor config volume orderValue fillPrice ≤ orderValue / fillPrice := by
  unfold sharesFor
  cases volume with
  | none => exact le_refl _
  | some volume =>
    dsimp only [pyMin]
    split_ifs with less
    · exact le_refl _
    · exact not_lt.mp less

theorem pyMin_le_left {α : Type} [LinearOrder α] (a b : α) : pyMin a b ≤ a := by
  unfold pyMin
  split_ifs with less
  · exact le_of_lt less
  · exact le_refl _

theorem pyMax_zero_le {a b : K} (nonneg : 0 ≤ b) (least : a ≤ b) : pyMax 0 a ≤ b := by
  unfold pyMax
  split_ifs with positive
  · exact least
  · exact nonneg

theorem fillSell_of_unheld (unheld : filled.1.positions.find? (fun p => p.symbol = order.symbol) = none) :
    fillSell setup.config k order rawPrice filled = filled := by
  rw [fillSell, unheld]

theorem fillSell_case (side : order.side = .sell) (opened : fillable? prices k order = some rawPrice) :
    FillCase setup prices k order filled (fillSell setup.config k order rawPrice filled) := by
  cases held : filled.1.positions.find? fun p => p.symbol = order.symbol with
  | none =>
    apply FillCase.skipped (fillSell_of_unheld held)
    intro _
    rw [signalExitValue, opened, held]
  | some position =>
    rw [fillSell, held]
    exact .sold _ position rawPrice
      { trades := rfl
        symbol := rfl
        side := side.symm
        bar := rfl
        reason := rfl
        sells := side
        opened := opened
        held := held
        positions := rfl
        cooldowns := rfl
        bought := rfl
        sold := rfl
        gross := rfl }

variable [IsStrictOrderedRing K]

theorem buyPrice_pos (slippage : 0 ≤ setup.config.slippageBps) (positive : 0 < rawPrice) :
    0 < rawPrice * (1 + basisPoints setup.config.slippageBps) := by
  have fraction : (0 : K) ≤ basisPoints setup.config.slippageBps := by
    unfold basisPoints
    exact div_nonneg slippage (Nat.cast_nonneg _)
  exact mul_pos positive (by linarith)

theorem recordBuy_case {rawPrice fillPrice shares : K} (side : order.side = .buy)
    (opened : (fillable? prices k order).isSome) (price : 0 < fillPrice) (positive : 0 < shares)
    (within : fillPrice * shares ≤ orderValue setup prices k filled order) :
    FillCase setup prices k order filled
      (recordBuy setup.config k order rawPrice fillPrice shares filled) :=
  .bought _ _
    { trades := rfl
      symbol := rfl
      side := side.symm
      bar := rfl
      reason := rfl
      buys := side
      opened := opened
      positions := rfl
      same := rfl
      positive := positive
      cooldowns := rfl
      bought := rfl
      sold := rfl
      nonneg := mul_nonneg (le_of_lt price) (le_of_lt positive)
      within := within }

theorem fillBuy_case (slippage : 0 ≤ setup.config.slippageBps)
    (side : order.side = .buy) (opened : fillable? prices k order = some rawPrice) (volume : Option K) :
    FillCase setup prices k order filled
      (fillBuy setup.config k (portfolioValue setup.math prices k filled.1) volume order rawPrice
        filled) := by
  have skip : FillCase setup prices k order filled filled := by
    apply FillCase.skipped rfl
    intro sells
    cases side.symm.trans sells
  have isOpen : (fillable? prices k order).isSome := by rw [opened]; rfl
  have price := buyPrice_pos slippage (fillable?_pos opened)
  obtain ⟨ordered, size⟩ : ∃ value, value = orderValue setup prices k filled order := ⟨_, rfl⟩
  generalize fills : rawPrice * (1 + basisPoints setup.config.slippageBps) = fillPrice at price
  have gross : fillPrice * sharesFor setup.config volume ordered fillPrice ≤ ordered := by
    have most := mul_le_mul_of_nonneg_left
      (sharesFor_le setup.config volume ordered fillPrice) (le_of_lt price)
    rwa [mul_div_cancel₀ _ (ne_of_gt price)] at most
  unfold fillBuy
  dsimp only
  rw [show pyMin (portfolioValue setup.math prices k filled.1 * order.targetWeight)
    (portfolioValue setup.math prices k filled.1 * setup.config.maxWeightPerPosition) = ordered from
      size.symm, fills]
  split_ifs with worthless unsold short broke
  · exact skip
  · exact skip
  · exact skip
  · have affordable : pyMax 0 (filled.1.cash - commissionOf setup.config
        (fillPrice * sharesFor setup.config volume ordered fillPrice)) ≤ ordered :=
      pyMax_zero_le (by linarith) (by linarith)
    apply recordBuy_case side isOpen price (not_le.mp broke)
    rw [mul_div_cancel₀ _ (ne_of_gt price), ← size]
    exact affordable
  · apply recordBuy_case side isOpen price (not_le.mp unsold)
    rw [← size]
    exact gross

theorem fillOrder_case (slippage : 0 ≤ setup.config.slippageBps) :
    FillCase setup prices k order filled (fillOrder setup prices k filled order) := by
  unfold fillOrder
  cases opened : fillable? prices k order with
  | none =>
    apply FillCase.skipped rfl
    intro _
    rw [signalExitValue, opened]
  | some rawPrice =>
    cases side : order.side with
    | buy => exact fillBuy_case slippage side opened _
    | sell => exact fillSell_case side opened

end OneFill

section Fills

variable {filled next : Account K × DayTotals K} {order : PendingOrder K}
  {orders rest : List (PendingOrder K)} {worth : K}

/-- What has been traded at a bar and what is still to be: what its turnover can come to. -/
def turnoverAhead (setup : Setup K) (prices : Prices K) (k : ℕ) (filled : Account K × DayTotals K)
    (orders : List (PendingOrder K)) : K :=
  tradedOn k filled.1.trades + total (signalExitValue setup prices k filled.1) (signalExits orders) +
    entryValues setup prices k filled orders

/-- The state of a bar between two fills, with the orders that are left. -/
structure Filling (setup : Setup K) (prices : Prices K) (k : ℕ) (worth : K)
    (filled : Account K × DayTotals K) (orders : List (PendingOrder K)) : Prop where
  queue : Queue setup filled.1.positions orders
  limits : PositionLimits setup.config filled.1
  positive : ∀ p ∈ filled.1.positions, 0 < p.shares
  cooldown : CooldownKept setup.config filled.1.trades
  cooled : ∀ order ∈ orders, order.side = .buy → ∀ sale ∈ filled.1.trades, sale.side = .sell →
    sale.symbol = order.symbol → sale.barIndex < k → sale.barIndex + setup.config.cooldownDays < k
  cooling : Cooling setup.config k filled.1
  dated : ∀ trade ∈ filled.1.trades, trade.barIndex ≤ k
  bought : 0 ≤ filled.2.bought
  sold : 0 ≤ filled.2.sold
  turnover : turnoverAhead setup prices k filled orders ≤
    setup.config.maxDailyTurnover * worth + forcedOn k filled.1.trades

/-- What a fill does not touch, it leaves for the later exits. -/
theorem total_signalExits_congr {before after : Account K}
    (same : ∀ other ∈ orders, before.positions.find? (fun p => p.symbol = other.symbol) =
      after.positions.find? (fun p => p.symbol = other.symbol)) :
    total (signalExitValue setup prices k before) (signalExits orders) =
      total (signalExitValue setup prices k after) (signalExits orders) := by
  apply total_congr
  intro other member
  rw [signalExitValue, signalExitValue, same other (mem_of_mem_filter member)]

namespace Filling

theorem skip [IsStrictOrderedRing K] (filling : Filling setup prices k worth filled (order :: rest))
    (same : fillOrder setup prices k filled order = filled)
    (unsold : order.side = .sell → signalExitValue setup prices k filled.1 order = 0) :
    Filling setup prices k worth filled rest := by
  have ahead : turnoverAhead setup prices k filled rest ≤
      turnoverAhead setup prices k filled (order :: rest) := by
    have exit : (0 : K) = if order.reason = .exitSignal then
        signalExitValue setup prices k filled.1 order else 0 := by
      cases side : order.side with
      | buy =>
        have reason := (filling.queue.entry order mem_cons_self side).1
        rw [reason, if_neg (by decide)]
      | sell => rw [unsold side, ite_self]
    have entry : (0 : K) ≤ if order.side = .buy ∧ (fillable? prices k order).isSome then
        max 0 (orderValue setup prices k filled order) else 0 := by
      split_ifs
      · exact le_max_left _ _
      · exact le_refl _
    rw [turnoverAhead, turnoverAhead, total_signalExits_cons, ← exit, entryValues, same]
    linarith
  exact
    { filling with
      queue := filling.queue.tail
      cooled := fun other member => filling.cooled other (mem_cons_of_mem _ member)
      turnover := ahead.trans filling.turnover }

section Recorded

variable {trade : Trade K} (filling : Filling setup prices k worth filled (order :: rest))
  (record : RecordedFill k order filled next trade)

include filling record

theorem cooldown_of_record : CooldownKept setup.config next.1.trades := by
  rw [record.trades]
  apply filling.cooldown.append
  · rw [record.bar]
    exact filling.dated
  · rw [record.bar, record.symbol, record.side]
    exact filling.cooled order mem_cons_self

theorem cooled_of_record : ∀ other ∈ rest, other.side = .buy → ∀ sale ∈ next.1.trades,
    sale.side = .sell → sale.symbol = other.symbol → sale.barIndex < k →
      sale.barIndex + setup.config.cooldownDays < k := by
  intro other member buys sale sold sells same earlier
  rw [record.trades] at sold
  rcases mem_append.mp sold with old | new
  · exact filling.cooled other (mem_cons_of_mem _ member) buys sale old sells same earlier
  · rw [mem_singleton.mp new, record.bar] at earlier
    omega

theorem dated_of_record : ∀ traded ∈ next.1.trades, traded.barIndex ≤ k := by
  intro traded member
  rw [record.trades] at member
  rcases mem_append.mp member with old | new
  · exact filling.dated traded old
  · rw [mem_singleton.mp new, record.bar]

theorem cooling_of_record (kept : ∀ cd ∈ filled.1.cooldowns, cd ∈ next.1.cooldowns)
    (sold : order.side = .sell → ∃ cd ∈ next.1.cooldowns, cd.symbol = order.symbol ∧
      cd.remaining = setup.config.cooldownDays) : Cooling setup.config k next.1 := by
  intro sale member sells active
  rw [record.trades] at member
  rcases mem_append.mp member with old | new
  · obtain ⟨cd, cooling, left⟩ := filling.cooling sale old sells active
    exact ⟨cd, kept cd cooling, left⟩
  · rw [mem_singleton.mp new] at sells ⊢
    obtain ⟨cd, cooling, same, remaining⟩ := sold (record.side.symm.trans sells)
    exact ⟨cd, cooling, by rw [same, record.symbol], by rw [remaining, record.bar]⟩

end Recorded

theorem buy [IsStrictOrderedRing K] {trade : Trade K}
    (filling : Filling setup prices k worth filled (order :: rest))
    (room : RoomLeft setup prices k filled order)
    (fill : BoughtFill setup prices k order filled (fillOrder setup prices k filled order) trade
      position) : Filling setup prices k worth (fillOrder setup prices k filled order) rest := by
  obtain ⟨reason, -, unheld⟩ := filling.queue.entry order mem_cons_self fill.buys
  have symbols : (fillOrder setup prices k filled order).1.positions.map (·.symbol) =
      filled.1.positions.map (·.symbol) ++ [order.symbol] := by
    rw [fill.positions, map_append, map_singleton, fill.same]
  have untouched : total (signalExitValue setup prices k filled.1) (signalExits rest) =
      total (signalExitValue setup prices k (fillOrder setup prices k filled order).1)
        (signalExits rest) := by
    apply total_signalExits_congr
    intro other member
    have different := filling.queue.symbol_ne other member
    rw [fill.positions, find?_append_of_ne (by rwa [fill.same])]
  have ahead : turnoverAhead setup prices k (fillOrder setup prices k filled order) rest ≤
      turnoverAhead setup prices k filled (order :: rest) := by
    have size : trade.grossValue ≤ max 0 (orderValue setup prices k filled order) :=
      fill.within.trans (le_max_right _ _)
    rw [turnoverAhead, turnoverAhead, total_signalExits_cons, reason, if_neg (by decide), entryValues,
      if_pos ⟨fill.buys, fill.opened⟩, fill.trades, tradedOn_append _ fill.bar, untouched]
    linarith
  have forced : forcedOn k (fillOrder setup prices k filled order).1.trades =
      forcedOn k filled.1.trades := by
    rw [fill.trades, forcedOn_append _ fill.bar, fill.reason, reason, if_neg (by decide), add_zero]
  exact
    { queue := by
        apply filling.queue.tail.of_positions
        intro other member fresh
        rw [symbols, mem_append, mem_singleton, not_or]
        exact ⟨fresh, filling.queue.symbol_ne other member⟩
      limits :=
        { count := by
            have free := room fill.buys fill.opened
            rw [fill.positions, length_append, length_singleton]
            omega
          distinct := by
            rw [symbols]
            apply nodup_append.mpr
            refine ⟨filling.limits.distinct, nodup_singleton _, ?_⟩
            intro held member other same
            rw [mem_singleton.mp same]
            rintro rfl
            exact unheld member }
      positive := by
        intro p member
        rw [fill.positions] at member
        rcases mem_append.mp member with old | new
        · exact filling.positive p old
        · rw [mem_singleton.mp new]
          exact fill.positive
      cooldown := filling.cooldown_of_record fill.toRecordedFill
      cooled := filling.cooled_of_record fill.toRecordedFill
      cooling := by
        apply filling.cooling_of_record fill.toRecordedFill
        · rw [fill.cooldowns]
          exact fun cd member => member
        · intro sells
          cases fill.buys.symm.trans sells
      dated := filling.dated_of_record fill.toRecordedFill
      bought := by
        rw [fill.bought]
        exact add_nonneg filling.bought fill.nonneg
      sold := by
        rw [fill.sold]
        exact filling.sold
      turnover := by
        rw [forced]
        exact ahead.trans filling.turnover }

theorem sell [IsStrictOrderedRing K] {trade : Trade K}
    (filling : Filling setup prices k worth filled (order :: rest))
    (slippage : setup.config.slippageBps ≤ ((10000 : ℕ) : K))
    (fill : SoldFill setup prices k order filled (fillOrder setup prices k filled order) trade
      position rawPrice) : Filling setup prices k worth (fillOrder setup prices k filled order) rest := by
  have value : signalExitValue setup prices k filled.1 order = trade.grossValue := by
    rw [signalExitValue, fill.opened, fill.held, fill.gross]
  have kept : (fillOrder setup prices k filled order).1.positions.Sublist filled.1.positions := by
    rw [fill.positions]
    exact eraseP_sublist
  have untouched : total (signalExitValue setup prices k filled.1) (signalExits rest) =
      total (signalExitValue setup prices k (fillOrder setup prices k filled order).1)
        (signalExits rest) := by
    apply total_signalExits_congr
    intro other member
    have different := filling.queue.symbol_ne other member
    rw [fill.positions, find?_eraseP_of_ne different]
  have ahead : turnoverAhead setup prices k (fillOrder setup prices k filled order) rest +
      forcedOn k filled.1.trades =
        turnoverAhead setup prices k filled (order :: rest) +
          forcedOn k (fillOrder setup prices k filled order).1.trades := by
    have notEntry := filling.queue.exit order mem_cons_self fill.sells
    have sells : ¬(order.side = .buy ∧ (fillable? prices k order).isSome) := by
      rw [fill.sells]
      simp
    rw [turnoverAhead, turnoverAhead, total_signalExits_cons, value, entryValues, if_neg sells,
      fill.trades, tradedOn_append _ fill.bar, forcedOn_append _ fill.bar, fill.reason,
      untouched]
    cases reason : order.reason with
    | entry => exact absurd reason notEntry
    | exitSignal => simp; ring
    | maxHolding => simp; ring
  have nonneg : 0 ≤ trade.grossValue := by
    have fraction : basisPoints setup.config.slippageBps ≤ (1 : K) := by
      unfold basisPoints
      exact div_le_one_of_le₀ slippage (Nat.cast_nonneg _)
    have price := fillable?_pos fill.opened
    have shares := filling.positive position (mem_of_find?_eq_some fill.held)
    rw [fill.gross]
    exact mul_nonneg (mul_nonneg (le_of_lt price) (by linarith)) (le_of_lt shares)
  exact
    { queue := by
        apply filling.queue.tail.of_positions
        intro other _ fresh member
        exact fresh ((kept.map _).subset member)
      limits :=
        { count := kept.length_le.trans filling.limits.count
          distinct := filling.limits.distinct.sublist (kept.map _) }
      positive := fun p member => filling.positive p (kept.subset member)
      cooldown := filling.cooldown_of_record fill.toRecordedFill
      cooled := filling.cooled_of_record fill.toRecordedFill
      cooling := by
        apply filling.cooling_of_record fill.toRecordedFill
        · intro cd member
          rw [fill.cooldowns]
          exact mem_append_left _ member
        · intro _
          rw [fill.cooldowns]
          exact ⟨_, mem_append_right _ (mem_singleton_self _), rfl, rfl⟩
      dated := filling.dated_of_record fill.toRecordedFill
      bought := by
        rw [fill.bought]
        exact filling.bought
      sold := by
        rw [fill.sold]
        exact add_nonneg filling.sold nonneg
      turnover := by
        have within := filling.turnover
        linarith }

theorem step [IsStrictOrderedRing K] (filling : Filling setup prices k worth filled (order :: rest))
    (slippage : 0 ≤ setup.config.slippageBps) (most : setup.config.slippageBps ≤ ((10000 : ℕ) : K))
    (room : RoomLeft setup prices k filled order) :
    Filling setup prices k worth (fillOrder setup prices k filled order) rest := by
  have filled : FillCase setup prices k order filled (fillOrder setup prices k filled order) :=
    fillOrder_case slippage
  cases filled with
  | skipped same unsold =>
    rw [same]
    exact filling.skip same unsold
  | bought trade position fill => exact filling.buy room fill
  | sold trade position rawPrice fill => exact filling.sell most fill

/-- The invariant holds as long as the entries find a free place. -/
theorem run [IsStrictOrderedRing K] (first : List (PendingOrder K))
    (filling : Filling setup prices k worth filled (first ++ rest))
    (slippage : 0 ≤ setup.config.slippageBps) (most : setup.config.slippageBps ≤ ((10000 : ℕ) : K))
    (room : Guarded (fillOrder setup prices k) (RoomLeft setup prices k) filled first) :
    Filling setup prices k worth (first.foldl (fillOrder setup prices k) filled) rest := by
  induction first generalizing filled with
  | nil => exact filling
  | cons order later ih => exact ih (filling.step slippage most room.1) room.2

end Filling

end Fills

end FinDashboard.MeanReversion
