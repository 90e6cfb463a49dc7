import FinDashboard.Tsmom.NoLookahead

/-!
# The fills of a bar

The orders pending at a bar are for different sides of the symbols, so the book before the bar determines
what each of them is filled for.
-/

namespace FinDashboard.Tsmom

open Ledger Runs List

namespace TradeAction

def isLong : TradeAction → Bool
  | openLong | closeLong => true
  | openShort | closeShort | roll => false

def opens : TradeAction → Bool
  | openLong | openShort => true
  | closeLong | closeShort | roll => false

end TradeAction

/-- What an order is filled for at a bar, given the position it is for. -/
structure Fill (K : Type) [Zero K] [One K] [LT K] [LE K] where
  spec : ContractSpec K
  order : PendingOrder K
  held : Position K
  lots : ℤ
  fillPrice : K
  openPrice : K
  lots_pos : 0 < lots

/-- Two orders that are not for the same side of a symbol. -/
def PendingOrder.Apart {K : Type} (first second : PendingOrder K) : Prop :=
  first.symbol ≠ second.symbol ∨ first.action.isLong ≠ second.action.isLong

/-- The orders of a run: each opens or closes one side of one of the symbols, no two the same side. -/
structure Placed {K : Type} (symbols : List String) (orders : List (PendingOrder K)) : Prop where
  no_roll : ∀ order ∈ orders, order.action ≠ .roll
  known : ∀ order ∈ orders, order.symbol ∈ symbols
  apart : orders.Pairwise PendingOrder.Apart

section Positions

variable {K : Type} {position : Position K} {lots : ℤ}

theorem increase_lots [Add K] [Mul K] [Div K] [IntCast K] {price : K} {contractId : String}
    (nonneg : 0 ≤ position.lots) :
    (position.increase lots price contractId).lots = position.lots + lots := by
  unfold Position.increase
  by_cases held : 0 < position.lots
  · rw [if_pos held]
  · rw [if_neg held]
    show lots = position.lots + lots
    omega

theorem decrease_lots [Zero K] (enough : lots ≤ position.lots) :
    (position.decrease lots).lots = position.lots - lots := by
  unfold Position.decrease
  by_cases nothing : position.lots - lots ≤ 0
  · rw [if_pos nothing]
    show 0 = position.lots - lots
    omega
  · rw [if_neg nothing]

end Positions

variable {K : Type} [Zero K] [One K] [Add K] [Sub K] [Neg K] [Mul K] [Div K] [NatCast K] [IntCast K]
  [LT K] [LE K] [DecidableLT K] [DecidableLE K] {setup : Setup K} {prices : Prices K} {k : ℕ}

/-- The test for no lots is the test for some, the other way round. -/
theorem ite_not_lt {α : Type} (lots : ℤ) (nothing something : α) :
    (if lots ≤ 0 then nothing else something) = if 0 < lots then something else nothing := by
  by_cases positive : 0 < lots
  · rw [if_neg (by omega), if_pos positive]
  · rw [if_pos (by omega), if_neg positive]

section Order

variable (setup prices k) (book : Book K) (order : PendingOrder K)

/-- The lots an order is filled for, none where this is not positive. -/
def askedLots (spec : ContractSpec K) (openPrice fillPrice : K) : ℤ :=
  if order.action.opens then
    if order.targetLots ≤ 0 then 0
    else openLots setup.math spec book.cash openPrice fillPrice order.targetLots
  else min order.targetLots (book.side order.action.isLong order.symbol).lots

/-- An opening order on the long side buys, as does a closing order on the short side. -/
def priceOf (openPrice : K) : K :=
  applySlippage openPrice (order.action.isLong == order.action.opens) setup.config.slippageBps

/-- What an order is filled for. -/
def fill? : Option (Fill K) :=
  match fillable? setup.specs prices k order with
  | none => none
  | some (spec, openPrice) =>
    let lots := askedLots setup book order spec openPrice (priceOf setup order openPrice)
    if lots_pos : 0 < lots then
      some
        { spec, order, lots, openPrice, lots_pos
          held := book.side order.action.isLong order.symbol
          fillPrice := priceOf setup order openPrice }
    else none

end Order

namespace Fill

variable (k) (fill : Fill K)

def trade : FuturesTrade K := tradeOf fill.spec fill.order k fill.lots fill.fillPrice fill.openPrice

def position (before : Position K) : Position K :=
  if fill.order.action.opens then before.increase fill.lots fill.fillPrice fill.order.contractId
  else before.decrease fill.lots

def applyTo (book : Book K) : Book K :=
  book.fill fill.order.action.isLong fill.order.symbol
    (fill.position (book.side fill.order.action.isLong fill.order.symbol)) (fill.trade k)

end Fill

section Branches

variable {order : PendingOrder K} {spec : ContractSpec K} {openPrice price : K} {lots : ℤ}
  {isLong : Bool} {book : Book K}

/-- An opening order fills the lots it asks for. -/
theorem fillOpen_eq (opens : order.action.opens = true) (side : order.action.isLong = isLong)
    (priced : priceOf setup order openPrice = price)
    (asked : askedLots setup book order spec openPrice price = lots) :
    fillOpen setup.math setup.config spec k openPrice order book isLong = if 0 < lots then
        book.fill isLong order.symbol
          ((book.side isLong order.symbol).increase lots price order.contractId)
          (tradeOf spec order k lots price openPrice) else book := by
  have paid : applySlippage openPrice isLong setup.config.slippageBps = price := by
    rw [← priced, priceOf, opens, side, beq_true]
  unfold fillOpen
  rw [paid]
  rw [askedLots, if_pos opens] at asked
  by_cases nothing : order.targetLots ≤ 0
  · rw [if_pos nothing] at asked
    rw [if_pos nothing, ← asked, if_neg (lt_irrefl (0 : ℤ))]
  · rw [if_neg nothing] at asked
    rw [if_neg nothing]
    dsimp only
    rw [asked]
    exact ite_not_lt lots _ _

/-- A closing order fills the lots it asks for. -/
theorem fillClose_eq (closes : order.action.opens = false) (side : order.action.isLong = isLong)
    (priced : priceOf setup order openPrice = price)
    (asked : askedLots setup book order spec openPrice price = lots) :
    fillClose setup.config spec k openPrice order book isLong = if 0 < lots then
        book.fill isLong order.symbol ((book.side isLong order.symbol).decrease lots)
          (tradeOf spec order k lots price openPrice) else book := by
  have paid : applySlippage openPrice (!isLong) setup.config.slippageBps = price := by
    rw [← priced, priceOf, closes, side, beq_false]
  rw [askedLots, closes, if_neg Bool.false_ne_true, side] at asked
  unfold fillClose
  dsimp only
  rw [paid, asked]
  exact ite_not_lt lots _ _

theorem fillOrder_eq (notRoll : order.action ≠ .roll) :
    fillOrder setup.math setup.config setup.specs prices k book order =
      (fill? setup prices k book order).elim book fun fill => fill.applyTo k book := by
  have branch : ∀ spec openPrice,
      fillAt setup.math setup.config spec k openPrice order book =
        if 0 < askedLots setup book order spec openPrice (priceOf setup order openPrice) then
          book.fill order.action.isLong order.symbol
            (if order.action.opens then
              (book.side order.action.isLong order.symbol).increase
                (askedLots setup book order spec openPrice (priceOf setup order openPrice))
                (priceOf setup order openPrice) order.contractId
            else
              (book.side order.action.isLong order.symbol).decrease
                (askedLots setup book order spec openPrice (priceOf setup order openPrice)))
            (tradeOf spec order k
              (askedLots setup book order spec openPrice (priceOf setup order openPrice))
              (priceOf setup order openPrice) openPrice)
        else book := by
    intro spec openPrice
    unfold fillAt
    cases action : order.action with
    | openLong => exact fillOpen_eq (by rw [action]; rfl) (by rw [action]; rfl) rfl rfl
    | openShort => exact fillOpen_eq (by rw [action]; rfl) (by rw [action]; rfl) rfl rfl
    | closeLong => exact fillClose_eq (by rw [action]; rfl) (by rw [action]; rfl) rfl rfl
    | closeShort => exact fillClose_eq (by rw [action]; rfl) (by rw [action]; rfl) rfl rfl
    | roll => exact absurd action notRoll
  unfold fillOrder fill?
  cases fillable? setup.specs prices k order with
  | none => rfl
  | some found =>
    obtain ⟨spec, openPrice⟩ := found
    dsimp only
    rw [branch]
    by_cases positive : 0 < askedLots setup book order spec openPrice (priceOf setup order openPrice)
    · rw [if_pos positive, dif_pos positive]
      rfl
    · rw [if_neg positive, dif_neg positive]
      rfl

omit [Neg K] in
theorem fill?_spec {fill : Fill K} (found : fill? setup prices k book order = some fill) :
    fill.order = order ∧ fill.held = book.side order.action.isLong order.symbol ∧
      fillable? setup.specs prices k order = some (fill.spec, fill.openPrice) ∧
      fill.fillPrice = priceOf setup order fill.openPrice ∧
      fill.lots = askedLots setup book order fill.spec fill.openPrice fill.fillPrice := by
  unfold fill? at found
  cases possible : fillable? setup.specs prices k order with
  | none =>
    rw [possible] at found
    cases found
  | some pair =>
    rw [possible] at found
    dsimp only at found
    by_cases positive :
        0 < askedLots setup book order pair.1 pair.2 (priceOf setup order pair.2)
    · rw [dif_pos positive] at found
      cases found
      exact ⟨rfl, rfl, rfl, rfl, rfl⟩
    · rw [dif_neg positive] at found
      cases found

omit [Add K] [Sub K] [Neg K] [Mul K] [Div K] [NatCast K] [IntCast K] [DecidableLT K] in
theorem fillable?_spec {spec : ContractSpec K} {openPrice : K}
    (possible : fillable? setup.specs prices k order = some (spec, openPrice)) :
    find order.symbol setup.specs = some spec ∧
      (prices.opens order.symbol)[k]? = some openPrice ∧ ¬openPrice ≤ 0 := by
  unfold fillable? at possible
  cases specified : find order.symbol setup.specs with
  | none =>
    rw [specified] at possible
    cases possible
  | some found =>
    rw [specified] at possible
    cases opened : (prices.opens order.symbol)[k]? with
    | none =>
      rw [opened] at possible
      cases possible
    | some price =>
      rw [opened] at possible
      dsimp only at possible
      by_cases free : price ≤ 0
      · rw [if_pos free] at possible
        cases possible
      · rw [if_neg free] at possible
        by_cases idle : (prices.volumes order.symbol)[k]?.getD 0 ≤ 0
        · rw [if_pos idle] at possible
          cases possible
        · rw [if_neg idle] at possible
          cases possible
          exact ⟨rfl, rfl, free⟩

omit [Neg K] in
/-- A closing order is filled for no more than is held. -/
theorem lots_le_of_closes {fill : Fill K} (found : fill? setup prices k book order = some fill)
    (closes : fill.order.action.opens = false) :
    fill.lots ≤ (book.side fill.order.action.isLong fill.order.symbol).lots := by
  obtain ⟨rfl, -, -, -, lots⟩ := fill?_spec found
  rw [lots, askedLots, closes, if_neg Bool.false_ne_true]
  exact min_le_right _ _

omit [Neg K] in
/-- What an order is filled for depends on the cash and on the position it is for. -/
theorem fill?_congr {other : Book K} (cash : other.cash = book.cash)
    (same : other.side order.action.isLong order.symbol = book.side order.action.isLong order.symbol) :
    fill? setup prices k other order = fill? setup prices k book order := by
  have lots : askedLots setup other order = askedLots setup book order := by
    funext spec openPrice price
    rw [askedLots, askedLots, cash, same]
  unfold fill?
  rw [lots, same]

/-- The fill of an order for another side changes nothing for an order. -/
theorem fill?_fillOrder {second : PendingOrder K} (notRoll : order.action ≠ .roll)
    (apart : order.Apart second) :
    fill? setup prices k (fillOrder setup.math setup.config setup.specs prices k book order) second =
      fill? setup prices k book second := by
  rw [fillOrder_eq notRoll]
  cases found : fill? setup prices k book order with
  | none => rfl
  | some fill =>
    have own := (fill?_spec found).1
    refine fill?_congr (Book.fill_cash book) ?_
    rw [Option.elim_some, Fill.applyTo, own, Book.side_fill]
    apply if_neg
    rintro ⟨sides, symbols⟩
    rcases apart with differ | differ
    · exact differ symbols.symm
    · exact differ sides.symm

end Branches

section Placing

variable {signals : List (String × TsmomSignal K)} {symbol : String} {isLong : Bool}
  {position : Position K} {target : ℤ}

omit [Add K] [Sub K] [Neg K] [Mul K] [Div K] [NatCast K] [IntCast K] [DecidableLT K]
  [DecidableLE K] in
theorem sideOrders_spec (order : PendingOrder K)
    (member : order ∈ sideOrders setup signals k symbol isLong position target) :
    order.symbol = symbol ∧ order.action.isLong = isLong ∧ order.action ≠ .roll ∧
      sideOrders setup signals k symbol isLong position target = [order] := by
  unfold sideOrders at member ⊢
  by_cases more : position.lots < target
  · rw [if_pos more] at member ⊢
    rw [mem_singleton.mp member]
    cases isLong <;> exact ⟨rfl, rfl, nofun, rfl⟩
  · rw [if_neg more] at member ⊢
    by_cases fewer : target < position.lots
    · rw [if_pos fewer] at member ⊢
      rw [mem_singleton.mp member]
      cases isLong <;> exact ⟨rfl, rfl, nofun, rfl⟩
    · rw [if_neg fewer] at member
      cases member

omit [Add K] [Sub K] [Neg K] [Mul K] [Div K] [NatCast K] [IntCast K] [DecidableLT K]
  [DecidableLE K] in
theorem sideOrders_pairwise (R : PendingOrder K → PendingOrder K → Prop) :
    (sideOrders setup signals k symbol isLong position target).Pairwise R := by
  cases orders : sideOrders setup signals k symbol isLong position target with
  | nil => exact .nil
  | cons first rest =>
    have only := (sideOrders_spec first (orders ▸ mem_cons_self)).2.2.2
    rw [orders] at only
    rw [only]
    exact pairwise_singleton R first

omit [Add K] [Sub K] [Neg K] [Mul K] [Div K] [NatCast K] [IntCast K] [DecidableLT K]
  [DecidableLE K] in
theorem symbolOrders_spec {book : Book K} {desired : Desired} :
    (∀ order ∈ symbolOrders setup signals k book desired symbol,
      order.symbol = symbol ∧ order.action ≠ .roll) ∧
    (symbolOrders setup signals k book desired symbol).Pairwise PendingOrder.Apart := by
  unfold symbolOrders
  cases find symbol setup.specs with
  | none => exact ⟨forall_mem_nil _, .nil⟩
  | some spec =>
    dsimp only
    constructor
    · intro order member
      rcases mem_append.mp member with long | short
      · obtain ⟨own, -, notRoll, -⟩ := sideOrders_spec order long
        exact ⟨own, notRoll⟩
      · obtain ⟨own, -, notRoll, -⟩ := sideOrders_spec order short
        exact ⟨own, notRoll⟩
    · refine pairwise_append.mpr ⟨sideOrders_pairwise _, sideOrders_pairwise _, ?_⟩
      intro first long second short
      obtain ⟨-, longSide, -⟩ := sideOrders_spec first long
      obtain ⟨-, shortSide, -⟩ := sideOrders_spec second short
      right
      rw [longSide, shortSide]
      exact Bool.true_eq_false.mp

omit [Add K] [Sub K] [Neg K] [Mul K] [Div K] [NatCast K] [IntCast K] [DecidableLT K]
  [DecidableLE K] in
theorem placed_ordersOf {symbols : List String} (nodup : symbols.Nodup) (book : Book K)
    (desired : Desired) : Placed symbols (ordersOf setup signals k symbols book desired) where
  no_roll order member := by
    obtain ⟨symbol, -, inside⟩ := mem_flatMap.mp member
    exact (symbolOrders_spec.1 order inside).2
  known order member := by
    obtain ⟨symbol, here, inside⟩ := mem_flatMap.mp member
    rw [(symbolOrders_spec.1 order inside).1]
    exact here
  apart := by
    refine pairwise_flatMap.mpr ⟨fun symbol _ => symbolOrders_spec.2, ?_⟩
    refine nodup.imp ?_
    intro firstSymbol secondSymbol differ first inside second within
    left
    rw [(symbolOrders_spec.1 first inside).1, (symbolOrders_spec.1 second within).1]
    exact differ

theorem placed_stateAt (setup : Setup K) (prices : Prices K) (n : ℕ) :
    Placed prices.symbols (stateAt setup prices n).pendingOrders := by
  have none : Placed prices.symbols ([] : List (PendingOrder K)) := ⟨nofun, nofun, .nil⟩
  have keeps : ∀ (j : ℕ) (state : TsmomState K), Placed prices.symbols state.pendingOrders →
      Placed prices.symbols (barStep setup prices j state).pendingOrders := by
    intro j state _
    unfold barStep closeBar
    dsimp only
    by_cases early : j < setup.config.minDataDays
    · rw [if_pos early]
      exact none
    · rw [if_neg early]
      dsimp only
      split
      · exact none
      · exact placed_ordersOf prices.nodup _ _
  exact afterBars_invariant none keeps n

end Placing

section AllFills

/-- What the pending orders of a bar are filled for, given the book before the bar. -/
def barFills (setup : Setup K) (prices : Prices K) (k : ℕ) (state : TsmomState K) : List (Fill K) :=
  state.pendingOrders.filterMap (fill? setup prices k state.book)

variable {state : TsmomState K}

theorem apart_fill? (setup : Setup K) (k : ℕ) (placed : Placed prices.symbols state.pendingOrders) :
    state.pendingOrders.Pairwise fun first second => ∀ book,
      fill? setup prices k (fillOrder setup.math setup.config setup.specs prices k book first)
        second = fill? setup prices k book second := by
  refine placed.apart.imp_of_mem ?_
  intro first second member _ apart book
  exact fill?_fillOrder (placed.no_roll first member) apart

theorem fillPending_measure {M : Type} [AddMonoid M] (Inv : Book K → Prop) (measure : Book K → M)
    (amount : Fill K → M) (placed : Placed prices.symbols state.pendingOrders) (start : Inv state.book)
    (adds : ∀ book fill, Inv book → fill.order ∈ state.pendingOrders →
      fill? setup prices k book fill.order = some fill →
      Inv (fill.applyTo k book) ∧ measure (fill.applyTo k book) = measure book + amount fill) :
    Inv (fillPending setup prices k state) ∧ measure (fillPending setup prices k state) =
        measure state.book + ((barFills setup prices k state).map amount).sum := by
  have added : ∀ book, Inv book → ∀ order ∈ state.pendingOrders,
      Inv (fillOrder setup.math setup.config setup.specs prices k book order) ∧
        measure (fillOrder setup.math setup.config setup.specs prices k book order) =
          measure book + ((fill? setup prices k book order).elim 0 amount) := by
    intro book inv order member
    rw [fillOrder_eq (placed.no_roll order member)]
    cases found : fill? setup prices k book order with
    | none => exact ⟨inv, (add_zero _).symm⟩
    | some fill =>
      obtain ⟨rfl, -⟩ := fill?_spec found
      exact adds book fill inv member found
  have unaffected := (apart_fill? setup k placed).imp
    fun same book => congrArg (fun fill => Option.elim fill 0 amount) (same book)
  have total := foldl_measure Inv measure _ start added unaffected
  have sums : ∀ orders : List (PendingOrder K),
      (orders.map fun order => (fill? setup prices k state.book order).elim 0 amount).sum =
        ((orders.filterMap (fill? setup prices k state.book)).map amount).sum := by
    intro orders
    induction orders with
    | nil => rfl
    | cons order rest ih =>
      cases found : fill? setup prices k state.book order with
      | none => simp [found, ih]
      | some fill => simp [found, ih]
  refine ⟨total.1, total.2.trans ?_⟩
  rw [sums]
  rfl

theorem trades_fillPending (setup : Setup K) (k : ℕ) (placed : Placed prices.symbols state.pendingOrders) :
    (fillPending setup prices k state).trades =
      state.book.trades ++ (barFills setup prices k state).map (·.trade k) := by
  have added : ∀ book, ∀ order ∈ state.pendingOrders,
      (fillOrder setup.math setup.config setup.specs prices k book order).trades =
        book.trades ++ ((fill? setup prices k book order).map (·.trade k)).toList := by
    intro book order member
    rw [fillOrder_eq (placed.no_roll order member)]
    cases fill? setup prices k book order with
    | none => exact (append_nil _).symm
    | some fill => exact Book.fill_trades book
  have unaffected := (apart_fill? setup k placed).imp
    fun same book => congrArg (fun fill => (Option.map (·.trade k) fill).toList) (same book)
  have total := foldl_log (s := state.book) added unaffected
  refine total.trans ?_
  unfold barFills
  rw [map_filterMap, filterMap_eq_flatMap_toList]

end AllFills

end FinDashboard.Tsmom
