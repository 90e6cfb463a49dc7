import FinDashboard.ConvertibleDoubleLow.Backtest

/-!
# What the orders of a rebalance do

An order does nothing or records one trade of the date of the rebalance. A rebalance is a sequence of
such orders.
-/

namespace FinDashboard.ConvertibleDoubleLow

open Ledger

variable {K : Type} [Decimals K] {config : ConvertibleDoubleLowConfig K} {inputs : BacktestInputs K}
  {code issuer : String} {date : ℤ} {state next : State K}

section OneOrder

def buyQuantity (config : ConvertibleDoubleLowConfig K) (targetValue openPrice volume : K) : K :=
  participating config volume (toLots (targetValue / openPrice))

def buyPrice (config : ConvertibleDoubleLowConfig K) (openPrice : K) : K := openPrice * (1 + slip config)

/-- What a buy costs with its commission. -/
def buyCost (config : ConvertibleDoubleLowConfig K) (openPrice qty : K) : K :=
  buyPrice config openPrice * qty + commissionOn config (buyPrice config openPrice * qty)

/-- The quantity a buy can pay for, where it cannot pay for what it starts from. -/
def affordable (config : ConvertibleDoubleLowConfig K) (cash openPrice qty : K) : K :=
  toLots ((cash - commissionOn config (buyPrice config openPrice * qty)) / buyPrice config openPrice)

/-- A quantity that a buy of a target value buys. -/
inductive Bought (config : ConvertibleDoubleLowConfig K) (targetValue cash openPrice volume : K) : K → Prop
  | whole (enough : ¬cash < buyCost config openPrice (buyQuantity config targetValue openPrice volume)) :
      Bought config targetValue cash openPrice volume (buyQuantity config targetValue openPrice volume)
  | part (short : cash < buyCost config openPrice (buyQuantity config targetValue openPrice volume)) :
      Bought config targetValue cash openPrice volume
        (affordable config cash openPrice (buyQuantity config targetValue openPrice volume))

/-- What an order to buy does. -/
inductive BuyCase (config : ConvertibleDoubleLowConfig K) (code issuer : String) (targetValue : K)
    (date : ℤ) (nextOpen nextVolume : Option K) (state : State K) : State K → Prop
  | nothing : BuyCase config code issuer targetValue date nextOpen nextVolume state state
  | bought (openPrice qty : K) (opened : tradable? nextOpen = some openPrice)
      (wanted : ¬toLots (targetValue / openPrice) ≤ 0)
      (started : ¬buyQuantity config targetValue openPrice (nextVolume.getD 0) ≤ 0)
      (quantity : Bought config targetValue state.cash openPrice (nextVolume.getD 0) qty)
      (positive : ¬qty ≤ 0) :
      BuyCase config code issuer targetValue date nextOpen nextVolume state
        (recordBuy config code issuer date openPrice (buyPrice config openPrice) qty state)

theorem buy_case (config : ConvertibleDoubleLowConfig K) (code issuer : String) (targetValue : K)
    (date : ℤ) (nextOpen nextVolume : Option K) (state : State K) :
    BuyCase config code issuer targetValue date nextOpen nextVolume state
      (buy config code issuer targetValue date nextOpen nextVolume state) := by
  unfold buy
  cases opened : tradable? nextOpen with
  | none => exact .nothing
  | some openPrice =>
    dsimp only
    by_cases wanted : toLots (targetValue / openPrice) ≤ 0
    · rw [if_pos wanted]
      exact .nothing
    rw [if_neg wanted]
    by_cases started : buyQuantity config targetValue openPrice (nextVolume.getD 0) ≤ 0
    · rw [buyQuantity] at started
      rw [if_pos started]
      exact .nothing
    have sized := started
    rw [buyQuantity] at sized
    rw [if_neg sized]
    by_cases short : state.cash < buyCost config openPrice
        (buyQuantity config targetValue openPrice (nextVolume.getD 0))
    · have broke := short
      rw [buyCost, buyQuantity, buyPrice] at broke
      rw [if_pos broke]
      by_cases none : affordable config state.cash openPrice
          (buyQuantity config targetValue openPrice (nextVolume.getD 0)) ≤ 0
      · have nothing := none
        rw [affordable, buyQuantity, buyPrice] at nothing
        rw [if_pos nothing]
        exact .nothing
      · have some := none
        rw [affordable, buyQuantity, buyPrice] at some
        rw [if_neg some]
        exact .bought openPrice _ opened wanted started (.part short) none
    · have enough := short
      rw [buyCost, buyQuantity, buyPrice] at enough
      rw [if_neg enough]
      exact .bought openPrice _ opened wanted started (.whole short) started

/-- What an order to sell does. -/
inductive SellCase (config : ConvertibleDoubleLowConfig K) (date : ℤ)
    (nextOpens nextVolumes : String → Option K) (reason : TradeReason) (state : State K)
    (code : String) : State K → Prop
  | nothing : SellCase config date nextOpens nextVolumes reason state code state
  | sold (pos : Position K) (openPrice : K) (held : find code state.positions = some pos)
      (opened : tradable? (nextOpens code) = some openPrice)
      (positive : ¬participating config ((nextVolumes code).getD 0) pos.quantity ≤ 0) :
      SellCase config date nextOpens nextVolumes reason state code
        (recordSell config code pos date openPrice
          (participating config ((nextVolumes code).getD 0) pos.quantity) reason state)

theorem sellPosition_case (config : ConvertibleDoubleLowConfig K) (date : ℤ)
    (nextOpens nextVolumes : String → Option K) (reason : TradeReason) (state : State K) (code : String) :
    SellCase config date nextOpens nextVolumes reason state code
      (sellPosition config date nextOpens nextVolumes reason state code) := by
  unfold sellPosition
  cases held : find code state.positions with
  | none => exact .nothing
  | some pos =>
    cases opened : tradable? (nextOpens code) with
    | none => exact .nothing
    | some openPrice =>
      dsimp only
      by_cases none : participating config ((nextVolumes code).getD 0) pos.quantity ≤ 0
      · rw [if_pos none]
        exact .nothing
      · rw [if_neg none]
        exact .sold pos openPrice held opened none

/-- What the close-out does with a position. -/
inductive CloseCase (opens : String → Option K) (state : State K) (code : String)
    (next : State K) : Prop
  | nothing (same : next = state)
      (kept : tradable? (opens code) = none ∨ find code state.positions = none)
  | closed (pos : Position K) (openPrice : K)
      (held : find code state.positions = some pos)
      (opened : tradable? (opens code) = some openPrice)
      (cash : next.cash = state.cash +
        (openPrice * pos.quantity - closingCommission (openPrice * pos.quantity)))
      (positions : next.positions = remove code state.positions)
      (trades : next.trades = state.trades)
      (commission : next.totalCommission = state.totalCommission)
      (curve : next.equityCurve = state.equityCurve)
      (rebalanced : next.rebalanceDates = state.rebalanceDates)

theorem closePosition_case (lastDate : ℤ) (opens : String → Option K) (state : State K) (code : String) :
    CloseCase opens state code (closePosition lastDate opens state code) := by
  unfold closePosition
  cases opened : tradable? (opens code) with
  | none => exact .nothing rfl (.inl opened)
  | some openPrice =>
    cases held : find code state.positions with
    | none => exact .nothing rfl (.inr held)
    | some pos => exact .closed pos openPrice held opened rfl rfl rfl rfl rfl rfl

end OneOrder

section Orders

variable {P : State K → Prop}

/-- What every order keeps, the loop over the exits keeps. -/
theorem foldl_sellPosition_invariant {nextOpens nextVolumes : String → Option K} {reason : TradeReason}
    (codes : List String) (start : P state) (sells : ∀ s code s', P s → code ∈ codes →
      SellCase config date nextOpens nextVolumes reason s code s' → P s') :
    P (codes.foldl (sellPosition config date nextOpens nextVolumes reason) state) :=
  List.foldlRecOn codes _ start fun s holds code member =>
    sells s code _ holds member (sellPosition_case config date nextOpens nextVolumes reason s code)

theorem enter_invariant {safe : List (ConvertibleSnapshot K)} {equity : K} {sig : ConvertibleSignal K}
    (start : P state) (buys : ∀ snap s', find sig.code state.positions = none →
      safe.find? (fun snapshot => snapshot.code = sig.code) = some snap →
      ¬config.maxWeightPerIssuer < issuerWeight state snap.issuerCode + entryWeight config →
      BuyCase config sig.code snap.issuerCode (equity * entryWeight config) date
        (inputs.nextOpens date sig.code) (inputs.nextVolumes date sig.code) state s' → P s') :
    P (enter inputs config date safe equity state sig) := by
  unfold enter
  cases held : find sig.code state.positions with
  | some pos => exact start
  | none =>
    rw [if_neg (by simp)]
    cases found : safe.find? fun snapshot => snapshot.code = sig.code with
    | none => exact start
    | some snap =>
      dsimp only
      by_cases heavy : config.maxWeightPerIssuer <
          issuerWeight state snap.issuerCode + entryWeight config
      · rw [if_pos heavy]
        exact start
      · rw [if_neg heavy]
        exact buys snap _ held found heavy (buy_case ..)

@[simp] theorem enforceTurnoverLimit_eq (snapshots : List (ConvertibleSnapshot K)) :
    enforceTurnoverLimit config date snapshots state = state := by
  unfold enforceTurnoverLimit
  dsimp only
  split_ifs <;> rfl

theorem doRebalance_invariant (start : P state) (sells : ∀ s code reason s', P s →
      SellCase config date (inputs.nextOpens date) (inputs.nextVolumes date) reason s code s' → P s')
    (buys : ∀ s code issuer targetValue s', P s → find code s.positions = none →
      BuyCase config code issuer targetValue date (inputs.nextOpens date code)
        (inputs.nextVolumes date code) s s' → P s') : P (doRebalance inputs config date state) := by
  have sold : ∀ reason (codes : List String), P (codes.foldl (sellPosition config date (inputs.nextOpens date)
      (inputs.nextVolumes date) reason) state) := by
    intro reason codes
    exact foldl_sellPosition_invariant codes start fun s code s' holds _ case =>
      sells s code reason s' holds case
  unfold doRebalance
  dsimp only
  split_ifs
  · exact sold _ _
  · exact sold _ _
  · rw [enforceTurnoverLimit_eq]
    apply List.foldlRecOn _ _ (sold _ _)
    intro s holds sig _
    apply enter_invariant holds
    intro snap s' fresh _ _ case
    exact buys s sig.code snap.issuerCode _ s' holds fresh case

end Orders

end FinDashboard.ConvertibleDoubleLow
