import FinDashboard.ConvertibleDoubleLow.BooksClose

/-!
# The limits of a convertible rebalance

A rebalance does not test its turnover, trades without a limit where the next day has no volume, and tests
an issuer at entry prices. It is within its limits where what it sells and what its entries are to buy,
each at its target value, are.
-/

namespace FinDashboard.ConvertibleDoubleLow

open Ledger List

variable {inputs : BacktestInputs ℚ} {config : ConvertibleDoubleLowConfig ℚ}
  {state before after next : State ℚ} {date : ℤ} {snapshots : List (ConvertibleSnapshot ℚ)}

section Statement

/-- The trades a rebalance records. -/
def newTrades (before after : State ℚ) : List (ConvertibleTrade ℚ) :=
  after.trades.drop before.trades.length

/-- The close of a bond on a day, or the entry price of the position in it where it has no snapshot. -/
def dayPrice (snapshots : List (ConvertibleSnapshot ℚ)) (before : State ℚ) (code : String) : ℚ :=
  match snapOf code snapshots with
  | some snapshot => snapshot.close
  | none => (find code before.positions).elim 0 (·.entryPrice)

/-- What a trade is worth at the prices of the day. -/
def tradeValue (snapshots : List (ConvertibleSnapshot ℚ)) (before : State ℚ) (trade : ConvertibleTrade ℚ) :
    ℚ :=
  trade.quantity * dayPrice snapshots before trade.code

/-- What is held of an issuer, at the closes of a day. -/
def issuerWorth (snapshots : List (ConvertibleSnapshot ℚ)) (state : State ℚ) (issuer : String) : ℚ :=
  worthOf snapshots (state.positions.filter fun entry => entry.2.issuer = issuer)

/-- The limits of the rebalance of a day. -/
structure RebalanceLimits (inputs : BacktestInputs ℚ) (config : ConvertibleDoubleLowConfig ℚ) (date : ℤ)
    (before after : State ℚ) : Prop where
  turnover : total (tradeValue (inputs.snapshots date) before) (newTrades before after) ≤
    config.maxDailyTurnover * calcEquity (inputs.snapshots date) before
  participation : config.maxParticipation < 1 → ∀ trade ∈ newTrades before after,
    ∃ volume, inputs.nextVolumes date trade.code = some volume ∧ volume ≠ 0 ∧
      trade.quantity ≤ config.maxParticipation * volume
  issuer : ∀ trade ∈ newTrades before after, trade.side = .buy →
    ∀ pos, find trade.code after.positions = some pos →
      issuerWorth (inputs.snapshots date) after pos.issuer ≤
        config.maxWeightPerIssuer * calcEquity (inputs.snapshots date) after +
          total (·.slippageCost) (newTrades before after)

end Statement

section Condition

/-- An entry the rebalance orders: one that passes the tests of the loop and whose bond has an open. -/
structure Plan where
  code : String
  issuer : String
  openPrice : ℚ

def plan? (inputs : BacktestInputs ℚ) (config : ConvertibleDoubleLowConfig ℚ) (date : ℤ)
    (safe : List (ConvertibleSnapshot ℚ)) (state : State ℚ) (sig : ConvertibleSignal ℚ) : Option Plan :=
  if (find sig.code state.positions).isSome then none
  else
    match safe.find? fun snapshot => snapshot.code = sig.code with
    | none => none
    | some snap =>
      if config.maxWeightPerIssuer < issuerWeight state snap.issuerCode + entryWeight config then none
      else
        (tradable? (inputs.nextOpens date sig.code)).map fun openPrice =>
          { code := sig.code, issuer := snap.issuerCode, openPrice }

/-- The orders for some signals, each as its turn comes. -/
def plans (inputs : BacktestInputs ℚ) (config : ConvertibleDoubleLowConfig ℚ) (date : ℤ)
    (safe : List (ConvertibleSnapshot ℚ)) (equity : ℚ) : State ℚ → List (ConvertibleSignal ℚ) → List Plan
  | _, [] => []
  | state, sig :: rest =>
    (plan? inputs config date safe state sig).toList ++
      plans inputs config date safe equity (enter inputs config date safe equity state sig) rest

def closeOf (snapshots : List (ConvertibleSnapshot ℚ)) (code : String) : ℚ :=
  (snapOf code snapshots).elim 0 (·.close)

/-- The quantity of the target value of an order. -/
def planQuantity (config : ConvertibleDoubleLowConfig ℚ) (equity : ℚ) (plan : Plan) : ℚ :=
  equity * entryWeight config / plan.openPrice

/-- What an order is to buy, at the close of the bond. -/
def planValue (config : ConvertibleDoubleLowConfig ℚ) (snapshots : List (ConvertibleSnapshot ℚ))
    (equity : ℚ) (plan : Plan) : ℚ :=
  max 0 (planQuantity config equity plan * closeOf snapshots plan.code)

/-- What an order can take from the equity at the closes: what it pays above the close, and its
commission. -/
def planLoss (config : ConvertibleDoubleLowConfig ℚ) (snapshots : List (ConvertibleSnapshot ℚ))
    (equity : ℚ) (plan : Plan) : ℚ :=
  max 0 (planQuantity config equity plan *
      (buyPrice config plan.openPrice - closeOf snapshots plan.code)) +
    commissionOn config (buyPrice config plan.openPrice * planQuantity config equity plan)

variable (inputs config date)

def signalsOn : List (ConvertibleSignal ℚ) :=
  generateSignals (safeCandidates inputs config date) config

/-- The bonds a rebalance sells. -/
def exitCodes (state : State ℚ) : List String :=
  (state.positions.map (·.1)).filter fun code => code ∉ (signalsOn inputs config date).map (·.code)

/-- Why a rebalance sells. -/
def exitReason : TradeReason :=
  if (safeCandidates inputs config date).isEmpty then .noCandidates
  else if (signalsOn inputs config date).isEmpty then .noSignals
  else .rankExit

def exited (state : State ℚ) : State ℚ :=
  (exitCodes inputs config date state).foldl (sellPosition config date (inputs.nextOpens date)
    (inputs.nextVolumes date) (exitReason inputs config date)) state

/-- The equity the entries are sized with. -/
def sizingEquity (state : State ℚ) : ℚ :=
  calcEquity (inputs.snapshots date) (exited inputs config date state)

/-- The orders of the entries of a rebalance. -/
def entryPlans (state : State ℚ) : List Plan :=
  plans inputs config date (safeCandidates inputs config date) (sizingEquity inputs config date state)
    (exited inputs config date state)
    ((signalsOn inputs config date).take (computeRankThreshold config .entry).toNat)

/-- The quantity an exit sells, of the positions before the rebalance. -/
def exitQuantity (state : State ℚ) (code : String) : ℚ :=
  match find code state.positions, tradable? (inputs.nextOpens date code) with
  | some pos, some _ =>
    let qty := participating config ((inputs.nextVolumes date code).getD 0) pos.quantity
    if qty ≤ 0 then 0 else qty
  | _, _ => 0

/-- A rebalance whose exits and orders fit its limits. -/
structure OrderlyRebalance (state : State ℚ) : Prop where
  turnover : total (fun code => exitQuantity inputs config date state code *
        dayPrice (inputs.snapshots date) state code) (exitCodes inputs config date state) +
      total (planValue config (inputs.snapshots date) (sizingEquity inputs config date state))
        (entryPlans inputs config date state) ≤
    config.maxDailyTurnover * calcEquity (inputs.snapshots date) state
  volumes : config.maxParticipation < 1 →
    (∀ code ∈ exitCodes inputs config date state, exitQuantity inputs config date state code ≠ 0 →
      0 < (inputs.nextVolumes date code).getD 0) ∧
    ∀ plan ∈ entryPlans inputs config date state, 0 < (inputs.nextVolumes date plan.code).getD 0
  issuers : ∀ plan ∈ entryPlans inputs config date state,
    issuerWorth (inputs.snapshots date) (exited inputs config date state) plan.issuer +
        total (planValue config (inputs.snapshots date) (sizingEquity inputs config date state))
          ((entryPlans inputs config date state).filter fun other => other.issuer = plan.issuer) ≤
      config.maxWeightPerIssuer * (sizingEquity inputs config date state -
        total (planLoss config (inputs.snapshots date) (sizingEquity inputs config date state))
          (entryPlans inputs config date state))

end Condition

section OneEntry

variable {safe : List (ConvertibleSnapshot ℚ)} {equity : ℚ} {sig : ConvertibleSignal ℚ} {plan : Plan}

theorem tradable?_pos {nextOpen : Option ℚ} {openPrice : ℚ} (opened : tradable? nextOpen = some openPrice) :
    0 < openPrice := by
  unfold tradable? at opened
  cases nextOpen with
  | none => cases opened
  | some price =>
    dsimp only at opened
    split_ifs at opened with nonpositive
    cases opened
    exact not_le.mp nonpositive

theorem slip_nonneg (valid : config.Valid) : 0 ≤ slip config := by
  have slippage := valid.costs.2
  unfold slip
  exact div_nonneg slippage (by norm_num)

theorem buyPrice_pos (valid : config.Valid) {openPrice : ℚ} (positive : 0 < openPrice) :
    0 < buyPrice config openPrice := by
  have fraction := slip_nonneg valid
  unfold buyPrice
  exact mul_pos positive (by linarith)

theorem commissionOn_mono (valid : config.Valid) {less more : ℚ} (le : less ≤ more) :
    commissionOn config less ≤ commissionOn config more := by
  have rate := valid.costs.1
  have scaled := mul_le_mul_of_nonneg_right le rate
  unfold commissionOn pyMax
  split_ifs <;> linarith

theorem commissionOn_nonneg (value : ℚ) : 0 ≤ commissionOn config value := by
  unfold commissionOn pyMax
  split_ifs with less
  · exact zero_le_one
  · exact zero_le_one.trans (not_lt.mp less)

theorem Bought.le {targetValue cash openPrice volume qty : ℚ} (price : 0 < buyPrice config openPrice)
    (quantity : Bought config targetValue cash openPrice volume qty) :
    qty ≤ buyQuantity config targetValue openPrice volume := by
  cases quantity with
  | whole => exact le_refl _
  | part short =>
    apply (toLots_le _).trans
    rw [div_le_iff₀ price]
    unfold buyCost at short
    linarith

/-- An order with a volume to participate in is within its part of it. -/
theorem participating_le_volume {volume quantity : ℚ} (limited : config.maxParticipation < 1)
    (traded : 0 < volume) : participating config volume quantity ≤ config.maxParticipation * volume := by
  unfold participating
  rw [if_pos ⟨limited, traded⟩]
  apply (toLots_le _).trans
  unfold pyMin
  split_ifs with less
  · exact le_of_eq (mul_comm _ _)
  · exact (not_lt.mp less).trans (le_of_eq (mul_comm _ _))

/-- What the entry for a signal does. -/
inductive EnterCase (inputs : BacktestInputs ℚ) (config : ConvertibleDoubleLowConfig ℚ) (date : ℤ)
    (safe : List (ConvertibleSnapshot ℚ)) (equity : ℚ) (state : State ℚ) (sig : ConvertibleSignal ℚ)
    (next : State ℚ) : Prop
  | unplanned (none : plan? inputs config date safe state sig = none) (same : next = state)
  | declined (plan : Plan) (planned : plan? inputs config date safe state sig = some plan)
      (same : next = state)
  | bought (plan : Plan) (qty : ℚ) (planned : plan? inputs config date safe state sig = some plan)
      (fresh : find plan.code state.positions = none)
      (known : ∃ snap ∈ safe, snap.code = plan.code) (opened : 0 < plan.openPrice)
      (positive : 0 < qty) (most : qty ≤ planQuantity config equity plan)
      (participation : config.maxParticipation < 1 → 0 < (inputs.nextVolumes date plan.code).getD 0 →
          qty ≤ config.maxParticipation * (inputs.nextVolumes date plan.code).getD 0)
      (recorded : next = recordBuy config plan.code plan.issuer date plan.openPrice
        (buyPrice config plan.openPrice) qty state)

theorem enter_case (valid : config.Valid) (state : State ℚ) (sig : ConvertibleSignal ℚ) :
    EnterCase inputs config date safe equity state sig
      (enter inputs config date safe equity state sig) := by
  unfold enter
  cases held : find sig.code state.positions with
  | some pos =>
    apply EnterCase.unplanned _ rfl
    rw [plan?, held]
    rfl
  | none =>
    rw [if_neg (by simp)]
    cases found : safe.find? fun snapshot => snapshot.code = sig.code with
    | none =>
      apply EnterCase.unplanned _ rfl
      rw [plan?, held, found]
      rfl
    | some snap =>
      dsimp only
      by_cases heavy : config.maxWeightPerIssuer <
          issuerWeight state snap.issuerCode + entryWeight config
      · rw [if_pos heavy]
        apply EnterCase.unplanned _ rfl
        simp only [plan?, held, found, if_pos heavy]
        rfl
      rw [if_neg heavy]
      have planned : ∀ openPrice, tradable? (inputs.nextOpens date sig.code) = some openPrice →
          plan? inputs config date safe state sig =
            some { code := sig.code, issuer := snap.issuerCode, openPrice } := by
        intro openPrice opened
        simp only [plan?, held, found, if_neg heavy, opened]
        rfl
      have bought := buy_case config sig.code snap.issuerCode (equity * entryWeight config) date
        (inputs.nextOpens date sig.code) (inputs.nextVolumes date sig.code) state
      generalize buy config sig.code snap.issuerCode (equity * entryWeight config) date
        (inputs.nextOpens date sig.code) (inputs.nextVolumes date sig.code) state = next at bought ⊢
      cases bought with
      | nothing =>
        cases opened : tradable? (inputs.nextOpens date sig.code) with
        | none =>
          apply EnterCase.unplanned _ rfl
          simp only [plan?, held, found, if_neg heavy, opened]
          rfl
        | some openPrice => exact .declined _ (planned openPrice opened) rfl
      | bought openPrice qty opened wanted started quantity positive =>
        have price := tradable?_pos opened
        have most := quantity.le (buyPrice_pos valid price)
        have member := mem_of_find?_eq_some found
        have same := find?_some found
        rw [decide_eq_true_eq] at same
        exact .bought { code := sig.code, issuer := snap.issuerCode, openPrice } qty
          (planned openPrice opened) held ⟨snap, member, same⟩ price (not_le.mp positive)
          (most.trans ((participating_le _ _).trans (toLots_le _)))
          (fun limited traded => most.trans (participating_le_volume limited traded)) rfl

end OneEntry

section Entries

variable {safe : List (ConvertibleSnapshot ℚ)} {equity : ℚ} {start : State ℚ} {first second : List Plan}

theorem calcEquity_eq (snapshots : List (ConvertibleSnapshot ℚ)) (state : State ℚ) :
    calcEquity snapshots state = state.cash + worthOf snapshots state.positions :=
  foldl_total _ _ _

/-- A trade of an order to buy. -/
structure EntryTrade (inputs : BacktestInputs ℚ) (config : ConvertibleDoubleLowConfig ℚ) (date : ℤ)
    (ordered : List Plan) (after : State ℚ) (trade : ConvertibleTrade ℚ) : Prop where
  slippage : 0 ≤ trade.slippageCost
  planned : ∃ plan ∈ ordered, trade.code = plan.code ∧
    (find plan.code after.positions).map (·.issuer) = some plan.issuer
  participation : config.maxParticipation < 1 → 0 < (inputs.nextVolumes date trade.code).getD 0 →
    trade.quantity ≤ config.maxParticipation * (inputs.nextVolumes date trade.code).getD 0

/-- What some orders to buy do. -/
structure Progress (inputs : BacktestInputs ℚ) (config : ConvertibleDoubleLowConfig ℚ) (date : ℤ)
    (equity : ℚ) (start : State ℚ) (ordered : List Plan) (before after : State ℚ) : Prop where
  trades : ∃ new, after.trades = before.trades ++ new ∧
    total (tradeValue (inputs.snapshots date) start) new ≤
      total (planValue config (inputs.snapshots date) equity) ordered ∧
    ∀ trade ∈ new, EntryTrade inputs config date ordered after trade
  kept : ∀ code pos, find code before.positions = some pos → find code after.positions = some pos
  worth : ∀ issuer, issuerWorth (inputs.snapshots date) after issuer ≤
    issuerWorth (inputs.snapshots date) before issuer +
      total (planValue config (inputs.snapshots date) equity)
        (ordered.filter fun plan => plan.issuer = issuer)
  equity : calcEquity (inputs.snapshots date) before -
      total (planLoss config (inputs.snapshots date) equity) ordered ≤
    calcEquity (inputs.snapshots date) after

theorem EntryTrade.later {trade : ConvertibleTrade ℚ} {ordered : List Plan}
    (entry : EntryTrade inputs config date first before trade) (more : ∀ plan ∈ first, plan ∈ ordered)
    (kept : ∀ code pos, find code before.positions = some pos → find code after.positions = some pos) :
    EntryTrade inputs config date ordered after trade where
  slippage := entry.slippage
  planned := by
    obtain ⟨plan, member, code, issuer⟩ := entry.planned
    obtain ⟨pos, held, same⟩ := Option.map_eq_some_iff.mp issuer
    refine ⟨plan, more plan member, code, ?_⟩
    rw [kept plan.code pos held, Option.map_some, same]
  participation := entry.participation

theorem planLoss_nonneg (plan : Plan) : 0 ≤ planLoss config snapshots equity plan :=
  add_nonneg (le_max_left _ _) (commissionOn_nonneg _)

theorem planValue_nonneg (plan : Plan) : 0 ≤ planValue config snapshots equity plan :=
  le_max_left _ _

namespace Progress

theorem refl (state : State ℚ) (ordered : List Plan) :
    Progress inputs config date equity start ordered state state where
  trades := by
    refine ⟨[], (append_nil _).symm, ?_, forall_mem_nil _⟩
    exact total_nonneg fun plan _ => planValue_nonneg plan
  kept _ _ held := held
  worth issuer := by
    have nonneg : 0 ≤ total (planValue config (inputs.snapshots date) equity)
        (ordered.filter fun plan => plan.issuer = issuer) :=
      total_nonneg fun plan _ => planValue_nonneg plan
    linarith
  equity := by
    have nonneg : 0 ≤ total (planLoss config (inputs.snapshots date) equity) ordered :=
      total_nonneg fun plan _ => planLoss_nonneg plan
    linarith

theorem trans (earlier : Progress inputs config date equity start first before state)
    (later : Progress inputs config date equity start second state after) :
    Progress inputs config date equity start (first ++ second) before after where
  trades := by
    obtain ⟨new, grown, value, entries⟩ := earlier.trades
    obtain ⟨new', grown', value', entries'⟩ := later.trades
    refine ⟨new ++ new', by rw [grown', grown, append_assoc], ?_, ?_⟩
    · rw [total_append, total_append]
      linarith
    · intro trade member
      rcases mem_append.mp member with old | fresh
      · exact (entries trade old).later (fun _ => mem_append_left _) later.kept
      · exact (entries' trade fresh).later (fun _ => mem_append_right _) fun _ _ held => held
  kept code pos held := later.kept code pos (earlier.kept code pos held)
  worth issuer := by
    have before := earlier.worth issuer
    have after := later.worth issuer
    rw [filter_append, total_append]
    linarith
  equity := by
    have before := earlier.equity
    have after := later.equity
    rw [total_append]
    linarith

end Progress

theorem worthOf_append (positions : List (String × Position ℚ)) (entry : String × Position ℚ) :
    worthOf snapshots (positions ++ [entry]) =
      worthOf snapshots positions + markPrice snapshots entry * entry.2.quantity := by
  rw [worthOf, total_append, total_cons, total_nil, add_zero, worthOf]

section Filled

variable {plan : Plan} {qty : ℚ}

theorem value_le_planValue (snapshots : List (ConvertibleSnapshot ℚ)) (positive : 0 < qty)
    (most : qty ≤ planQuantity config equity plan) :
    qty * closeOf snapshots plan.code ≤ planValue config snapshots equity plan := by
  unfold planValue
  rcases le_total 0 (closeOf snapshots plan.code) with nonneg | negative
  · exact (mul_le_mul_of_nonneg_right most nonneg).trans (le_max_right _ _)
  · exact (mul_nonpos_of_nonneg_of_nonpos (le_of_lt positive) negative).trans (le_max_left _ _)

theorem loss_le_planLoss (snapshots : List (ConvertibleSnapshot ℚ)) (valid : config.Valid)
    (opened : 0 < plan.openPrice) (positive : 0 < qty) (most : qty ≤ planQuantity config equity plan) :
    qty * (buyPrice config plan.openPrice - closeOf snapshots plan.code) +
        commissionOn config (buyPrice config plan.openPrice * qty) ≤
      planLoss config snapshots equity plan := by
  have price := le_of_lt (buyPrice_pos valid opened)
  have commission := commissionOn_mono valid (mul_le_mul_of_nonneg_left most price)
  have paid : qty * (buyPrice config plan.openPrice - closeOf snapshots plan.code) ≤
      max 0 (planQuantity config equity plan *
        (buyPrice config plan.openPrice - closeOf snapshots plan.code)) := by
    rcases le_total 0 (buyPrice config plan.openPrice - closeOf snapshots plan.code) with
      nonneg | negative
    · exact (mul_le_mul_of_nonneg_right most nonneg).trans (le_max_right _ _)
    · exact (mul_nonpos_of_nonneg_of_nonpos (le_of_lt positive) negative).trans (le_max_left _ _)
  exact add_le_add paid commission

theorem Progress.buy (valid : config.Valid) (fresh : find plan.code state.positions = none)
    (known : (snapOf plan.code (inputs.snapshots date)).isSome) (opened : 0 < plan.openPrice)
    (positive : 0 < qty) (most : qty ≤ planQuantity config equity plan)
    (participation : config.maxParticipation < 1 → 0 < (inputs.nextVolumes date plan.code).getD 0 →
        qty ≤ config.maxParticipation * (inputs.nextVolumes date plan.code).getD 0) :
    Progress inputs config date equity start [plan] state
      (recordBuy config plan.code plan.issuer date plan.openPrice (buyPrice config plan.openPrice) qty
        state) := by
  obtain ⟨snapshot, here⟩ := Option.isSome_iff_exists.mp known
  have value := value_le_planValue (inputs.snapshots date) positive most
  have loss := loss_le_planLoss (inputs.snapshots date) valid opened positive most
  have positions : (recordBuy config plan.code plan.issuer date plan.openPrice
      (buyPrice config plan.openPrice) qty state).positions = state.positions ++
        [(plan.code, ⟨qty, buyPrice config plan.openPrice, date, plan.issuer⟩)] :=
    assign_of_fresh (find_eq_none fresh)
  have mark : markPrice (inputs.snapshots date)
      (plan.code, (⟨qty, buyPrice config plan.openPrice, date, plan.issuer⟩ : Position ℚ)) =
        closeOf (inputs.snapshots date) plan.code := by
    rw [markPrice, closeOf, here]
    rfl
  have day : dayPrice (inputs.snapshots date) start plan.code =
      closeOf (inputs.snapshots date) plan.code := by
    rw [dayPrice, closeOf, here]
    rfl
  exact
    { trades := by
        refine ⟨_, rfl, ?_, ?_⟩
        · rw [total_cons, total_nil, total_cons, total_nil, add_zero, add_zero, tradeValue, day]
          exact value
        · intro trade member
          rw [mem_singleton.mp member]
          exact
            { slippage := by
                have fraction := slip_nonneg valid
                have above : 0 ≤ buyPrice config plan.openPrice - plan.openPrice := by
                  unfold buyPrice
                  nlinarith
                exact mul_nonneg above (le_of_lt positive)
              planned := by
                refine ⟨plan, mem_singleton_self _, rfl, ?_⟩
                rw [recordBuy, find_assign, if_pos rfl]
                rfl
              participation := participation }
      kept := by
        intro code pos held
        have apart : plan.code ≠ code := by
          rintro rfl
          cases fresh.symm.trans held
        rw [recordBuy, find_assign, if_neg apart]
        exact held
      worth := by
        intro issuer
        rw [issuerWorth, issuerWorth, positions, filter_append]
        by_cases same : plan.issuer = issuer
        · rw [filter_cons_of_pos (by simpa using same), filter_nil, worthOf_append,
            filter_cons_of_pos (by simpa using same), filter_nil, total_cons, total_nil,
            mark]
          linarith
        · rw [filter_cons_of_neg (by simpa using same), filter_nil, append_nil,
            filter_cons_of_neg (by simpa using same), filter_nil, total_nil, add_zero]
      equity := by
        rw [calcEquity_eq, calcEquity_eq, positions, worthOf_append, mark, total_cons, total_nil]
        dsimp only [recordBuy]
        linarith }

end Filled

theorem enter_progress (valid : config.Valid)
    (known : ∀ snap ∈ safe, (snapOf snap.code (inputs.snapshots date)).isSome)
    (state : State ℚ) (sig : ConvertibleSignal ℚ) :
    Progress inputs config date equity start (plan? inputs config date safe state sig).toList state
      (enter inputs config date safe equity state sig) := by
  have entered : EnterCase inputs config date safe equity state sig
      (enter inputs config date safe equity state sig) := enter_case valid state sig
  cases entered with
  | unplanned none same =>
    rw [same]
    exact .refl state _
  | declined plan planned same =>
    rw [same]
    exact .refl state _
  | bought plan qty planned fresh member opened positive most participation recorded =>
    obtain ⟨snap, inside, same⟩ := member
    have here := known snap inside
    rw [same] at here
    rw [recorded, planned]
    exact .buy valid fresh here opened positive most participation

theorem foldl_enter_progress (valid : config.Valid)
    (known : ∀ snap ∈ safe, (snapOf snap.code (inputs.snapshots date)).isSome)
    (signals : List (ConvertibleSignal ℚ)) (state : State ℚ) :
    Progress inputs config date equity start (plans inputs config date safe equity state signals) state
      (signals.foldl (enter inputs config date safe equity) state) := by
  induction signals generalizing state with
  | nil => exact .refl state _
  | cons sig rest ih => exact (enter_progress valid known state sig).trans (ih _)

end Entries

section Exits

variable {codes : List String}

/-- A trade of an exit. -/
structure ExitTrade (inputs : BacktestInputs ℚ) (config : ConvertibleDoubleLowConfig ℚ) (date : ℤ)
    (before : State ℚ) (codes : List String) (trade : ConvertibleTrade ℚ) : Prop where
  slippage : 0 ≤ trade.slippageCost
  sells : trade.side = .sell
  known : trade.code ∈ codes
  quantity : exitQuantity inputs config date before trade.code ≠ 0
  participation : config.maxParticipation < 1 → 0 < (inputs.nextVolumes date trade.code).getD 0 →
    trade.quantity ≤ config.maxParticipation * (inputs.nextVolumes date trade.code).getD 0

/-- What some exits do. -/
def Exits (inputs : BacktestInputs ℚ) (config : ConvertibleDoubleLowConfig ℚ) (date : ℤ)
    (before : State ℚ) (codes : List String) (state next : State ℚ) : Prop :=
  ∃ new, next.trades = state.trades ++ new ∧
    total (tradeValue (inputs.snapshots date) before) new =
      total (fun code => exitQuantity inputs config date before code *
        dayPrice (inputs.snapshots date) before code) codes ∧
    ∀ trade ∈ new, ExitTrade inputs config date before codes trade

/-- One exit, of a position that is as it was before the rebalance. -/
theorem sellPosition_exits (valid : config.Valid) (reason : TradeReason) (code : String)
    (same : find code state.positions = find code before.positions) :
    Exits inputs config date before [code] state
        (sellPosition config date (inputs.nextOpens date) (inputs.nextVolumes date) reason state code) ∧
      ∀ other, other ≠ code → find other (sellPosition config date (inputs.nextOpens date)
        (inputs.nextVolumes date) reason state code).positions = find other state.positions := by
  have fraction := slip_nonneg valid
  unfold sellPosition
  cases held : find code state.positions with
  | none =>
    refine ⟨⟨[], (append_nil _).symm, ?_, forall_mem_nil _⟩, fun _ _ => rfl⟩
    have nothing : exitQuantity inputs config date before code = 0 := by
      rw [exitQuantity, ← same, held]
    rw [total_nil, total_cons, total_nil, nothing, zero_mul, add_zero]
  | some pos =>
    cases opened : tradable? (inputs.nextOpens date code) with
    | none =>
      refine ⟨⟨[], (append_nil _).symm, ?_, forall_mem_nil _⟩, fun _ _ => rfl⟩
      have nothing : exitQuantity inputs config date before code = 0 := by
        rw [exitQuantity, ← same, held, opened]
      rw [total_nil, total_cons, total_nil, nothing, zero_mul, add_zero]
    | some openPrice =>
      have price := tradable?_pos opened
      dsimp only
      by_cases none : participating config ((inputs.nextVolumes date code).getD 0) pos.quantity ≤ 0
      · rw [if_pos none]
        refine ⟨⟨[], (append_nil _).symm, ?_, forall_mem_nil _⟩, fun _ _ => rfl⟩
        have nothing : exitQuantity inputs config date before code = 0 := by
          rw [exitQuantity, ← same, held, opened]
          exact if_pos none
        rw [total_nil, total_cons, total_nil, nothing, zero_mul, add_zero]
      rw [if_neg none]
      have positive := not_le.mp none
      have sold : exitQuantity inputs config date before code =
          participating config ((inputs.nextVolumes date code).getD 0) pos.quantity := by
        rw [exitQuantity, ← same, held, opened]
        exact if_neg none
      constructor
      · refine ⟨_, rfl, ?_, ?_⟩
        · rw [total_cons, total_nil, total_cons, total_nil, sold, tradeValue]
        · intro trade member
          rw [mem_singleton.mp member]
          exact
            { slippage := by
                have below : 0 ≤ openPrice - openPrice * (1 - slip config) := by nlinarith
                exact mul_nonneg below (le_of_lt positive)
              sells := rfl
              known := mem_singleton_self code
              quantity := by
                rw [sold]
                exact ne_of_gt positive
              participation := fun limited traded => participating_le_volume limited traded }
      · intro other apart
        simp only [recordSell]
        split_ifs
        · rw [find_assign, if_neg apart.symm]
        · rw [find_remove, if_neg apart]

theorem foldl_sellPosition_exits (valid : config.Valid) (reason : TradeReason) (codes : List String)
    (distinct : codes.Nodup)
    (same : ∀ code ∈ codes, find code state.positions = find code before.positions) :
    Exits inputs config date before codes state (codes.foldl (sellPosition config date
      (inputs.nextOpens date) (inputs.nextVolumes date) reason) state) := by
  induction codes generalizing state with
  | nil => exact ⟨[], (append_nil _).symm, rfl, forall_mem_nil _⟩
  | cons code rest ih =>
    obtain ⟨first, distinct⟩ := nodup_cons.mp distinct
    have one : Exits inputs config date before [code] state
        (sellPosition config date (inputs.nextOpens date) (inputs.nextVolumes date) reason state code) ∧
          ∀ other, other ≠ code → find other (sellPosition config date (inputs.nextOpens date)
            (inputs.nextVolumes date) reason state code).positions = find other state.positions :=
      sellPosition_exits valid reason code (same code mem_cons_self)
    obtain ⟨⟨new, grown, value, exits⟩, others⟩ := one
    have unsold : ∀ other ∈ rest, find other (sellPosition config date (inputs.nextOpens date)
        (inputs.nextVolumes date) reason state code).positions = find other before.positions := by
      intro other member
      have apart : other ≠ code := by
        rintro rfl
        exact first member
      rw [others other apart]
      exact same other (mem_cons_of_mem _ member)
    obtain ⟨new', grown', value', exits'⟩ := ih distinct unsold
    refine ⟨new ++ new', ?_, ?_, ?_⟩
    · rw [foldl_cons, grown', grown, append_assoc]
    · rw [total_append, value, value', total_cons, total_nil, add_zero, total_cons]
    · intro trade member
      rcases mem_append.mp member with old | fresh
      · have exit := exits trade old
        exact { exit with known := mem_cons.mpr (Or.inl (mem_singleton.mp exit.known)) }
      · have exit := exits' trade fresh
        exact { exit with known := mem_cons_of_mem _ exit.known }

end Exits

section Rebalance

theorem generateSignals_nil : generateSignals [] config = [] := by
  simp [generateSignals]

/-- A rebalance is its exits and then its entries. -/
theorem doRebalance_eq (inputs : BacktestInputs ℚ) (config : ConvertibleDoubleLowConfig ℚ) (date : ℤ)
    (state : State ℚ) : doRebalance inputs config date state =
      ((signalsOn inputs config date).take (computeRankThreshold config .entry).toNat).foldl
        (enter inputs config date (safeCandidates inputs config date)
          (sizingEquity inputs config date state)) (exited inputs config date state) := by
  unfold doRebalance
  dsimp only
  by_cases unsafe_ : (safeCandidates inputs config date).isEmpty
  · have signals : signalsOn inputs config date = [] := by
      rw [signalsOn, isEmpty_iff.mp unsafe_, generateSignals_nil]
    rw [if_pos unsafe_, exited, exitReason, if_pos unsafe_, exitCodes, signals]
    simp [sellAll]
  rw [if_neg unsafe_]
  by_cases silent : (generateSignals (safeCandidates inputs config date) config).isEmpty
  · have signals : signalsOn inputs config date = [] := isEmpty_iff.mp silent
    rw [if_pos silent, exited, exitReason, if_neg unsafe_, exitCodes, signals]
    simp [sellAll]
  · rw [if_neg silent, enforceTurnoverLimit_eq]
    have reason : exitReason inputs config date = .rankExit := by
      rw [exitReason, if_neg unsafe_, signalsOn, if_neg silent]
    rw [sizingEquity, exited, reason]
    rfl

/-- A bond that passes the filters has a snapshot. -/
theorem snapOf_isSome_of_safe {snap : ConvertibleSnapshot ℚ}
    (safe : snap ∈ safeCandidates inputs config date) :
    (snapOf snap.code (inputs.snapshots date)).isSome := by
  have member := mem_of_mem_filter (mem_of_mem_filter safe)
  rw [snapOf, find?_isSome]
  exact ⟨snap, mem_reverse.mpr member, decide_eq_true rfl⟩

theorem rebalanceLimits_of_orderly (valid : config.Valid) (keys : (state.positions.map (·.1)).Nodup)
    (orderly : OrderlyRebalance inputs config date state) :
    RebalanceLimits inputs config date state (doRebalance inputs config date state) := by
  have sold : Exits inputs config date state (exitCodes inputs config date state) state
      (exited inputs config date state) :=
    foldl_sellPosition_exits valid _ _ (keys.filter _) fun _ _ => rfl
  have progress : Progress inputs config date (sizingEquity inputs config date state) state
      (entryPlans inputs config date state) (exited inputs config date state)
      (doRebalance inputs config date state) := by
    rw [doRebalance_eq]
    exact foldl_enter_progress valid (fun _ safe => snapOf_isSome_of_safe safe) _ _
  obtain ⟨sales, grown, sold, exits⟩ := sold
  obtain ⟨purchases, grown', bought, entries⟩ := progress.trades
  have trades : newTrades state (doRebalance inputs config date state) = sales ++ purchases := by
    rw [newTrades, grown', grown, append_assoc, drop_left]
  have cost : 0 ≤ total (·.slippageCost) (sales ++ purchases) := by
    apply total_nonneg
    intro trade member
    rcases mem_append.mp member with sale | purchase
    · exact (exits trade sale).slippage
    · exact (entries trade purchase).slippage
  have part : ∀ (trade : ConvertibleTrade ℚ), 0 < (inputs.nextVolumes date trade.code).getD 0 →
      trade.quantity ≤ config.maxParticipation * (inputs.nextVolumes date trade.code).getD 0 →
        ∃ volume, inputs.nextVolumes date trade.code = some volume ∧ volume ≠ 0 ∧
          trade.quantity ≤ config.maxParticipation * volume := by
    intro trade traded most
    cases known : inputs.nextVolumes date trade.code with
    | none =>
      rw [known] at traded
      exact absurd traded (lt_irrefl _)
    | some volume =>
      rw [known] at traded most
      exact ⟨volume, rfl, ne_of_gt traded, most⟩
  exact
    { turnover := by
        have planned := orderly.turnover
        rw [trades, total_append, sold]
        linarith
      participation := by
        intro limited trade member
        obtain ⟨exitVolumes, entryVolumes⟩ := orderly.volumes limited
        rw [trades] at member
        rcases mem_append.mp member with sale | purchase
        · have exit := exits trade sale
          have traded := exitVolumes trade.code exit.known exit.quantity
          exact part trade traded (exit.participation limited traded)
        · have entry := entries trade purchase
          obtain ⟨plan, ordered, code, -⟩ := entry.planned
          have traded := entryVolumes plan ordered
          rw [← code] at traded
          exact part trade traded (entry.participation limited traded)
      issuer := by
        intro trade member buys pos held
        rw [trades] at member ⊢
        rcases mem_append.mp member with sale | purchase
        · cases (exits trade sale).sells.symm.trans buys
        obtain ⟨plan, ordered, code, issuer⟩ := (entries trade purchase).planned
        rw [← code, held, Option.map_some, Option.some.injEq] at issuer
        have within := orderly.issuers plan ordered
        have worth := progress.worth plan.issuer
        have weight := le_of_lt valid.weights.2.2.1
        have scaled := mul_le_mul_of_nonneg_left progress.equity weight
        rw [issuer]
        exact (worth.trans (within.trans scaled)).trans (le_add_of_nonneg_right cost) }

def rebalanceStart (barIdx : ℕ) (date : ℤ) (state : State ℚ) : State ℚ :=
  { state with lastRebalance := barIdx, rebalanceDates := state.rebalanceDates ++ [date] }

/-- What holds of every rebalance of a run: of its day, the state it starts from and the one it leaves. -/
def EveryRebalance (inputs : BacktestInputs ℚ) (config : ConvertibleDoubleLowConfig ℚ)
    (P : ℤ → State ℚ → State ℚ → Prop) : Prop :=
  ∀ earlier date barIdx later, inputs.dates.zipIdx = earlier ++ (date, barIdx) :: later →
    isRebalance config barIdx (earlier.foldl (bar inputs config) (initialState config)) →
      P date (rebalanceStart barIdx date (earlier.foldl (bar inputs config) (initialState config)))
        (rebalanceBar inputs config barIdx date (earlier.foldl (bar inputs config) (initialState config)))

/-- Every rebalance of a run that is orderly is within its limits. -/
theorem rebalanceLimits_of_run (inputs : BacktestInputs ℚ) (config : ConvertibleDoubleLowConfig ℚ)
    (valid : config.Valid) : EveryRebalance inputs config fun date before after =>
      OrderlyRebalance inputs config date before → RebalanceLimits inputs config date before after := by
  intro earlier date barIdx later _ rebalances orderly
  have books : Books config (earlier.foldl (bar inputs config) (initialState config)) :=
    foldlRecOn _ _ .initial fun _ books entry _ => books.bar entry
  rw [rebalanceBar, if_pos rebalances]
  exact rebalanceLimits_of_orderly valid books.keys orderly

/-- The one bond of the first day is bought for a twentieth of the equity. -/
theorem rebalanceLimits_twoDays :
    RebalanceLimits (twoDays 111 []) defaultConfig 0 (rebalanceStart 0 0 (initialState defaultConfig))
      (rebalanceBar (twoDays 111 []) defaultConfig 0 0 (initialState defaultConfig)) :=
  rebalanceLimits_of_run (twoDays 111 []) defaultConfig defaultConfig_valid [] 0 0 [(1, 1)] rfl
    (by decide)
    { turnover := by decide +kernel
      volumes := fun _ => ⟨by decide +kernel, by decide +kernel⟩
      issuers := by decide +kernel }

def oneBondConfig : ConvertibleDoubleLowConfig ℚ :=
  { defaultConfig with topN := 1, maxWeightPerBond := 1, maxWeightPerIssuer := 1, maxParticipation := 1 }

/-- The turnover of a rebalance that buys one bond for all of the cash is not limited. -/
theorem rebalanceLimits_exceeded : oneBondConfig.Valid ∧ ¬EveryRebalance (twoDays 111 []) oneBondConfig
        (RebalanceLimits (twoDays 111 []) oneBondConfig) := by
  refine ⟨{ defaultConfig_valid with
    topN := by decide
    weights := by decide +kernel
    participation := by decide +kernel }, ?_⟩
  intro limits
  have first := limits [] 0 0 [(1, 1)] rfl (by decide)
  have traded : ¬total (tradeValue ((twoDays 111 []).snapshots 0)
      (rebalanceStart 0 0 (initialState oneBondConfig)))
        (newTrades (rebalanceStart 0 0 (initialState oneBondConfig))
          (rebalanceBar (twoDays 111 []) oneBondConfig 0 0 (initialState oneBondConfig))) ≤
      oneBondConfig.maxDailyTurnover * calcEquity ((twoDays 111 []).snapshots 0)
        (rebalanceStart 0 0 (initialState oneBondConfig)) := by decide +kernel
  exact traded first.turnover

end Rebalance

end FinDashboard.ConvertibleDoubleLow
