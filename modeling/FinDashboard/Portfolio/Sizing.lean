import FinDashboard.Portfolio.Constraints
import Mathlib.Algebra.Order.Ring.Star
import Mathlib.Data.Rat.Floor
import Mathlib.Data.Rat.Star

/-!
# Sizing in lots

The values of a target are rounded down to lots, and lots are taken off again until the cash pays for the
rest. What can be traded of the lots makes the plan: its costs are counted anew, from the shares that are
left after the limits on trading.
-/

namespace FinDashboard.Portfolio.Sizing

open List Ledger

open Ledger (find total)

structure AssetLotInfo where
  lotSize : ℕ := 100
  multiplier : ℚ := 1
  marginRate : Option ℚ := none
  commissionRate : Option ℚ := none
  commissionMin : Option ℚ := none
  stampTaxRate : Option ℚ := none
  slippageBps : ℚ := 0
  maxParticipation : Option ℚ := none
  availableVolume : Option ℕ := none
  tradable : Bool := true
  unavailableReason : Option String := none
  lotSize_pos : 0 < lotSize
  multiplier_pos : 0 < multiplier
  margin_bounds : ∀ rate ∈ marginRate, 0 < rate ∧ rate ≤ 1
  commissionRate_nonneg : ∀ rate ∈ commissionRate, 0 ≤ rate
  commissionMin_nonneg : ∀ minimum ∈ commissionMin, 0 ≤ minimum
  stampTaxRate_nonneg : ∀ rate ∈ stampTaxRate, 0 ≤ rate
  slippageBps_nonneg : 0 ≤ slippageBps
  participation_bounds : ∀ share ∈ maxParticipation, 0 < share ∧ share ≤ 1
  reason_given : tradable = false → ∃ reason ∈ unavailableReason, reason ≠ ""

/-- Lots of one share, without rates and limits. -/
def AssetLotInfo.single : AssetLotInfo where
  lotSize := 1
  lotSize_pos := Nat.one_pos
  multiplier_pos := one_pos
  margin_bounds := by simp
  commissionRate_nonneg := by simp
  commissionMin_nonneg := by simp
  stampTaxRate_nonneg := by simp
  slippageBps_nonneg := le_refl 0
  participation_bounds := by simp
  reason_given := by simp

/-- The fees of a sizing, for assets without fees of their own. -/
structure FallbackFees where
  commissionRate : ℚ := 3 / 10000
  commissionMin : ℚ := 5
  stampTaxRate : ℚ := 5 / 10000

/-- `_unit_value`: what a lot is worth. -/
def unitValue (price : ℚ) (info : AssetLotInfo) : ℚ := price * info.lotSize * info.multiplier

/-- `_unit_cash_requirement`: the principal or the margin of a lot. -/
def unitCashRequirement (price : ℚ) (info : AssetLotInfo) : ℚ :=
  unitValue price info * info.marginRate.getD 1

def feeRate (info : AssetLotInfo) (fallback : ℚ) : ℚ := info.commissionRate.getD fallback

def feeMinimum (info : AssetLotInfo) (fallback : ℚ) : ℚ := info.commissionMin.getD fallback

/-- The principal or margin of some lots, with their commission and slippage. -/
def lotsCost (fees : FallbackFees) (price : ℚ) (info : AssetLotInfo) (units : ℕ) : ℚ :=
  if units = 0 then 0
  else units * unitCashRequirement price info +
    max (units * unitValue price info * feeRate info fees.commissionRate)
      (feeMinimum info fees.commissionMin) +
    units * unitValue price info * info.slippageBps / 10000

/-- A target value, with the price and the lot of its code. -/
structure LotTarget where
  code : String
  targetValue : ℚ
  info : AssetLotInfo
  price : ℚ

/-- A dictionary of target values. -/
structure TargetValues where
  entries : List LotTarget
  nodup : (entries.map (·.code)).Nodup

/-- A lot is worth something and takes some cash. -/
def LotTarget.sized (target : LotTarget) : Bool :=
  decide (0 < unitValue target.price target.info) &&
    decide (0 < unitCashRequirement target.price target.info)

/-- An item of the solver: a target and its number of lots. -/
structure LotItem where
  target : LotTarget
  units : ℕ

def LotItem.cost (fees : FallbackFees) (item : LotItem) : ℚ :=
  lotsCost fees item.target.price item.target.info item.units

/-- The items start at the target value, rounded down to lots; a lot that is worth nothing is no item. -/
def lotItems (targets : List LotTarget) : List LotItem :=
  (targets.filter LotTarget.sized).map fun target =>
    { target, units := ⌊target.targetValue / unitValue target.price target.info⌋.toNat }

/-- How far an item stays below its target. -/
def LotItem.deviation (item : LotItem) : ℚ :=
  item.target.targetValue - item.units * unitCashRequirement item.target.price item.target.info

def sortItems (items : List LotItem) : List LotItem :=
  items.insertionSort fun item other => other.deviation ≤ item.deviation

/-- What a pass over the items leaves. -/
structure Sweep where
  items : List LotItem
  remaining : ℚ
  reduced : Bool

/-- A pass takes one lot off each item, until the cash suffices. -/
def sweep (fees : FallbackFees) : List LotItem → ℚ → Sweep
  | [], remaining => { items := [], remaining, reduced := false }
  | item :: rest, remaining =>
      if item.units = 0 then
        let later := sweep fees rest remaining
        { later with items := item :: later.items }
      else
        let fewer := { item with units := item.units - 1 }
        let left := remaining + (item.cost fees - fewer.cost fees)
        if 0 ≤ left then { items := fewer :: rest, remaining := left, reduced := true }
        else
          let later := sweep fees rest left
          { items := fewer :: later.items, remaining := later.remaining, reduced := true }

/-- The number of lots of all items. -/
def lotCount (items : List LotItem) : ℕ := total (·.units) items

/-- A pass that takes a lot off leaves fewer lots. -/
theorem lotCount_sweep (fees : FallbackFees) (items : List LotItem) (remaining : ℚ) :
    lotCount (sweep fees items remaining).items ≤ lotCount items ∧
      ((sweep fees items remaining).reduced = true →
        lotCount (sweep fees items remaining).items < lotCount items) := by
  induction items generalizing remaining with
  | nil => exact ⟨le_refl _, by simp [sweep]⟩
  | cons item rest ih =>
    simp only [lotCount, total_cons] at ih ⊢
    unfold sweep
    by_cases none : item.units = 0
    · have later := ih remaining
      simp only [if_pos none, total_cons]
      exact ⟨by omega, fun reduced => by have := later.2 reduced; omega⟩
    · simp only [if_neg none]
      generalize remaining + (item.cost fees - _) = left
      have later := (ih left).1
      by_cases enough : 0 ≤ left
      · simp only [if_pos enough, total_cons]
        omega
      · simp only [if_neg enough, total_cons]
        omega

/-- Passes follow each other as long as cash is missing and a pass takes a lot off. -/
def reduceLots (fees : FallbackFees) (items : List LotItem) (remaining : ℚ) : List LotItem :=
  if remaining < 0 then
    if (sweep fees items remaining).reduced = true then
      reduceLots fees (sweep fees items remaining).items (sweep fees items remaining).remaining
    else (sweep fees items remaining).items
  else items
termination_by lotCount items
decreasing_by exact (lotCount_sweep fees items remaining).2 ‹_›

def reducedItems (fees : FallbackFees) (targets : TargetValues) (availableCash : ℚ) : List LotItem :=
  let items := lotItems targets.entries
  reduceLots fees (sortItems items) (availableCash - total (·.cost fees) items)

def solveDiscreteLots (fees : FallbackFees) (targets : TargetValues) (availableCash : ℚ) :
    List (String × ℕ) :=
  let lots := (reducedItems fees targets availableCash).map fun item => (item.target.code, item.units)
  targets.entries.map fun target => (target.code, (find target.code lots).getD 0)

def lotsOf (lots : List (String × ℕ)) (code : String) : ℕ := (find code lots).getD 0

/-- The same targets, none with more lots. -/
def Fewer (items fewer : List LotItem) : Prop :=
  List.Forall₂ (fun item other => other.target = item.target ∧ other.units ≤ item.units) items fewer

theorem Fewer.refl (items : List LotItem) : Fewer items items :=
  forall₂_same.mpr fun _ _ => ⟨rfl, le_refl _⟩

theorem Fewer.trans {items fewer fewest : List LotItem} (first : Fewer items fewer)
    (second : Fewer fewer fewest) : Fewer items fewest := by
  induction first generalizing fewest with
  | nil => exact second
  | cons head _ ih =>
    cases second with
    | cons next later => exact List.Forall₂.cons ⟨next.1.trans head.1, next.2.trans head.2⟩ (ih later)

theorem Fewer.targets {items fewer : List LotItem} (fewest : Fewer items fewer) :
    fewer.map (·.target) = items.map (·.target) := by
  induction fewest with
  | nil => rfl
  | cons head _ ih => rw [map_cons, map_cons, head.1, ih]

variable {fees : FallbackFees} {item : LotItem}

theorem cost_eq_zero (none : item.units = 0) : item.cost fees = 0 := if_pos none

theorem sweep_fewer (items : List LotItem) (remaining : ℚ) :
    Fewer items (sweep fees items remaining).items := by
  induction items generalizing remaining with
  | nil => exact List.Forall₂.nil
  | cons item rest ih =>
    unfold sweep
    by_cases none : item.units = 0
    · simp only [if_pos none]
      exact List.Forall₂.cons ⟨rfl, le_refl _⟩ (ih remaining)
    · simp only [if_neg none]
      split
      · exact List.Forall₂.cons ⟨rfl, Nat.sub_le _ _⟩ (Fewer.refl rest)
      · exact List.Forall₂.cons ⟨rfl, Nat.sub_le _ _⟩ (ih _)

/-- What a pass takes off the items it adds to the cash. -/
theorem sweep_remaining (items : List LotItem) (remaining : ℚ) :
    (sweep fees items remaining).remaining + total (·.cost fees) (sweep fees items remaining).items =
      remaining + total (·.cost fees) items := by
  induction items generalizing remaining with
  | nil => rfl
  | cons item rest ih =>
    unfold sweep
    by_cases none : item.units = 0
    · have later := ih remaining
      simp only [if_pos none, total_cons]
      linarith
    · simp only [if_neg none]
      split
      · simp only [total_cons]
        ring
      · have later := ih (remaining + (item.cost fees -
          LotItem.cost fees { item with units := item.units - 1 }))
        simp only [total_cons]
        linarith

theorem sweep_exhausted (items : List LotItem) (remaining : ℚ)
    (stuck : ¬(sweep fees items remaining).reduced = true) :
    total (·.cost fees) (sweep fees items remaining).items = 0 := by
  induction items generalizing remaining with
  | nil => rfl
  | cons item rest ih =>
    unfold sweep at stuck ⊢
    by_cases none : item.units = 0
    · simp only [if_pos none] at stuck
      simp only [if_pos none, total_cons, cost_eq_zero none, ih remaining stuck, add_zero]
    · simp only [if_neg none] at stuck
      split at stuck
      · exact absurd rfl stuck
      · exact absurd rfl stuck

theorem reduceLots_fewer (items : List LotItem) (remaining : ℚ) :
    Fewer items (reduceLots fees items remaining) := by
  induction items, remaining using reduceLots.induct fees with
  | case1 items remaining short reduced ih =>
    rw [reduceLots, if_pos short, if_pos reduced]
    exact (sweep_fewer items remaining).trans ih
  | case2 items remaining short stuck =>
    rw [reduceLots, if_pos short, if_neg stuck]
    exact sweep_fewer items remaining
  | case3 items remaining enough =>
    rw [reduceLots, if_neg enough]
    exact Fewer.refl items

theorem reduceLots_affordable (fees : FallbackFees) (items : List LotItem) (remaining : ℚ)
    (cash : 0 ≤ remaining + total (·.cost fees) items) :
    total (·.cost fees) (reduceLots fees items remaining) ≤ remaining + total (·.cost fees) items := by
  induction items, remaining using reduceLots.induct fees with
  | case1 items remaining short reduced ih =>
    rw [reduceLots, if_pos short, if_pos reduced, ← sweep_remaining items remaining]
    rw [← sweep_remaining items remaining] at cash
    exact ih cash
  | case2 items remaining short stuck =>
    rw [reduceLots, if_pos short, if_neg stuck, sweep_exhausted items remaining stuck]
    exact cash
  | case3 items remaining enough =>
    rw [reduceLots, if_neg enough]
    linarith

theorem Fewer.exists_of_mem {items fewer : List LotItem} (fewest : Fewer items fewer) {other : LotItem}
    (member : other ∈ fewer) : ∃ item ∈ items, other.target = item.target ∧ other.units ≤ item.units := by
  induction fewest with
  | nil => cases member
  | cons head _ ih =>
    rcases mem_cons.mp member with rfl | later
    · exact ⟨_, mem_cons_self, head⟩
    · obtain ⟨item, listed, same⟩ := ih later
      exact ⟨item, mem_cons_of_mem _ listed, same⟩

section Solved

variable {targets : TargetValues} {availableCash : ℚ}

theorem targets_reducedItems (fees : FallbackFees) (targets : TargetValues) (availableCash : ℚ) :
    ((reducedItems fees targets availableCash).map (·.target)).Perm
      (targets.entries.filter LotTarget.sized) := by
  have same : (lotItems targets.entries).map (·.target) = targets.entries.filter LotTarget.sized := by
    unfold lotItems
    rw [map_map]
    exact map_id _
  rw [reducedItems, (reduceLots_fewer _ _).targets, ← same]
  exact (perm_insertionSort _ _).map _

theorem units_reducedItems (member : item ∈ reducedItems fees targets availableCash) :
    item.units ≤ ⌊item.target.targetValue / unitValue item.target.price item.target.info⌋.toNat := by
  obtain ⟨first, listed, same, fewer⟩ := (reduceLots_fewer _ _).exists_of_mem member
  have original := (perm_insertionSort _ _).mem_iff.mp listed
  obtain ⟨target, -, rfl⟩ := mem_map.mp original
  rw [same]
  exact fewer

theorem find_reducedItems (member : item ∈ reducedItems fees targets availableCash) :
    find item.target.code ((reducedItems fees targets availableCash).map fun item =>
      (item.target.code, item.units)) = some item.units := by
  have codes : (reducedItems fees targets availableCash).map (·.target.code) =
      ((reducedItems fees targets availableCash).map (·.target)).map (·.code) := by
    rw [map_map]
    rfl
  have perm := (targets_reducedItems fees targets availableCash).map (·.code)
  have kept := targets.nodup.sublist ((filter_sublist (p := LotTarget.sized)).map (·.code))
  have nodup : ((reducedItems fees targets availableCash).map (·.target.code)).Nodup := by
    rw [codes]
    exact perm.nodup_iff.mpr kept
  change find (item.target.code, item.units).1 _ = some (item.target.code, item.units).2
  apply find_of_mem
  · rw [map_map]
    exact nodup
  · exact mem_map_of_mem member

theorem find_solveDiscreteLots {target : LotTarget} (member : target ∈ targets.entries) :
    find target.code (solveDiscreteLots fees targets availableCash) =
      some ((find target.code ((reducedItems fees targets availableCash).map fun item =>
        (item.target.code, item.units))).getD 0) := by
  have codes : ((solveDiscreteLots fees targets availableCash).map Prod.fst).Nodup := by
    rw [solveDiscreteLots, map_map]
    exact targets.nodup
  exact find_of_mem codes (mem_map_of_mem member)

theorem lotsOf_le (fees : FallbackFees) (availableCash : ℚ) {target : LotTarget} (member : target ∈ targets.entries) :
    lotsOf (solveDiscreteLots fees targets availableCash) target.code ≤
      ⌊target.targetValue / unitValue target.price target.info⌋.toNat := by
  rw [lotsOf, find_solveDiscreteLots member, Option.getD_some]
  cases found : find target.code ((reducedItems fees targets availableCash).map fun item =>
      (item.target.code, item.units)) with
  | none => exact Nat.zero_le _
  | some units =>
    obtain ⟨item, listed, same⟩ := mem_map.mp (mem_of_find found)
    obtain ⟨code, rfl⟩ := Prod.mk.inj same
    have given : item.target ∈ targets.entries := by
      have kept := (targets_reducedItems fees targets availableCash).mem_iff.mp
        (mem_map_of_mem listed)
      exact mem_of_mem_filter kept
    have whole := inj_on_of_nodup_map targets.nodup given member code
    rw [← whole]
    exact units_reducedItems listed

theorem total_solveDiscreteLots (fees : FallbackFees) (targets : TargetValues) (availableCash : ℚ) :
    total (fun target => lotsCost fees target.price target.info
        (lotsOf (solveDiscreteLots fees targets availableCash) target.code)) targets.entries =
      total (·.cost fees) (reducedItems fees targets availableCash) := by
  have unsized : ∀ target ∈ targets.entries, LotTarget.sized target = false →
      lotsCost fees target.price target.info
        (lotsOf (solveDiscreteLots fees targets availableCash) target.code) = 0 := by
    intro target member unsized
    have unlisted : find target.code ((reducedItems fees targets availableCash).map fun item =>
        (item.target.code, item.units)) = none := by
      cases found : find target.code ((reducedItems fees targets availableCash).map fun item =>
          (item.target.code, item.units)) with
      | none => rfl
      | some units =>
        obtain ⟨item, listed, same⟩ := mem_map.mp (mem_of_find found)
        obtain ⟨given, sized⟩ := mem_filter.mp
          ((targets_reducedItems fees targets availableCash).mem_iff.mp (mem_map_of_mem listed))
        have whole := inj_on_of_nodup_map targets.nodup given member (Prod.mk.inj same).1
        rw [whole, unsized] at sized
        cases sized
    rw [lotsOf, find_solveDiscreteLots member, unlisted]
    rfl
  have own : ∀ item ∈ reducedItems fees targets availableCash,
      lotsCost fees item.target.price item.target.info
        (lotsOf (solveDiscreteLots fees targets availableCash) item.target.code) = item.cost fees := by
    intro item listed
    have given := mem_of_mem_filter
      ((targets_reducedItems fees targets availableCash).mem_iff.mp (mem_map_of_mem listed))
    rw [lotsOf, find_solveDiscreteLots given, find_reducedItems listed]
    rfl
  rw [← total_filter_weightless unsized, ← total_perm (targets_reducedItems fees targets availableCash)]
  unfold total
  rw [map_map]
  exact congrArg sum (map_congr_left own)

theorem total_lotsOf_le (fees : FallbackFees) (targets : TargetValues) (cash : 0 ≤ availableCash) :
    total (fun target => lotsCost fees target.price target.info
      (lotsOf (solveDiscreteLots fees targets availableCash) target.code)) targets.entries ≤
        availableCash := by
  have sorted : total (·.cost fees) (sortItems (lotItems targets.entries)) =
      total (·.cost fees) (lotItems targets.entries) :=
    total_perm (perm_insertionSort _ _)
  have start : availableCash - total (·.cost fees) (lotItems targets.entries) +
      total (·.cost fees) (sortItems (lotItems targets.entries)) = availableCash := by
    rw [sorted, sub_add_cancel]
  have paid := reduceLots_affordable fees (sortItems (lotItems targets.entries))
    (availableCash - total (·.cost fees) (lotItems targets.entries)) (by rw [start]; exact cash)
  rw [total_solveDiscreteLots]
  rw [start] at paid
  exact paid

theorem lotsOf_of_affordable (affordable : total (·.cost fees) (lotItems targets.entries) ≤ availableCash)
    (target : LotTarget) (member : target ∈ targets.entries) (sized : target.sized = true) :
    lotsOf (solveDiscreteLots fees targets availableCash) target.code =
      ⌊target.targetValue / unitValue target.price target.info⌋.toNat := by
  have kept : reducedItems fees targets availableCash = sortItems (lotItems targets.entries) := by
    rw [reducedItems, reduceLots, if_neg (by linarith)]
  have listed : LotItem.mk target ⌊target.targetValue / unitValue target.price target.info⌋.toNat ∈
      reducedItems fees targets availableCash := by
    rw [kept]
    apply (perm_insertionSort _ _).mem_iff.mpr
    exact mem_map_of_mem (mem_filter.mpr ⟨member, sized⟩)
  rw [lotsOf, find_solveDiscreteLots member, find_reducedItems listed]
  rfl

/-- The solver gives every target a number of lots between nothing and its value in lots, and the lots
cost no more than the available cash. -/
theorem discrete_lots_affordable (fees : FallbackFees) (targets : TargetValues) {availableCash : ℚ}
    (cash : 0 ≤ availableCash) : (∀ target ∈ targets.entries, ∃ lots,
      find target.code (solveDiscreteLots fees targets availableCash) = some lots ∧
        lots ≤ ⌊target.targetValue / unitValue target.price target.info⌋.toNat) ∧
    total (fun target => lotsCost fees target.price target.info
      (lotsOf (solveDiscreteLots fees targets availableCash) target.code)) targets.entries ≤
        availableCash := by
  constructor
  · intro target member
    have within := lotsOf_le fees availableCash member
    rw [lotsOf, find_solveDiscreteLots member, Option.getD_some] at within
    exact ⟨_, find_solveDiscreteLots member, within⟩
  · exact total_lotsOf_le fees targets cash

def threeShares : TargetValues where
  entries := [{ code := "A", targetValue := 100, info := .single, price := 30 }]
  nodup := by decide

theorem discrete_lots_affordable_three_shares : (∀ target ∈ threeShares.entries, ∃ lots,
      find target.code (solveDiscreteLots {} threeShares 50) = some lots ∧
        lots ≤ ⌊target.targetValue / unitValue target.price target.info⌋.toNat) ∧
    total (fun target => lotsCost {} target.price target.info
      (lotsOf (solveDiscreteLots {} threeShares 50) target.code)) threeShares.entries ≤ 50 :=
  discrete_lots_affordable {} threeShares (by decide +kernel)

end Solved

def requiredCodes (target : TargetWeight ℚ) (currentPositions : List (String × ℕ)) : List String :=
  (target.weights.entries.map Prod.fst ++ currentPositions.map Prod.fst).dedup

/-- `SizingInput`; of a position the number of shares is read. -/
structure SizingInput where
  target : TargetWeight ℚ
  capital : ℚ
  lotInfo : List (String × AssetLotInfo)
  prices : List (String × ℚ)
  currentPositions : List (String × ℕ)
  fees : FallbackFees
  capital_pos : 0 < capital
  weights_nonneg : ∀ entry ∈ target.weights.entries, 0 ≤ entry.2
  priced : ∀ code ∈ requiredCodes target currentPositions, ∃ price ∈ find code prices, 0 < price
  informed : ∀ code ∈ requiredCodes target currentPositions, find code lotInfo ≠ none

namespace SizingInput

def priceOf (input : SizingInput) (code : String) : ℚ := (find code input.prices).getD 0

/-- A code without an entry has lots of one share. -/
def infoOf (input : SizingInput) (code : String) : AssetLotInfo := (find code input.lotInfo).getD .single

def targetValues (input : SizingInput) : TargetValues where
  entries := (input.target.weights.entries.filter fun entry => 0 < entry.2).map fun entry =>
    { code := entry.1
      targetValue := entry.2 * input.capital
      info := input.infoOf entry.1
      price := input.priceOf entry.1 }
  nodup := by
    rw [map_map]
    exact input.target.weights.nodup.sublist (filter_sublist.map Prod.fst)

end SizingInput

structure RebalanceTrade where
  symbol : String
  deltaShares : ℤ
  targetShares : ℤ
  currentShares : ℤ
  targetValue : ℚ
  currentValue : ℚ
  deltaValue : ℚ
  requestedTargetShares : ℤ
  unfilledShares : ℤ
  rejectReason : Option String
  estimatedSlippage : ℚ
  marginRequired : ℚ

/-- What `RebalanceTrade.__post_init__` asks for. -/
def RebalanceTrade.Sound (trade : RebalanceTrade) : Prop :=
  0 ≤ trade.targetShares ∧ 0 ≤ trade.currentShares ∧ 0 ≤ trade.unfilledShares ∧
    0 ≤ trade.estimatedSlippage ∧ 0 ≤ trade.marginRequired

instance (trade : RebalanceTrade) : Decidable trade.Sound :=
  inferInstanceAs (Decidable (_ ∧ _ ∧ _ ∧ _ ∧ _))

/-- The shares that trading allows to hold, with the reason where they are not the requested ones. -/
def executedShares (info : AssetLotInfo) (current requested : ℤ) : ℤ × Option String :=
  if info.tradable = false then
    (current, some (info.unavailableReason.getD "标的不可交易"))
  else
    match info.maxParticipation, info.availableVolume with
    | some share, some volume =>
        let maxDelta : ℤ := ⌊volume * share / info.lotSize⌋ * info.lotSize
        if maxDelta < |requested - current| then
          (max 0 (current + if 0 < requested - current then maxDelta else -maxDelta),
            some "成交量参与率限制导致部分可成交")
        else (requested, none)
    | _, _ => (requested, none)

/-- A trade with what it adds to the totals of the plan. -/
structure SizedTrade where
  trade : RebalanceTrade
  required : ℚ
  commission : ℚ
  tax : ℚ

/-- The body of the loop over the codes; `minWeightToTrade` is given with the constraints. -/
def sizeCode (input : SizingInput) (minWeightToTrade : Option ℚ) (lots : List (String × ℕ))
    (code : String) : SizedTrade :=
  let info := input.infoOf code
  let price := input.priceOf code
  let requested : ℤ := lotsOf lots code * info.lotSize
  let current : ℤ := (find code input.currentPositions).getD 0
  let executed := executedShares info current requested
  let skipped := minWeightToTrade.any fun minimum =>
    decide (|((executed.1 - current : ℤ) : ℚ) * price * info.multiplier| / input.capital < minimum)
  let targetShares := if skipped then current else executed.1
  let deltaShares := targetShares - current
  let targetValue := targetShares * price * info.multiplier
  let deltaValue := deltaShares * price * info.multiplier
  let marginRequired := info.marginRate.elim 0 fun rate => targetValue * rate
  let tradeValue := |deltaValue|
  { trade := {
      symbol := code
      deltaShares
      targetShares
      currentShares := current
      targetValue
      currentValue := current * price * info.multiplier
      deltaValue
      requestedTargetShares := requested
      unfilledShares := |requested - targetShares|
      rejectReason := if skipped then some "低于最小交易权重" else executed.2
      estimatedSlippage := tradeValue * info.slippageBps / 10000
      marginRequired }
    required := if info.marginRate.isSome then marginRequired else targetValue
    commission := if 0 < tradeValue then
        max (tradeValue * feeRate info input.fees.commissionRate)
          (feeMinimum info input.fees.commissionMin)
      else 0
    tax := if 0 < tradeValue ∧ deltaShares < 0 then
        tradeValue * info.stampTaxRate.getD input.fees.stampTaxRate
      else 0 }

/-- The field a plan is refused for. -/
inductive PlanField
  | totalCapital
  | cashAfter
  | totalTurnover
  | estCommission
  | estTax
  | slippageOrMargin
deriving DecidableEq, Repr

inductive SizingFailure
  /-- `SizingError`: the cash does not cover fees and margin. -/
  | cashShortage (cashAfter : ℚ)
  | trade (symbol : String)
  | plan (field : PlanField)
deriving DecidableEq, Repr

structure RebalancePlan where
  trades : List RebalanceTrade
  totalCapital : ℚ
  cashBefore : ℚ
  cashAfter : ℚ
  estCommission : ℚ
  estTax : ℚ
  totalTurnover : ℚ
  estSlippage : ℚ
  marginRequired : ℚ
  origin : TargetOrigin

/-- `RebalancePlan.__post_init__`. -/
def RebalancePlan.refused (plan : RebalancePlan) : Option PlanField :=
  if plan.totalCapital ≤ 0 then some .totalCapital
  else if plan.cashAfter < -maxWeightEpsilon then some .cashAfter
  else if plan.totalTurnover < 0 then some .totalTurnover
  else if plan.estCommission < 0 then some .estCommission
  else if plan.estTax < 0 then some .estTax
  else if plan.estSlippage < 0 ∨ plan.marginRequired < 0 then some .slippageOrMargin
  else none

/-- What the positions bind, by principal or by margin. -/
def SizingInput.currentCashRequirement (input : SizingInput) : ℚ :=
  total (fun position =>
    position.2 * input.priceOf position.1 * (input.infoOf position.1).multiplier *
      (input.infoOf position.1).marginRate.getD 1) input.currentPositions

/-- The codes of the target and of the positions, in their order. -/
def sizedTrades (input : SizingInput) (minWeightToTrade : Option ℚ) : List SizedTrade :=
  let lots := solveDiscreteLots input.fees input.targetValues input.capital
  ((requiredCodes input.target input.currentPositions).insertionSort (· ≤ ·)).map
    (sizeCode input minWeightToTrade lots)

def SizedTrade.cost (sized : SizedTrade) : ℚ :=
  sized.required + sized.commission + sized.tax + sized.trade.estimatedSlippage

def rebalancePlan (input : SizingInput) (sized : List SizedTrade) : RebalancePlan where
  trades := sized.map (·.trade)
  totalCapital := input.capital
  cashBefore := input.capital - input.currentCashRequirement
  cashAfter := input.capital - total (·.required) sized - total (·.commission) sized -
    total (·.tax) sized - total (·.trade.estimatedSlippage) sized
  estCommission := total (·.commission) sized
  estTax := total (·.tax) sized
  totalTurnover := total (fun item => |item.trade.deltaValue|) sized
  estSlippage := total (·.trade.estimatedSlippage) sized
  marginRequired := total (·.trade.marginRequired) sized
  origin := input.target.origin

def solveSizing (input : SizingInput) (minWeightToTrade : Option ℚ) :
    Except SizingFailure RebalancePlan :=
  let sized := sizedTrades input minWeightToTrade
  match sized.find? fun item => ¬item.trade.Sound with
  | some item => .error (.trade item.trade.symbol)
  | none =>
      let plan := rebalancePlan input sized
      if plan.cashAfter < -(1 / 10 ^ 6) then .error (.cashShortage plan.cashAfter)
      else
        match plan.refused with
        | some field => .error (.plan field)
        | none => .ok plan

/-- The fees of an asset without fees of its own never fall below nothing. -/
def FallbackFees.Charging (fees : FallbackFees) : Prop := 0 ≤ fees.commissionRate ∨ 0 ≤ fees.commissionMin

variable {price : ℚ}

theorem unitValue_pos (priced : 0 < price) (info : AssetLotInfo) : 0 < unitValue price info :=
  mul_pos (mul_pos priced (Nat.cast_pos.mpr info.lotSize_pos)) info.multiplier_pos

theorem unitCashRequirement_pos (priced : 0 < price) (info : AssetLotInfo) :
    0 < unitCashRequirement price info := by
  apply mul_pos (unitValue_pos priced info)
  cases margin : info.marginRate with
  | none => exact one_pos
  | some rate => exact (info.margin_bounds rate margin).1

theorem charging_asset (charging : fees.Charging) (info : AssetLotInfo) :
    0 ≤ feeRate info fees.commissionRate ∨ 0 ≤ feeMinimum info fees.commissionMin := by
  unfold feeRate feeMinimum
  cases rate : info.commissionRate with
  | some own => exact Or.inl (info.commissionRate_nonneg own rate)
  | none =>
    cases minimum : info.commissionMin with
    | some own => exact Or.inr (info.commissionMin_nonneg own minimum)
    | none => exact charging

theorem commission_mono {rate minimum value more : ℚ} (charging : 0 ≤ rate ∨ 0 ≤ minimum)
    (nonneg : 0 ≤ value) (le : value ≤ more) :
    0 ≤ max (value * rate) minimum ∧ max (value * rate) minimum ≤ max (more * rate) minimum := by
  rcases lt_or_ge rate 0 with negative | positive
  · have floor := charging.resolve_left (not_le.mpr negative)
    have least := (mul_nonpos_of_nonneg_of_nonpos nonneg negative.le).trans floor
    rw [max_eq_right least]
    exact ⟨floor, le_max_right _ _⟩
  · have grows := mul_le_mul_of_nonneg_right le positive
    exact ⟨le_max_of_le_left (mul_nonneg nonneg positive), max_le_max_right _ grows⟩

theorem lotsCost_mono (charging : fees.Charging) (priced : 0 < price) (info : AssetLotInfo)
    {units more : ℕ} (le : units ≤ more) :
    lotsCost fees price info units ≤ lotsCost fees price info more := by
  have unit := unitValue_pos priced info
  have cash := unitCashRequirement_pos priced info
  have charges := charging_asset charging info
  have slippage := info.slippageBps_nonneg
  have grown : (units : ℚ) ≤ more := Nat.cast_le.mpr le
  have value : (units : ℚ) * unitValue price info ≤ more * unitValue price info :=
    mul_le_mul_of_nonneg_right grown unit.le
  have nonneg : 0 ≤ (units : ℚ) * unitValue price info := mul_nonneg (Nat.cast_nonneg _) unit.le
  have commission := commission_mono charges nonneg value
  have principal : (units : ℚ) * unitCashRequirement price info ≤
      more * unitCashRequirement price info := mul_le_mul_of_nonneg_right grown cash.le
  have slipped : units * unitValue price info * info.slippageBps / 10000 ≤
      more * unitValue price info * info.slippageBps / 10000 := by
    have scaled := mul_le_mul_of_nonneg_right value slippage
    linarith
  unfold lotsCost
  by_cases none : units = 0
  · rw [if_pos none]
    split
    · exact le_refl _
    · subst none
      simp only [Nat.cast_zero, zero_mul, zero_div] at commission principal slipped
      linarith [commission.1, commission.2]
  · rw [if_neg none, if_neg (by omega : more ≠ 0)]
    linarith [commission.2]

/-- Trading allows no more lots than requested. -/
theorem executedShares_le (info : AssetLotInfo) (lots : ℕ) :
    ∃ units ≤ lots, (executedShares info 0 (lots * info.lotSize)).1 = units * info.lotSize := by
  have size : (0 : ℤ) < info.lotSize := Nat.cast_pos.mpr info.lotSize_pos
  unfold executedShares
  split
  · exact ⟨0, Nat.zero_le _, by simp⟩
  · split
    · rename_i share volume within _
      have bounds := info.participation_bounds share within
      have whole : 0 ≤ ⌊volume * share / info.lotSize⌋ :=
        Int.floor_nonneg.mpr (div_nonneg (mul_nonneg (Nat.cast_nonneg _) bounds.1.le) (Nat.cast_nonneg _))
      obtain ⟨units, same⟩ := Int.eq_ofNat_of_zero_le whole
      simp only [same, sub_zero, abs_of_nonneg (mul_nonneg (Nat.cast_nonneg lots) size.le)]
      by_cases above : (units : ℤ) * info.lotSize < lots * info.lotSize
      · have fewer := lt_of_mul_lt_mul_right above size.le
        have buys := lt_of_le_of_lt (by positivity) above
        refine ⟨units, by omega, ?_⟩
        rw [if_pos above, if_pos buys, zero_add]
        exact max_eq_right (by positivity)
      · exact ⟨lots, le_refl _, by rw [if_neg above]⟩
    · exact ⟨lots, le_refl _, rfl⟩

theorem lotsCost_shares (priced : 0 < price) (info : AssetLotInfo) (units : ℕ) :
    let value : ℚ := ((units * info.lotSize : ℤ) : ℚ) * price * info.multiplier
    lotsCost fees price info units =
      (if info.marginRate.isSome then info.marginRate.elim 0 fun rate => value * rate else value) +
        (if 0 < |value| then
          max (|value| * feeRate info fees.commissionRate) (feeMinimum info fees.commissionMin) else 0) +
        |value| * info.slippageBps / 10000 := by
  have unit := unitValue_pos priced info
  have whole : ((units * info.lotSize : ℤ) : ℚ) * price * info.multiplier =
      units * unitValue price info := by
    unfold unitValue
    push_cast
    ring
  simp only [whole, abs_of_nonneg (mul_nonneg (Nat.cast_nonneg units) unit.le)]
  have bound : (if info.marginRate.isSome then
      info.marginRate.elim 0 fun rate => units * unitValue price info * rate
      else units * unitValue price info) = units * unitCashRequirement price info := by
    unfold unitCashRequirement
    cases info.marginRate with
    | none => simp
    | some rate => simp [mul_assoc]
  rw [bound, lotsCost]
  by_cases none : units = 0
  · subst none
    simp
  · have traded := mul_pos (Nat.cast_pos.mpr (Nat.pos_of_ne_zero none)) unit
    rw [if_neg none, if_pos traded]

variable {input : SizingInput}

theorem heldShares (nothing : input.currentPositions = []) (code : String) :
    (((find code input.currentPositions).getD 0 : ℕ) : ℤ) = 0 := by
  rw [nothing]
  rfl

variable {code : String} {minWeightToTrade : Option ℚ} {lots : List (String × ℕ)}

theorem cost_of_shares (units : ℕ) (nothing : input.currentPositions = [])
    (priced : 0 < input.priceOf code)
    (shares : (sizeCode input minWeightToTrade lots code).trade.targetShares =
      units * (input.infoOf code).lotSize) : (sizeCode input minWeightToTrade lots code).cost =
      lotsCost input.fees (input.priceOf code) (input.infoOf code) units := by
  have bought : ¬(units * (input.infoOf code).lotSize : ℤ) < 0 := not_lt.mpr (by positivity)
  simp only [sizeCode, heldShares nothing, sub_zero] at shares
  rw [lotsCost_shares priced]
  simp only [SizedTrade.cost, sizeCode, heldShares nothing, sub_zero, shares, bought, and_false, if_false,
    add_zero]

theorem shares_sizeCode (minWeightToTrade : Option ℚ) (lots : List (String × ℕ))
    (code : String) (nothing : input.currentPositions = []) :
    ∃ units ≤ lotsOf lots code, (sizeCode input minWeightToTrade lots code).trade.targetShares =
      units * (input.infoOf code).lotSize := by
  obtain ⟨units, le, executed⟩ := executedShares_le (input.infoOf code) (lotsOf lots code)
  simp only [sizeCode, heldShares nothing, executed]
  split
  · exact ⟨0, Nat.zero_le _, by simp⟩
  · exact ⟨units, le, rfl⟩

theorem priceOf_pos (required : code ∈ requiredCodes input.target input.currentPositions) :
    0 < input.priceOf code := by
  obtain ⟨price, found, positive⟩ := input.priced code required
  rw [SizingInput.priceOf, found, Option.getD_some]
  exact positive

theorem sound_of_shares {units : ℕ} (nothing : input.currentPositions = [])
    (priced : 0 < input.priceOf code)
    (shares : (sizeCode input minWeightToTrade lots code).trade.targetShares =
      units * (input.infoOf code).lotSize) : (sizeCode input minWeightToTrade lots code).trade.Sound := by
  have value : 0 ≤ ((units * (input.infoOf code).lotSize : ℤ) : ℚ) * input.priceOf code *
      (input.infoOf code).multiplier :=
    mul_nonneg (mul_nonneg (Int.cast_nonneg (by positivity)) priced.le) (input.infoOf code).multiplier_pos.le
  have slippage := (input.infoOf code).slippageBps_nonneg
  simp only [sizeCode, heldShares nothing, sub_zero] at shares
  simp only [RebalanceTrade.Sound, sizeCode, heldShares nothing, sub_zero, shares]
  refine ⟨by positivity, le_refl 0, abs_nonneg _, by positivity, ?_⟩
  cases margin : (input.infoOf code).marginRate with
  | none => exact le_refl 0
  | some rate => exact mul_nonneg value ((input.infoOf code).margin_bounds rate margin).1.le

theorem tax_of_shares {units : ℕ} (nothing : input.currentPositions = [])
    (shares : (sizeCode input minWeightToTrade lots code).trade.targetShares =
      units * (input.infoOf code).lotSize) : (sizeCode input minWeightToTrade lots code).tax = 0 := by
  have bought : ¬(units * (input.infoOf code).lotSize : ℤ) < 0 := not_lt.mpr (by positivity)
  simp only [sizeCode, heldShares nothing, sub_zero] at shares
  simp only [sizeCode, heldShares nothing, sub_zero, shares, bought, and_false, if_false]

theorem commission_sizeCode (charging : (sizeCode input minWeightToTrade lots code).trade.deltaValue ≠ 0 →
      0 ≤ feeRate (input.infoOf code) input.fees.commissionRate ∨
        0 ≤ feeMinimum (input.infoOf code) input.fees.commissionMin) :
    0 ≤ (sizeCode input minWeightToTrade lots code).commission := by
  change 0 ≤ if 0 < |(sizeCode input minWeightToTrade lots code).trade.deltaValue| then
    max (|(sizeCode input minWeightToTrade lots code).trade.deltaValue| *
        feeRate (input.infoOf code) input.fees.commissionRate)
      (feeMinimum (input.infoOf code) input.fees.commissionMin) else 0
  split
  · rename_i traded
    exact (commission_mono (charging (abs_pos.mp traded)) (abs_nonneg _) (le_refl _)).1
  · exact le_refl 0

theorem sound_sizedTrades (input : SizingInput) (minWeightToTrade : Option ℚ)
    (nothing : input.currentPositions = []) :
    (sizedTrades input minWeightToTrade).find? (fun item => ¬item.trade.Sound) = none := by
  apply find?_eq_none.mpr
  intro item member
  obtain ⟨code, listed, rfl⟩ := mem_map.mp member
  have required := (perm_insertionSort _ _).mem_iff.mp listed
  obtain ⟨units, -, shares⟩ := shares_sizeCode minWeightToTrade _ code nothing
  have sound := sound_of_shares nothing (priceOf_pos required) shares
  simpa using sound

theorem lotsOf_unlisted {targets : TargetValues} {availableCash : ℚ}
    (unlisted : code ∉ targets.entries.map (·.code)) :
    lotsOf (solveDiscreteLots fees targets availableCash) code = 0 := by
  unfold lotsOf
  cases found : find code (solveDiscreteLots fees targets availableCash) with
  | none => rfl
  | some lots =>
    obtain ⟨target, listed, same⟩ := mem_map.mp (mem_of_find found)
    rw [← (Prod.mk.inj same).1] at unlisted
    exact absurd (mem_map_of_mem listed) unlisted

theorem cost_sizedTrades (minWeightToTrade : Option ℚ)
    (charging : input.fees.Charging) (nothing : input.currentPositions = []) :
    total (·.cost) (sizedTrades input minWeightToTrade) ≤ input.capital := by
  let lots := solveDiscreteLots input.fees input.targetValues input.capital
  let full := fun code => lotsCost input.fees (input.priceOf code) (input.infoOf code) (lotsOf lots code)
  have codes : requiredCodes input.target input.currentPositions =
      input.target.weights.entries.map Prod.fst := by
    rw [requiredCodes, nothing, map_nil, append_nil]
    exact dedup_eq_self.mpr input.target.weights.nodup
  have each : ∀ code ∈ requiredCodes input.target input.currentPositions,
      (sizeCode input minWeightToTrade lots code).cost ≤ full code := by
    intro code required
    obtain ⟨units, le, shares⟩ := shares_sizeCode minWeightToTrade lots code nothing
    rw [cost_of_shares units nothing (priceOf_pos required) shares]
    exact lotsCost_mono charging (priceOf_pos required) _ le
  have unweighted : ∀ entry ∈ input.target.weights.entries, decide (0 < entry.2) = false →
      full entry.1 = 0 := by
    intro entry member zero
    have unlisted : entry.1 ∉ input.targetValues.entries.map (·.code) := by
      intro listed
      obtain ⟨target, kept, same⟩ := mem_map.mp listed
      obtain ⟨other, positive, rfl⟩ := mem_map.mp kept
      obtain ⟨given, weighted⟩ := mem_filter.mp positive
      have whole := inj_on_of_nodup_map input.target.weights.nodup given member same
      rw [whole, zero] at weighted
      cases weighted
    simp only [full, lots, lotsOf_unlisted unlisted]
    exact if_pos rfl
  calc
    total (·.cost) (sizedTrades input minWeightToTrade)
      = total (fun code => (sizeCode input minWeightToTrade lots code).cost)
          (requiredCodes input.target input.currentPositions) := by
        rw [sizedTrades, total, map_map]
        exact ((perm_insertionSort _ _).map _).sum_eq
    _ ≤ total full (requiredCodes input.target input.currentPositions) := total_le_total each
    _ = total (fun entry => full entry.1) input.target.weights.entries := by
        rw [codes, total, map_map]
        rfl
    _ = total (fun entry => full entry.1) (input.target.weights.entries.filter fun entry => 0 < entry.2) :=
        (total_filter_weightless unweighted).symm
    _ = total (fun target => lotsCost input.fees target.price target.info (lotsOf lots target.code))
          input.targetValues.entries := by
        rw [SizingInput.targetValues, total, total, map_map]
        rfl
    _ ≤ input.capital := total_lotsOf_le input.fees input.targetValues input.capital_pos.le

/-- The cash neither runs short nor is reported negative. -/
def WithinCash (result : Except SizingFailure RebalancePlan) : Prop :=
  (∀ cashAfter, result ≠ .error (.cashShortage cashAfter)) ∧ result ≠ .error (.plan .cashAfter) ∧
    ∀ plan, result = .ok plan → 0 ≤ plan.cashAfter

theorem cashAfter_rebalancePlan (input : SizingInput) (sized : List SizedTrade) :
    (rebalancePlan input sized).cashAfter = input.capital - total (·.cost) sized := by
  have sums : total (·.cost) sized = total (·.required) sized + total (·.commission) sized +
      total (·.tax) sized + total (·.trade.estimatedSlippage) sized := by
    simp only [total, SizedTrade.cost, sum_map_add]
  rw [sums]
  simp only [rebalancePlan]
  ring

theorem RebalancePlan.refused_of_negative (plan : RebalancePlan) (capital : 0 < plan.totalCapital)
    (negative : plan.cashAfter < -maxWeightEpsilon) : plan.refused = some .cashAfter := by
  rw [RebalancePlan.refused, if_neg (not_le.mpr capital), if_pos negative]

/-- Where nothing is held and no commission is a rebate, a plan can only be refused for its cash. -/
theorem refused_rebalancePlan (input : SizingInput) (minWeightToTrade : Option ℚ)
    (nothing : input.currentPositions = [])
    (charged : ∀ item ∈ sizedTrades input minWeightToTrade, 0 ≤ item.commission)
    (cash : -maxWeightEpsilon ≤ (rebalancePlan input (sizedTrades input minWeightToTrade)).cashAfter) :
    (rebalancePlan input (sizedTrades input minWeightToTrade)).refused = none := by
  have sized : ∀ item ∈ sizedTrades input minWeightToTrade, item.tax = 0 ∧ item.trade.Sound := by
    intro item member
    obtain ⟨code, listed, rfl⟩ := mem_map.mp member
    have required := (perm_insertionSort _ _).mem_iff.mp listed
    obtain ⟨units, -, shares⟩ := shares_sizeCode minWeightToTrade _ code nothing
    exact ⟨tax_of_shares nothing shares, sound_of_shares nothing (priceOf_pos required) shares⟩
  let plan := rebalancePlan input (sizedTrades input minWeightToTrade)
  have turnover : 0 ≤ plan.totalTurnover := total_nonneg fun item _ => abs_nonneg _
  have commission : 0 ≤ plan.estCommission := total_nonneg charged
  have tax : plan.estTax = 0 := total_zero fun item member => (sized item member).1
  have slippage : 0 ≤ plan.estSlippage :=
    total_nonneg fun item member => (sized item member).2.2.2.2.1
  have margin : 0 ≤ plan.marginRequired :=
    total_nonneg fun item member => (sized item member).2.2.2.2.2
  have capital : 0 < plan.totalCapital := input.capital_pos
  rw [RebalancePlan.refused, if_neg (not_le.mpr capital), if_neg (not_lt.mpr cash),
    if_neg (not_lt.mpr turnover), if_neg (not_lt.mpr commission), if_neg (not_lt.mpr tax.ge),
    if_neg (not_or.mpr ⟨not_lt.mpr slippage, not_lt.mpr margin⟩)]

theorem solveSizing_returns (minWeightToTrade : Option ℚ)
    (charging : input.fees.Charging) (nothing : input.currentPositions = []) :
    ∃ plan, solveSizing input minWeightToTrade = .ok plan ∧ 0 ≤ plan.cashAfter := by
  have cost := cost_sizedTrades minWeightToTrade charging nothing
  have cash : 0 ≤ (rebalancePlan input (sizedTrades input minWeightToTrade)).cashAfter := by
    rw [cashAfter_rebalancePlan]
    linarith
  have epsilon := maxWeightEpsilon_pos (K := ℚ)
  have charged : ∀ item ∈ sizedTrades input minWeightToTrade, 0 ≤ item.commission := by
    intro item member
    obtain ⟨code, -, rfl⟩ := mem_map.mp member
    exact commission_sizeCode fun _ => charging_asset charging _
  have accepted := refused_rebalancePlan input minWeightToTrade nothing charged (by linarith)
  have covered : ¬(rebalancePlan input (sizedTrades input minWeightToTrade)).cashAfter < -(1 / 10 ^ 6) := by
    linarith
  refine ⟨_, ?_, cash⟩
  simp only [solveSizing, sound_sizedTrades input minWeightToTrade nothing, covered, if_false, accepted]

section Rebate

/-- An asset without fees of its own, that trades on margin but not at the moment. -/
def rebatedAsset (margin : ℚ) (bounds : 0 < margin ∧ margin ≤ 1) : AssetLotInfo :=
  { AssetLotInfo.single with
    marginRate := some margin
    tradable := false
    unavailableReason := some "halted"
    margin_bounds := by simpa using bounds
    reason_given := by simp }

def chargedAsset (minimum : ℚ) (nonneg : 0 ≤ minimum) : AssetLotInfo :=
  { AssetLotInfo.single with
    commissionRate := some 0
    commissionMin := some minimum
    commissionRate_nonneg := by simp
    commissionMin_nonneg := by simpa using nonneg }

def halfTarget : TargetWeight ℚ where
  weights := { entries := [("A", 1 / 2), ("B", 1 / 2)], nodup := by decide }
  origin := { asOf := 0, strategyId := "s" }
  cashBuffer := 0
  maxLeverage := 1
  longOnly := true
  cash_bounds := no_buffer
  one_le_leverage := unlevered
  entries_sound := by
    simp only [entryError]
    norm_num
    rfl
  gross_le := by norm_num [Weights.gross, Weights.exposure, maxWeightEpsilon, abs_of_pos]
  funded := by norm_num [Weights.net, maxWeightEpsilon]

/-- The rebate for `A` pays for `B`, while `A` cannot be traded. -/
def rebateInput (fees : FallbackFees) (rate : fees.commissionRate < 0) (minimum : fees.commissionMin < 0) :
    SizingInput where
  target := halfTarget
  capital := 2 * (fees.commissionMin / fees.commissionRate)
  lotInfo := [
    ("A", rebatedAsset (min 1 (-fees.commissionRate / 2)) ⟨lt_min one_pos (by linarith), min_le_left _ _⟩),
    ("B", chargedAsset (fees.commissionMin / fees.commissionRate - fees.commissionMin / 2) (by
      have worth := div_pos_of_neg_of_neg minimum rate
      linarith))]
  prices := [("A", fees.commissionMin / fees.commissionRate), ("B", fees.commissionMin / fees.commissionRate)]
  currentPositions := []
  fees
  capital_pos := by
    have worth := div_pos_of_neg_of_neg minimum rate
    linarith
  weights_nonneg := by norm_num [halfTarget]
  priced := by
    have worth := div_pos_of_neg_of_neg minimum rate
    intro code required
    have listed : code = "A" ∨ code = "B" := by simpa [requiredCodes, halfTarget] using required
    rcases listed with rfl | rfl
    · exact ⟨_, rfl, worth⟩
    · exact ⟨_, rfl, worth⟩
  informed := by
    intro code required
    have listed : code = "A" ∨ code = "B" := by simpa [requiredCodes, halfTarget] using required
    rcases listed with rfl | rfl
    · simp [find]
    · simp [find]

variable {fees : FallbackFees} (rate : fees.commissionRate < 0) (minimum : fees.commissionMin < 0)

def rebateWorth (fees : FallbackFees) : ℚ := fees.commissionMin / fees.commissionRate

theorem targetValues_rebate : (rebateInput fees rate minimum).targetValues.entries =
    [{ code := "A", targetValue := 1 / 2 * (2 * rebateWorth fees)
       info := (rebateInput fees rate minimum).infoOf "A", price := rebateWorth fees },
     { code := "B", targetValue := 1 / 2 * (2 * rebateWorth fees)
       info := (rebateInput fees rate minimum).infoOf "B", price := rebateWorth fees }] := by
  have kept : ([("A", (1 / 2 : ℚ)), ("B", 1 / 2)].filter fun entry => 0 < entry.2) =
      [("A", 1 / 2), ("B", 1 / 2)] := by norm_num
  change ([("A", (1 / 2 : ℚ)), ("B", 1 / 2)].filter fun entry => 0 < entry.2).map _ = _
  rw [kept]
  rfl

theorem unitValue_rebate (listed : code = "A" ∨ code = "B") :
    unitValue (rebateWorth fees) ((rebateInput fees rate minimum).infoOf code)
    = rebateWorth fees := by
  rcases listed with rfl | rfl
  · simp [unitValue, SizingInput.infoOf, rebateInput, rebatedAsset, AssetLotInfo.single]
  · simp [unitValue, SizingInput.infoOf, rebateInput, chargedAsset, AssetLotInfo.single]

/-- The rebate leaves `A` below nothing by half of it; `B` exceeds the capital by as much. -/
theorem cost_rebate :
    lotsCost fees (rebateWorth fees) ((rebateInput fees rate minimum).infoOf "A") 1 ≤ fees.commissionMin / 2 ∧
    lotsCost fees (rebateWorth fees) ((rebateInput fees rate minimum).infoOf "B") 1 =
      2 * rebateWorth fees - fees.commissionMin / 2 := by
  have worth : 0 < rebateWorth fees := div_pos_of_neg_of_neg minimum rate
  have rebate : rebateWorth fees * fees.commissionRate = fees.commissionMin := div_mul_cancel₀ _ rate.ne
  simp only [lotsCost, if_neg Nat.one_ne_zero, unitCashRequirement, unitValue_rebate rate minimum (.inl rfl),
    unitValue_rebate rate minimum (.inr rfl), Nat.cast_one, one_mul]
  constructor
  · have margin : rebateWorth fees * min 1 (-fees.commissionRate / 2) ≤
        rebateWorth fees * (-fees.commissionRate / 2) :=
      mul_le_mul_of_nonneg_left (min_le_right _ _) worth.le
    change rebateWorth fees * min 1 (-fees.commissionRate / 2) +
      max (rebateWorth fees * fees.commissionRate) fees.commissionMin + rebateWorth fees * 0 / 10000 ≤ _
    rw [rebate, max_self]
    linarith
  · change rebateWorth fees * 1 + max (rebateWorth fees * 0) (rebateWorth fees - fees.commissionMin / 2) +
      rebateWorth fees * 0 / 10000 = _
    rw [mul_zero, max_eq_right (by linarith)]
    ring

/-- Together the two assets cost no more than the capital, and each gets its lot. -/
theorem lotsOf_rebate (listed : code = "A" ∨ code = "B") :
    lotsOf (solveDiscreteLots fees (rebateInput fees rate minimum).targetValues
      (rebateInput fees rate minimum).capital) code = 1 := by
  have worth : 0 < rebateWorth fees := div_pos_of_neg_of_neg minimum rate
  have one : ∀ {code}, code = "A" ∨ code = "B" → ⌊1 / 2 * (2 * rebateWorth fees) /
      unitValue (rebateWorth fees) ((rebateInput fees rate minimum).infoOf code)⌋.toNat = 1 := by
    intro code listed
    have whole : 1 / 2 * (2 * rebateWorth fees) / rebateWorth fees = 1 := by
      field_simp
    rw [unitValue_rebate rate minimum listed, whole, Int.floor_one]
    rfl
  have sized : ∀ {info : AssetLotInfo} {code : String} {value : ℚ},
      LotTarget.sized { code, targetValue := value, info, price := rebateWorth fees } = true := by
    intro info code value
    simp [LotTarget.sized, unitValue_pos worth info, unitCashRequirement_pos worth info]
  have affordable : total (·.cost fees) (lotItems (rebateInput fees rate minimum).targetValues.entries) ≤
      (rebateInput fees rate minimum).capital := by
    have cost := cost_rebate rate minimum
    have same : (rebateInput fees rate minimum).capital = 2 * rebateWorth fees := rfl
    rw [targetValues_rebate, lotItems, filter_cons_of_pos sized, filter_cons_of_pos sized]
    simp only [filter_nil, map_cons, map_nil, total_cons, total_nil,
      LotItem.cost, one (.inl rfl), one (.inr rfl), same]
    linarith
  rcases listed with rfl | rfl
  · have lot := lotsOf_of_affordable affordable { code := "A", .. }
      (by rw [targetValues_rebate]; exact mem_cons_self) sized
    rw [lot]
    exact one (.inl rfl)
  · have lot := lotsOf_of_affordable affordable { code := "B", .. }
      (by rw [targetValues_rebate]; exact mem_cons_of_mem _ mem_cons_self) sized
    rw [lot]
    exact one (.inr rfl)

theorem cashAfter_rebate :
    (rebalancePlan (rebateInput fees rate minimum) (sizedTrades (rebateInput fees rate minimum) none)).cashAfter =
      fees.commissionMin / 2 := by
  have worth := div_pos_of_neg_of_neg minimum rate
  have cost := (cost_rebate rate minimum).2
  have codes : (requiredCodes (rebateInput fees rate minimum).target
      (rebateInput fees rate minimum).currentPositions).insertionSort (· ≤ ·) = ["A", "B"] := by
    change (requiredCodes halfTarget []).insertionSort (· ≤ ·) = ["A", "B"]
    decide +kernel
  have priced : ∀ {code}, code = "A" ∨ code = "B" → 0 < (rebateInput fees rate minimum).priceOf code := by
    rintro code (rfl | rfl)
    · exact worth
    · exact worth
  have halted : ∀ lots, (sizeCode (rebateInput fees rate minimum) none lots "A").cost = 0 := fun lots =>
    cost_of_shares 0 rfl (priced (.inl rfl)) rfl
  have bought : (sizeCode (rebateInput fees rate minimum) none
      (solveDiscreteLots (rebateInput fees rate minimum).fees (rebateInput fees rate minimum).targetValues
        (rebateInput fees rate minimum).capital) "B").cost =
      lotsCost fees (rebateWorth fees) ((rebateInput fees rate minimum).infoOf "B") 1 := by
    apply cost_of_shares 1 rfl (priced (.inr rfl))
    change (lotsOf (solveDiscreteLots fees _ _) "B" : ℤ) * 1 = 1 * 1
    rw [lotsOf_rebate rate minimum (.inr rfl)]
    rfl
  rw [cashAfter_rebalancePlan, sizedTrades, codes, map_cons, map_cons, map_nil,
    total_cons, total_cons, total_nil, halted, bought, cost]
  change 2 * rebateWorth fees - _ = _
  ring

theorem charged_rebate : ∀ item ∈ sizedTrades (rebateInput fees rate minimum) none, 0 ≤ item.commission := by
  intro item member
  obtain ⟨code, listed, rfl⟩ := mem_map.mp member
  have required := (perm_insertionSort _ _).mem_iff.mp listed
  have known : code = "A" ∨ code = "B" := by
    change code ∈ requiredCodes halfTarget [] at required
    simpa [requiredCodes, halfTarget] using required
  apply commission_sizeCode
  rcases known with rfl | rfl
  · intro traded
    refine absurd ?_ traded
    change ((0 - 0 : ℤ) : ℚ) * _ * _ = 0
    simp
  · exact fun _ => Or.inl (le_refl 0)

end Rebate

/-- A sizing that runs short of cash: the rebate of 100 for `A`, on 50 of margin, was to pay for `B`. -/
theorem rebated_sizing_short :
    solveSizing (rebateInput { commissionRate := -1 / 10, commissionMin := -100 } (by norm_num) (by norm_num))
      none = .error (.cashShortage (-50)) := by
  have cash := @cashAfter_rebate { commissionRate := -1 / 10, commissionMin := -100 } (by norm_num) (by norm_num)
  have sound := sound_sizedTrades (rebateInput { commissionRate := -1 / 10, commissionMin := -100 }
    (by norm_num) (by norm_num)) none rfl
  simp only [solveSizing, sound, cash]
  norm_num

/-- Every sizing without positions stays within its cash, exactly if the commission of an asset without
fees of its own is at no price a rebate. -/
theorem sizing_within_cash_iff (fees : FallbackFees) :
    (∀ (input : SizingInput) (minWeightToTrade : Option ℚ), input.fees = fees →
      input.currentPositions = [] → WithinCash (solveSizing input minWeightToTrade)) ↔ fees.Charging := by
  constructor
  · intro within
    by_contra rebate
    obtain ⟨rate, minimum⟩ := not_or.mp rebate
    rw [not_le] at rate minimum
    have cash := cashAfter_rebate rate minimum
    have sound := sound_sizedTrades (rebateInput fees rate minimum) none rfl
    obtain ⟨shortage, refusal, reported⟩ := within (rebateInput fees rate minimum) none rfl rfl
    simp only [solveSizing, sound, cash] at shortage refusal reported
    by_cases short : fees.commissionMin / 2 < -(1 / 10 ^ 6)
    · exact shortage _ (if_pos short)
    · rw [if_neg short] at refusal reported
      by_cases negative : fees.commissionMin / 2 < -maxWeightEpsilon
      · have refused := RebalancePlan.refused_of_negative
          (rebalancePlan (rebateInput fees rate minimum) (sizedTrades _ none))
          (rebateInput fees rate minimum).capital_pos (by rw [cash]; exact negative)
        simp [refused] at refusal
      · have accepted := refused_rebalancePlan _ none rfl
          (charged_rebate rate minimum) (by rw [cash]; exact not_lt.mp negative)
        have nonneg := reported _ (by rw [accepted])
        rw [cash] at nonneg
        linarith
  · intro charging input minWeightToTrade same nothing
    rw [← same] at charging
    obtain ⟨plan, returned, cash⟩ := solveSizing_returns minWeightToTrade charging nothing
    rw [returned]
    refine ⟨fun _ => by simp, by simp, ?_⟩
    intro other same
    rw [← Except.ok.inj same]
    exact cash

end FinDashboard.Portfolio.Sizing
