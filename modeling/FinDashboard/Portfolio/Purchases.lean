import FinDashboard.Portfolio.ExecutionMarks
import Mathlib.Tactic.Linarith

/-!
# Purchases and cash

A purchase is cut to what the cash can pay for in whole lots. In exact arithmetic what is filled never
overdraws the account, and one more lot would be too much for the bound the cut is made by.
-/

namespace FinDashboard.Portfolio

open Ledger

variable {α ω K F : Type} [Field K] [LinearOrder K] [FloatArithmetic F]

/-- Conversions that lose nothing: a decimal that comes from a float goes to a float and back, a positive
float is a positive decimal, and truncation goes down to the next whole number. -/
structure ExactConversions (math : PipelineMath K F) : Prop where
  roundTrip : ∀ value, math.decimal (math.float (math.decimal value)) = math.decimal value
  decimal_pos : ∀ value, 0 < value → 0 < math.decimal value
  truncate_le : ∀ value : K, 0 ≤ value → ((math.truncate value : ℤ) : K) ≤ value
  lt_truncate : ∀ value : K, 0 ≤ value → value < ((math.truncate value : ℤ) : K) + 1

/-- The rates a specification accepts. -/
structure ExecutionModel.Valid (model : ExecutionModel F) : Prop where
  commissionRate : 0 ≤ model.commissionRate
  minimumCommission : 0 ≤ model.minimumCommission
  sellTaxRate : 0 ≤ model.sellTaxRate
  slippageBps : 0 ≤ model.slippageBps

/-- The bound on the cost of a purchase: the rates of its value, and the least commission on top. -/
def costUpperBound (math : PipelineMath K F) (price : K) (info : AssetLotInfo F)
    (commissionRate commissionMin slippageBps : F) (quantity : ℤ) : K :=
  (quantity : K) * price * math.decimal info.multiplier *
    (1 + math.decimal commissionRate + bpsFraction math slippageBps) + math.decimal commissionMin

section Lots

variable [IsStrictOrderedRing K]

/-- The whole lots in a number cost no more than it, and one lot more costs more. -/
theorem lots_between {unit amount : K} {count lot : ℤ} (priced : 0 < unit) (positive : 0 < lot)
    (below : (count : K) ≤ amount / unit) (above : amount / unit < (count : K) + 1) :
    ((count / lot * lot : ℤ) : K) * unit ≤ amount ∧ amount < ((count / lot * lot + lot : ℤ) : K) * unit := by
  have fewer : count / lot * lot ≤ count := Int.ediv_mul_le _ (ne_of_gt positive)
  have more : count + 1 ≤ count / lot * lot + lot := by
    have next := Int.lt_ediv_add_one_mul_self count positive
    rw [add_mul, one_mul] at next
    omega
  constructor
  · refine (le_div_iff₀ priced).mp (le_trans ?_ below)
    exact_mod_cast fewer
  · refine (div_lt_iff₀ priced).mp (above.trans_le ?_)
    exact_mod_cast more

variable {math : PipelineMath K F} {price cash : K} {info : AssetLotInfo F}
  {commissionRate commissionMin slippageBps : F}

theorem bpsFraction_nonneg {bps : F} (nonneg : 0 ≤ bps) : 0 ≤ bpsFraction math bps := by
  have decimal := math.decimal_nonneg bps nonneg
  exact div_nonneg decimal (Nat.cast_nonneg 10000)

theorem costUpperBound_lt {fewer more : ℤ} (priced : 0 < price * math.decimal info.multiplier)
    (factor : 0 < 1 + math.decimal commissionRate + bpsFraction math slippageBps)
    (less : costUpperBound math price info commissionRate commissionMin slippageBps fewer <
      costUpperBound math price info commissionRate commissionMin slippageBps more) : fewer < more := by
  unfold costUpperBound at less
  by_contra reached
  have shares : (more : K) ≤ (fewer : K) := by exact_mod_cast not_lt.mp reached
  have values : (more : K) * (price * math.decimal info.multiplier) ≤
      (fewer : K) * (price * math.decimal info.multiplier) := mul_le_mul_of_nonneg_right shares priced.le
  have costs := mul_le_mul_of_nonneg_right values factor.le
  rw [← mul_assoc, ← mul_assoc] at costs
  linarith

end Lots

section Cut

variable [IsStrictOrderedRing K] {math : PipelineMath K F} {price cash : K} {info : AssetLotInfo F}
  {commissionRate commissionMin slippageBps : F} {quantity : ℤ}

/-- What the cut of a purchase leaves: whole lots that the cash can pay for, and as many as it can. -/
structure CutTo (math : PipelineMath K F) (price : K) (info : AssetLotInfo F) (cash : K)
    (commissionRate commissionMin slippageBps : F) (quantity cut : ℤ) : Prop where
  lots : info.lotSize ∣ cut ∧ info.lotSize ∣ quantity - cut
  within : 0 ≤ cut ∧ cut ≤ quantity
  affordable : 0 < quantity - cut →
    costUpperBound math price info commissionRate commissionMin slippageBps (quantity - cut) ≤ cash
  maximal : quantity - cut + info.lotSize ≤ quantity →
    cash < costUpperBound math price info commissionRate commissionMin slippageBps
      (quantity - cut + info.lotSize)

theorem clipBuyQuantityToCash_spec (cash : K) (exact : ExactConversions math) (priced : 0 < price)
    (faithful : math.decimal (math.float price) = price)
    (rates : 0 ≤ commissionRate ∧ 0 ≤ commissionMin ∧ 0 ≤ slippageBps) (nonneg : 0 ≤ quantity)
    (lots : info.lotSize ∣ quantity) :
    CutTo math price info cash commissionRate commissionMin slippageBps quantity
      (clipBuyQuantityToCash math quantity price info cash commissionRate commissionMin slippageBps) := by
  obtain ⟨rateNonneg, leastNonneg, bpsNonneg⟩ := rates
  have lot := info.lotSize_pos
  have unit := mul_pos priced (exact.decimal_pos _ info.multiplier_pos)
  have rate := math.decimal_nonneg _ rateNonneg
  have least := math.decimal_nonneg _ leastNonneg
  have factor : 0 < 1 + math.decimal commissionRate + bpsFraction math slippageBps := by
    have slippage : (0 : K) ≤ bpsFraction math slippageBps := bpsFraction_nonneg bpsNonneg
    linarith
  have whole : notional math quantity (math.float price) info *
      (1 + math.decimal commissionRate + bpsFraction math slippageBps) + math.decimal commissionMin =
      costUpperBound math price info commissionRate commissionMin slippageBps quantity := by
    unfold notional costUpperBound
    rw [faithful]
  unfold clipBuyQuantityToCash
  simp only [whole]
  by_cases enough : costUpperBound math price info commissionRate commissionMin slippageBps quantity ≤ cash
  · -- all of it can be paid for
    rw [if_pos enough]
    refine ⟨⟨dvd_zero _, by rwa [sub_zero]⟩, ⟨le_rfl, nonneg⟩, fun _ => by rwa [sub_zero], fun more => ?_⟩
    omega
  · have short := not_le.mp enough
    rw [if_neg enough, if_neg (not_le.mpr unit)]
    by_cases nothing : (cash - math.decimal commissionMin) /
        (1 + math.decimal commissionRate + bpsFraction math slippageBps) ≤ 0
    · -- not even the least commission can be paid for
      rw [if_pos nothing]
      refine ⟨⟨lots, by rw [sub_self]; exact dvd_zero _⟩, ⟨nonneg, le_rfl⟩, fun some => ?_, fun _ => ?_⟩
      · omega
      · have cost : 0 < (info.lotSize : K) * (price * math.decimal info.multiplier) *
            (1 + math.decimal commissionRate + bpsFraction math slippageBps) :=
          mul_pos (mul_pos (by exact_mod_cast lot) unit) factor
        have less := (div_le_iff₀ factor).mp nothing
        unfold costUpperBound
        rw [sub_self, zero_add, mul_assoc ((info.lotSize : ℤ) : K)]
        linarith
    · rw [if_neg nothing]
      have amount := not_le.mp nothing
      generalize affordable : (cash - math.decimal commissionMin) /
        (1 + math.decimal commissionRate + bpsFraction math slippageBps) = budget at amount ⊢
      have shares := (div_pos amount unit).le
      have below := exact.truncate_le _ shares
      have above := exact.lt_truncate _ shares
      generalize math.truncate (budget / (price * math.decimal info.multiplier)) = count at below above ⊢
      obtain ⟨fits, exceeds⟩ := lots_between unit lot below above
      have some : 0 ≤ count := by
        by_contra negative
        have last : ((count : ℤ) : K) + 1 ≤ 0 := by exact_mod_cast not_le.mp negative
        linarith
      have filled := mul_nonneg (Int.ediv_nonneg some lot.le) lot.le
      have paid : budget * (1 + math.decimal commissionRate + bpsFraction math slippageBps) =
          cash - math.decimal commissionMin := by
        rw [← affordable, div_mul_cancel₀ _ factor.ne']
      -- the lots that fit cost no more than the budget, one lot more costs more
      have pays : costUpperBound math price info commissionRate commissionMin slippageBps
          (count / info.lotSize * info.lotSize) ≤ cash := by
        have cost := mul_le_mul_of_nonneg_right fits factor.le
        unfold costUpperBound
        rw [mul_assoc _ price]
        linarith
      have exceeded : cash < costUpperBound math price info commissionRate commissionMin slippageBps
          (count / info.lotSize * info.lotSize + info.lotSize) := by
        have cost := mul_lt_mul_of_pos_right exceeds factor
        unfold costUpperBound
        rw [mul_assoc _ price]
        linarith
      have fewer := costUpperBound_lt unit factor (pays.trans_lt short)
      rw [if_neg (not_le.mpr fewer)]
      have left : quantity - (quantity - count / info.lotSize * info.lotSize) =
          count / info.lotSize * info.lotSize := sub_sub_cancel _ _
      refine ⟨⟨dvd_sub lots (Dvd.intro_left _ rfl), ?_⟩, ⟨?_, ?_⟩, fun _ => ?_, fun _ => ?_⟩
      · rw [left]
        exact Dvd.intro_left _ rfl
      · omega
      · omega
      · rw [left]
        exact pays
      · rw [left]
        exact exceeded

end Cut

section Fill

variable {setup : PipelineSetup α ω K F} {item : PortfolioDecisionInput α F} {index offset : ℕ}
  {state : PipelineState K} {instruction : RebalanceInstruction K} {done : Execution K} {fill : ResearchFill K}
  {info : AssetLotInfo F} {executionPrice commissionRate commissionMin slippageBps : F} {quantity filled : ℤ}

variable [IsStrictOrderedRing K]

theorem pyMax_le_add {a b : K} (first : 0 ≤ a) (second : 0 ≤ b) : pyMax a b ≤ a + b := by
  unfold pyMax
  split_ifs
  · exact le_add_of_nonneg_left first
  · exact le_add_of_nonneg_right second

theorem fillInstruction_purchase (exact : ExactConversions setup.math)
    (rates : 0 ≤ commissionRate ∧ 0 ≤ commissionMin) (priced : 0 < executionPrice) (nonneg : 0 ≤ filled)
    (opens : instruction.action = .openLong)
    (ran : fillInstruction setup item index offset state instruction info executionPrice commissionRate
      commissionMin slippageBps filled = .ok done) :
    state.cash - costUpperBound setup.math (setup.math.decimal executionPrice) info commissionRate commissionMin
      slippageBps filled ≤ done.state.cash := by
  obtain ⟨order, -, ran⟩ := exists_of_bind_eq_ok ran
  obtain ⟨fill, made, ran⟩ := exists_of_bind_eq_ok ran
  obtain ⟨after, applied, ran⟩ := exists_of_bind_eq_ok ran
  cases ran
  obtain ⟨_, action, _⟩ := newFill_ok made
  obtain ⟨quantity, price, commission, slippage⟩ := newFill_amounts made
  cases applyResearchFill_applied applied with
  | closed closes _ => rw [action, opens] at closes; cases closes
  | opened _ =>
    have shares : (0 : K) ≤ (filled : K) := by exact_mod_cast nonneg
    have amount :=
      mul_nonneg (mul_nonneg shares (exact.decimal_pos _ priced).le) (exact.decimal_pos _ info.multiplier_pos).le
    have rate := setup.math.decimal_nonneg _ rates.1
    have least := setup.math.decimal_nonneg _ rates.2
    have fee := pyMax_le_add (mul_nonneg amount rate) least
    dsimp only
    rw [quantity, price, commission, slippage]
    unfold notional costUpperBound bpsFraction
    rw [exact.roundTrip, mul_add, mul_add, mul_one, mul_div_assoc]
    linarith

omit [IsStrictOrderedRing K] in
/-- The rates an instruction is filled at are not negative. -/
theorem rates_nonneg (valid : setup.executionModel.Valid) (info : AssetLotInfo F) :
    0 ≤ info.commissionRate.getD setup.executionModel.commissionRate ∧
      0 ≤ info.commissionMin.getD setup.executionModel.minimumCommission ∧
        0 ≤ (if 0 < info.slippageBps then info.slippageBps else setup.executionModel.slippageBps) := by
  obtain ⟨rate, least, _, slippage⟩ := info.nonneg
  refine ⟨?_, ?_, ?_⟩
  · cases given : info.commissionRate with
    | none => exact valid.commissionRate
    | some own => exact rate own given
  · cases given : info.commissionMin with
    | none => exact valid.minimumCommission
    | some own => exact least own given
  · split_ifs
    · exact slippage
    · exact valid.slippageBps

theorem executeInstruction_purchase (exact : ExactConversions setup.math) (valid : setup.executionModel.Valid)
    (ran : executeInstruction setup item index offset state instruction = .ok done)
    (recorded : done.fill = some fill) (opens : fill.action = .openLong) :
    0 ≤ done.state.cash ∧ ∃ info executionPrice quantity, find fill.symbol item.lotInfo = some info ∧
      find fill.symbol item.executionPrices = some executionPrice ∧
        CutTo setup.math (setup.math.decimal executionPrice) info state.cash
          (info.commissionRate.getD setup.executionModel.commissionRate)
          (info.commissionMin.getD setup.executionModel.minimumCommission)
          (if 0 < info.slippageBps then info.slippageBps else setup.executionModel.slippageBps)
          quantity (quantity - fill.quantity) := by
  have unfilled : ∀ {info : AssetLotInfo F} {executionPrice : F} {orderId reason : String},
      rejectInstruction setup.math state instruction info executionPrice orderId reason ≠ .ok done := by
    intro info executionPrice orderId reason refused
    obtain ⟨order, -, refused⟩ := exists_of_bind_eq_ok refused
    cases refused
    cases recorded
  unfold executeInstruction at ran
  cases known : find instruction.symbol item.lotInfo with
  | none => simp [known] at ran
  | some info =>
    cases found : find instruction.symbol item.executionPrices with
    | none => simp [known, found] at ran
    | some executionPrice =>
      have priced := item.executionPrices_pos _ (mem_of_find found)
      simp only [known, found] at ran
      have lots : info.lotSize ∣ setup.math.truncate (((|instruction.deltaQuantity| : ℤ) : K) *
          setup.math.decimal ((find instruction.symbol item.fillRatioBySymbol).getD 1)) / info.lotSize *
            info.lotSize := Dvd.intro_left _ rfl
      generalize setup.math.truncate _ / info.lotSize * info.lotSize = wanted at ran lots
      cases reason : rejectReason item instruction.symbol wanted with
      | some reason' =>
        rw [reason] at ran
        exact absurd ran unfilled
      | none =>
        have some_lots : 0 ≤ wanted := by
          unfold rejectReason at reason
          split_ifs at reason with _ _ positive
          exact (not_le.mp positive).le
        rw [reason] at ran
        dsimp only at ran
        by_cases purchase : instruction.action = .openLong
        · have cut := clipBuyQuantityToCash_spec state.cash exact (exact.decimal_pos _ priced)
            (exact.roundTrip executionPrice) (rates_nonneg valid info) some_lots lots
          rw [if_pos purchase] at ran
          generalize clipBuyQuantityToCash setup.math wanted _ info state.cash _ _ _ = clipped at ran cut
          have left : (if 0 < clipped then wanted - clipped else wanted) = wanted - clipped := by
            have within := cut.within.1
            split_ifs <;> omega
          rw [left] at ran
          by_cases nothing : wanted - clipped ≤ 0
          · rw [if_pos nothing] at ran
            exact absurd ran unfilled
          · rw [if_neg nothing] at ran
            obtain ⟨quantity, _, symbol⟩ := fillInstruction_fill ran recorded
            have filled := not_le.mp nothing
            have rates := rates_nonneg valid info
            have paid := fillInstruction_purchase exact ⟨rates.1, rates.2.1⟩ priced filled.le purchase ran
            have fits := cut.affordable filled
            refine ⟨by linarith, info, executionPrice, wanted, symbol ▸ known, symbol ▸ found, ?_⟩
            rw [quantity, sub_sub_cancel]
            exact cut
        · rw [if_neg purchase] at ran
          split_ifs at ran
          all_goals first
            | exact absurd ran unfilled
            | exact absurd ((fillInstruction_fill ran recorded).2.1.symm.trans opens) purchase

/-- A purchase is cut to whole lots between nothing and its quantity: the cash can pay for them, and one
lot more, where there is one, would be too much for the bound. No filled purchase leaves a debt. -/
theorem purchases_keep_cash (setup : PipelineSetup α ω K F) (exact : ExactConversions setup.math)
    (valid : setup.executionModel.Valid) :
    (∀ (info : AssetLotInfo F) (price cash : K) (commissionRate commissionMin slippageBps : F) (quantity : ℤ),
        0 < price → setup.math.decimal (setup.math.float price) = price →
        0 ≤ commissionRate ∧ 0 ≤ commissionMin ∧ 0 ≤ slippageBps →
        0 ≤ quantity → info.lotSize ∣ quantity →
        CutTo setup.math price info cash commissionRate commissionMin slippageBps quantity
          (clipBuyQuantityToCash setup.math quantity price info cash commissionRate commissionMin slippageBps)) ∧
      ∀ (item : PortfolioDecisionInput α F) (index offset : ℕ) (state : PipelineState K)
        (instruction : RebalanceInstruction K) (done : Execution K) (fill : ResearchFill K),
        executeInstruction setup item index offset state instruction = .ok done → done.fill = some fill →
        fill.action = .openLong →
        0 ≤ done.state.cash ∧ ∃ info executionPrice quantity, find fill.symbol item.lotInfo = some info ∧
          find fill.symbol item.executionPrices = some executionPrice ∧
            CutTo setup.math (setup.math.decimal executionPrice) info state.cash
              (info.commissionRate.getD setup.executionModel.commissionRate)
              (info.commissionMin.getD setup.executionModel.minimumCommission)
              (if 0 < info.slippageBps then info.slippageBps else setup.executionModel.slippageBps)
              quantity (quantity - fill.quantity) :=
  ⟨fun _ _ _ _ _ _ _ priced faithful rates nonneg lots =>
      clipBuyQuantityToCash_spec _ exact priced faithful rates nonneg lots,
    fun _ _ _ _ _ _ _ ran recorded opens => executeInstruction_purchase exact valid ran recorded opens⟩

end Fill

section Sample

theorem rationalMath_exact : ExactConversions rationalMath where
  roundTrip _ := rfl
  decimal_pos _ := id
  truncate_le value nonneg := by
    have floor : rationalMath.truncate value = value.floor := if_neg (not_lt.mpr nonneg)
    rw [floor]
    exact Rat.floor_le value
  lt_truncate value nonneg := by
    have floor : rationalMath.truncate value = value.floor := if_neg (not_lt.mpr nonneg)
    rw [floor]
    exact_mod_cast Rat.lt_floor_add_one value

theorem sampleModel_valid : sampleSetup.executionModel.Valid where
  commissionRate := by decide +kernel
  minimumCommission := by decide +kernel
  sellTaxRate := by decide +kernel
  slippageBps := by decide +kernel

/-- Five lots are wanted, and the cash pays for two. -/
def sampleInstruction : RebalanceInstruction ℚ where
  instructionId := "I"
  symbol := "000001.SZ"
  action := .openLong
  targetQuantity := 500
  currentQuantity := 0
  deltaQuantity := 500
  lotSize := 100
  estimatedValue := 5000
  reason := "目标权重经组合/风险约束和整数手求解"
  valid := by decide

theorem purchases_keep_cash_sample : (CutTo rationalMath 10 boardLot 3000 (3 / 10000) 5 5 500
        (clipBuyQuantityToCash rationalMath 500 10 boardLot 3000 (3 / 10000) 5 5) ∧
      clipBuyQuantityToCash rationalMath 500 10 boardLot 3000 (3 / 10000) 5 5 = 300) ∧
      ∃ done fill, executeInstruction sampleSetup (sampleInput 1 500 10 firstPrice_pos) 0 0
          (initialState 3000) sampleInstruction = .ok done ∧ done.fill = some fill ∧ fill.quantity = 200 ∧
        0 ≤ done.state.cash := by
  refine ⟨⟨?_, by decide +kernel⟩, ?_⟩
  · exact (purchases_keep_cash sampleSetup rationalMath_exact sampleModel_valid).1 boardLot 10 3000 _ _ _ 500
      firstPrice_pos rfl (by decide +kernel) (by decide) (by decide)
  · have filled : ((executeInstruction sampleSetup (sampleInput 1 500 10 firstPrice_pos) 0 0
        (initialState 3000) sampleInstruction).toOption.bind fun done =>
          done.fill.map fun fill => (fill.quantity, fill.action)) = some (200, .openLong) := by decide +kernel
    obtain ⟨done, ran, recorded⟩ := Option.bind_eq_some_iff.mp filled
    obtain ⟨fill, some_fill, same⟩ := Option.map_eq_some_iff.mp recorded
    have ran : executeInstruction sampleSetup (sampleInput 1 500 10 firstPrice_pos) 0 0 (initialState 3000)
        sampleInstruction = .ok done := by
      cases result : executeInstruction sampleSetup (sampleInput 1 500 10 firstPrice_pos) 0 0 (initialState 3000)
          sampleInstruction with
      | error error => rw [result] at ran; cases ran
      | ok other => rw [result] at ran; exact congrArg Except.ok (Option.some.inj ran)
    have kept := (purchases_keep_cash sampleSetup rationalMath_exact sampleModel_valid).2 _ _ _ _ _ done fill ran
      some_fill (congrArg Prod.snd same)
    exact ⟨done, fill, ran, some_fill, congrArg Prod.fst same, kept.1⟩

end Sample

end FinDashboard.Portfolio
