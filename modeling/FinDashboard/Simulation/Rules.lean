import FinDashboard.Shared.Models
import Mathlib.Data.Rat.Floor

/-!
# Asset rules

The lot size, the settlement delay, the charges and the price steps of an instrument class,
and the white list the simulated matching resolves them from. A rule carries the checks its
constructor makes, so that no malformed rule can be written down.
-/

namespace FinDashboard.Simulation

/-- `AssetRule` with the checks of `__post_init__`. -/
structure AssetRule where
  lotSize : ℚ
  enforceTPlus1 : Bool
  stampTaxRate : ℚ
  commissionRate : ℚ
  commissionMin : ℚ
  priceLimitPct : Option ℚ
  priceTick : ℚ
  lotSize_pos : 0 < lotSize := by norm_num
  priceTick_pos : 0 < priceTick := by norm_num
  commissionRate_nonneg : 0 ≤ commissionRate := by norm_num
  commissionMin_nonneg : 0 ≤ commissionMin := by norm_num
  stampTaxRate_nonneg : 0 ≤ stampTaxRate := by norm_num
  priceLimitPct_pos : ∀ pct ∈ priceLimitPct, 0 < pct := by simp

namespace AssetRule

variable (rule : AssetRule)

/-- Round down to whole lots. -/
def roundToLot (quantity : ℚ) : ℚ :=
  if quantity ≤ 0 then 0 else ⌊quantity / rule.lotSize⌋ * rule.lotSize

def roundToTick (price : ℚ) : ℚ :=
  if price ≤ 0 then 0 else ⌊price / rule.priceTick⌋ * rule.priceTick

variable {quantity : ℚ}

theorem roundToLot_le (h : 0 ≤ quantity) : rule.roundToLot quantity ≤ quantity := by
  unfold roundToLot
  split_ifs with hle
  · exact h
  · calc (⌊quantity / rule.lotSize⌋ : ℚ) * rule.lotSize
        ≤ quantity / rule.lotSize * rule.lotSize :=
          mul_le_mul_of_nonneg_right (Int.floor_le _) rule.lotSize_pos.le
      _ = quantity := div_mul_cancel₀ _ rule.lotSize_pos.ne'

theorem sub_roundToLot_lt (h : 0 ≤ quantity) : quantity - rule.roundToLot quantity < rule.lotSize := by
  unfold roundToLot
  split_ifs with hle
  · rw [le_antisymm hle h, sub_zero]
    exact rule.lotSize_pos
  · have hfloor : quantity / rule.lotSize < ⌊quantity / rule.lotSize⌋ + 1 := Int.lt_floor_add_one _
    rw [div_lt_iff₀ rule.lotSize_pos] at hfloor
    linarith

theorem roundToLot_of_lt (h : quantity < rule.lotSize) : rule.roundToLot quantity = 0 := by
  unfold roundToLot
  split_ifs with hle
  · rfl
  · have hlots : ⌊quantity / rule.lotSize⌋ = 0 := by
      apply Int.floor_eq_zero_iff.mpr
      constructor
      · exact div_nonneg (not_le.mp hle).le rule.lotSize_pos.le
      · exact (div_lt_one rule.lotSize_pos).mpr h
    rw [hlots, Int.cast_zero, zero_mul]

end AssetRule

/-- `FuturesRule` with the checks of `__post_init__`. -/
structure FuturesRule where
  multiplier : ℚ
  marginRate : ℚ
  multiplier_pos : 0 < multiplier := by norm_num
  marginRate_pos : 0 < marginRate := by norm_num
  marginRate_le_one : marginRate ≤ 1 := by norm_num

def aShareStock : AssetRule where
  lotSize := 100
  enforceTPlus1 := true
  stampTaxRate := 0.0005
  commissionRate := 0.0003
  commissionMin := 5
  priceLimitPct := some 0.10
  priceTick := 0.01
  priceLimitPct_pos := by simp; norm_num

def equityEtf : AssetRule where
  lotSize := 100
  enforceTPlus1 := true
  stampTaxRate := 0.0005
  commissionRate := 0.0003
  commissionMin := 5
  priceLimitPct := some 0.10
  priceTick := 0.001
  priceLimitPct_pos := by simp; norm_num

def crossBorderEtf : AssetRule where
  lotSize := 100
  enforceTPlus1 := false
  stampTaxRate := 0
  commissionRate := 0.0003
  commissionMin := 5
  priceLimitPct := some 0.10
  priceTick := 0.001
  priceLimitPct_pos := by simp; norm_num

def bondEtf : AssetRule where
  lotSize := 10
  enforceTPlus1 := true
  stampTaxRate := 0
  commissionRate := 0.00003
  commissionMin := 5
  priceLimitPct := none
  priceTick := 0.001

def moneyMarketEtf : AssetRule where
  lotSize := 100
  enforceTPlus1 := false
  stampTaxRate := 0
  commissionRate := 0
  commissionMin := 0
  priceLimitPct := none
  priceTick := 0.001

def convertibleBond : AssetRule where
  lotSize := 10
  enforceTPlus1 := false
  stampTaxRate := 0
  commissionRate := 0.0002
  commissionMin := 1
  priceLimitPct := some 0.20
  priceTick := 0.001
  priceLimitPct_pos := by simp; norm_num

/-- `DEFAULT_TABLE.futures_rules`; the first prefix that fits decides. -/
def futuresRules : List (String × FuturesRule) :=
  [("IF", { multiplier := 300, marginRate := 0.12 }),
   ("IC", { multiplier := 200, marginRate := 0.14 }),
   ("IH", { multiplier := 300, marginRate := 0.12 }),
   ("IM", { multiplier := 200, marginRate := 0.14 }),
   ("T", { multiplier := 10000, marginRate := 0.02 }),
   ("TF", { multiplier := 10000, marginRate := 0.012 }),
   ("TS", { multiplier := 20000, marginRate := 0.005 })]

def startsWith (code start : String) : Bool := start.toList.isPrefixOf code.toList

/-- `AssetRuleTable.resolve_futures` on the default table. -/
def resolveFutures (symbol : String) : Option FuturesRule :=
  (futuresRules.find? fun entry => startsWith symbol entry.1).map (·.2)

/-- A class rule with what the simulation needs about contracts. -/
structure SimulationAssetRule where
  key : String
  market : Market
  instrumentType : InstrumentType
  rule : AssetRule
  multiplier : ℚ := 1
  marginRate : ℚ := 0

def SimulationAssetRule.isFutures (rule : SimulationAssetRule) : Bool :=
  rule.instrumentType = .futures

def cashRules : List SimulationAssetRule :=
  [{ key := "a_share_stock", market := .aShare, instrumentType := .stock, rule := aShareStock },
   { key := "equity_etf", market := .aShare, instrumentType := .etf, rule := equityEtf },
   { key := "cross_border_etf", market := .aShare, instrumentType := .etf, rule := crossBorderEtf },
   { key := "bond_etf", market := .aShare, instrumentType := .etf, rule := bondEtf },
   { key := "money_market_etf", market := .aShare, instrumentType := .etf, rule := moneyMarketEtf },
   { key := "convertible", market := .aShare, instrumentType := .convertible,
     rule := convertibleBond }]

def futuresAssetRule (symbol : String) : AssetRule where
  lotSize := 1
  enforceTPlus1 := false
  stampTaxRate := 0
  commissionRate := 0.000023
  commissionMin := 0
  priceLimitPct := none
  priceTick := if ["T", "TF", "TS"].any (startsWith symbol) then 0.002 else 0.2
  priceTick_pos := by split_ifs <;> norm_num

/-- Why no rule applies. -/
inductive AssetRuleResolutionError
  | futuresOnly
  | unknownContract (symbol : String)
  | unregistered (key : String)
  | inconsistent (key : String) (market : Market) (instrumentType : InstrumentType)
  deriving DecidableEq, Repr

/-- The rule `resolve_simulation_rule` builds for a futures contract. -/
def futuresRule (symbol : String) (future : FuturesRule) : SimulationAssetRule where
  key := "futures"
  market := .future
  instrumentType := .futures
  rule := futuresAssetRule symbol
  multiplier := future.multiplier
  marginRate := future.marginRate

/-- `resolve_simulation_rule`: unknown keys and mismatches fail closed. -/
def resolveSimulationRule (key : String) (market : Market) (instrumentType : InstrumentType)
    (symbol : String) : Except AssetRuleResolutionError SimulationAssetRule :=
  if key = "futures" then
    if market ≠ .future ∨ instrumentType ≠ .futures then .error .futuresOnly
    else match resolveFutures symbol with
      | none => .error (.unknownContract symbol)
      | some future => .ok (futuresRule symbol future)
  else match cashRules.find? (fun rule => rule.key = key) with
    | none => .error (.unregistered key)
    | some rule =>
        if rule.market ≠ market ∨ rule.instrumentType ≠ instrumentType then
          .error (.inconsistent key market instrumentType)
        else .ok rule

section Resolution

variable {key symbol : String} {market : Market} {instrumentType : InstrumentType}
  {rule : SimulationAssetRule}

/-- A resolved rule is a contract of the table or an entry of the white list, of the class
that was asked for. -/
theorem resolve_cases (h : resolveSimulationRule key market instrumentType symbol = .ok rule) :
    (instrumentType = .futures ∧
        ∃ future, resolveFutures symbol = some future ∧ rule = futuresRule symbol future) ∨
      (rule ∈ cashRules ∧ rule.instrumentType = instrumentType) := by
  unfold resolveSimulationRule at h
  by_cases hkey : key = "futures"
  · rw [if_pos hkey] at h
    by_cases hclass : market ≠ .future ∨ instrumentType ≠ .futures
    · rw [if_pos hclass] at h
      cases h
    · rw [if_neg hclass] at h
      left
      refine ⟨not_not.mp (not_or.mp hclass).2, ?_⟩
      cases hfuture : resolveFutures symbol with
      | none =>
        rw [hfuture] at h
        cases h
      | some future =>
        rw [hfuture] at h
        exact ⟨future, rfl, (Except.ok.inj h).symm⟩
  · rw [if_neg hkey] at h
    right
    cases hfind : cashRules.find? (fun rule => rule.key = key) with
    | none =>
      rw [hfind] at h
      cases h
    | some found =>
      rw [hfind] at h
      by_cases hclass : found.market ≠ market ∨ found.instrumentType ≠ instrumentType
      · simp only [if_pos hclass] at h
        cases h
      · simp only [if_neg hclass] at h
        have heq := Except.ok.inj h
        rw [← heq]
        exact ⟨List.mem_of_find?_eq_some hfind, not_not.mp (not_or.mp hclass).2⟩

theorem instrumentType_of_resolve
    (h : resolveSimulationRule key market instrumentType symbol = .ok rule) :
    rule.instrumentType = instrumentType := by
  obtain ⟨hfutures, future, -, rfl⟩ | ⟨-, hclass⟩ := resolve_cases h
  · exact hfutures.symm
  · exact hclass

theorem multiplier_of_resolve (h : resolveSimulationRule key market instrumentType symbol = .ok rule)
    (hsecurity : instrumentType ≠ .futures) : rule.multiplier = 1 := by
  obtain ⟨hfutures, -⟩ | ⟨hmem, -⟩ := resolve_cases h
  · exact absurd hfutures hsecurity
  · have hface : ∀ entry ∈ cashRules, entry.multiplier = 1 := by simp [cashRules]
    exact hface rule hmem

theorem multiplier_pos_of_resolve
    (h : resolveSimulationRule key market instrumentType symbol = .ok rule) :
    0 < rule.multiplier ∧ 0 ≤ rule.marginRate := by
  obtain ⟨-, future, -, rfl⟩ | ⟨hmem, -⟩ := resolve_cases h
  · exact ⟨future.multiplier_pos, future.marginRate_pos.le⟩
  · have hface : ∀ entry ∈ cashRules, 0 < entry.multiplier ∧ 0 ≤ entry.marginRate := by
      simp [cashRules]
    exact hface rule hmem

end Resolution

end FinDashboard.Simulation
