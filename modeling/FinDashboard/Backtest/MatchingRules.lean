import FinDashboard.Simulation.Matching

/-!
# Rules of the backtest matching

The asset rules as the paper broker of a backtest uses them: they are resolved by market and
instrument type from a table, with the charges of the request in place of those of the rule, and
say whether short selling is allowed.
-/

namespace FinDashboard.Backtest

open Simulation (Bar Date FillTiming)

/-- `AssetRule` with the field only the paper broker reads. -/
structure AssetRule extends Simulation.AssetRule where
  allowShort : Bool := false

/-- `AssetRuleTable.rules`. -/
abbrev AssetRuleTable := List (Market × InstrumentType × AssetRule)

/-- Why no rule can be given: the class is not registered, or a constructor check fails. -/
inductive RuleError
  | resolution (market : Market) (instrumentType : InstrumentType)
  | value
  deriving DecidableEq, Repr

def AssetRuleTable.resolve (table : AssetRuleTable) (market : Market)
    (instrumentType : InstrumentType) : Except RuleError AssetRule :=
  match table.find? fun entry => entry.1 = market && entry.2.1 = instrumentType with
  | some entry => .ok entry.2.2
  | none => .error (.resolution market instrumentType)

theorem indexLot_pos : (0 : ℚ) < 1 := by norm_num

theorem indexTick_pos : (0 : ℚ) < 0.01 := by norm_num

theorem free_of_charge : (0 : ℚ) ≤ 0 := le_refl 0

theorem without_price_limit : ∀ pct ∈ (none : Option ℚ), 0 < pct := by simp

def indexRule : Simulation.AssetRule where
  lotSize := 1
  enforceTPlus1 := false
  stampTaxRate := 0
  commissionRate := 0
  commissionMin := 0
  priceLimitPct := none
  priceTick := 0.01
  lotSize_pos := indexLot_pos
  priceTick_pos := indexTick_pos
  commissionRate_nonneg := free_of_charge
  commissionMin_nonneg := free_of_charge
  stampTaxRate_nonneg := free_of_charge
  priceLimitPct_pos := without_price_limit

/-- `DEFAULT_TABLE.rules`. -/
def defaultTable : AssetRuleTable :=
  [(.aShare, .stock, { Simulation.aShareStock with }),
   (.aShare, .etf, { Simulation.equityEtf with }),
   (.aShare, .index, { indexRule with }),
   (.aShare, .convertible, { Simulation.convertibleBond with })]

/-- The charges of a rule, checked again as `replace` does. -/
def AssetRule.withCharges (rule : AssetRule) (commissionRate commissionMin stampTaxRate : ℚ) :
    Except RuleError AssetRule :=
  if h : 0 ≤ commissionRate ∧ 0 ≤ commissionMin ∧ 0 ≤ stampTaxRate then
    .ok { rule with commissionRate, commissionMin, stampTaxRate,
                    commissionRate_nonneg := h.1, commissionMin_nonneg := h.2.1,
                    stampTaxRate_nonneg := h.2.2 }
  else .error .value

/-- `resolve_rule_from_overrides`: the rule and the slippage of the request. -/
def resolveRuleFromOverrides (table : AssetRuleTable) (market : Market)
    (instrumentType : InstrumentType)
    (commissionRate commissionMin stampTaxRate slippageBps : Option ℚ) :
    Except RuleError (AssetRule × ℚ) := do
  let base ← table.resolve market instrumentType
  let rule ← base.withCharges (commissionRate.getD base.commissionRate)
    (commissionMin.getD base.commissionMin) (stampTaxRate.getD base.stampTaxRate)
  return (rule, slippageBps.getD 0)

/-- `fill_quantity_within_participation`; without a rate the volume alone limits. -/
def fillQuantityWithinParticipation (requestedQty barVolume : ℚ) (maxParticipation : Option ℚ) : ℚ :=
  if requestedQty ≤ 0 then 0
  else
    let cap := match maxParticipation with
      | some rate => if 0 ≤ rate then min requestedQty (rate * barVolume) else requestedQty
      | none => requestedQty
    if 0 < barVolume then min cap barVolume else cap

structure MatchingModel where
  fillTiming : FillTiming := .nextBarOpen
  nextBarOnly : Bool := true
  maxParticipation : Option ℚ := none
  allowPartialFill : Bool := true
  honourGaps : Bool := true
  enforceSuspension : Bool := true
  enforcePriceLimit : Bool := true
  enforceLotRounding : Bool := true

/-- The arguments of `BacktestBroker`; the resolver is the injected `InstrumentResolver`. -/
structure BrokerConfig where
  initialCapital : ℚ := 100000
  matchingModel : MatchingModel := {}
  assetRules : Option AssetRuleTable := none
  resolver : String → Market × InstrumentType
  commissionRate : Option ℚ := none
  commissionMin : Option ℚ := none
  stampTaxRate : Option ℚ := none
  slippageBps : Option ℚ := none
  lotSize : Option ℤ := none
  allowShort : Bool := false
  enforceTPlus1 : Bool := true

/-- The `or` of the source: a missing and a zero value both give the default. -/
def orDefault {α : Type} [Zero α] [DecidableEq α] (value : Option α) (default : α) : α :=
  match value with
  | none => default
  | some given => if given = 0 then default else given

/-- The rule built where the default table knows no rule. -/
def legacyRule (config : BrokerConfig) : Except RuleError AssetRule :=
  let lotSize : ℚ := orDefault config.lotSize 100
  if h : 0 < lotSize then
    AssetRule.withCharges
      { lotSize, enforceTPlus1 := config.enforceTPlus1, stampTaxRate := 0, commissionRate := 0,
        commissionMin := 0, priceLimitPct := none, priceTick := 0.01,
        allowShort := config.allowShort, lotSize_pos := h, priceTick_pos := indexTick_pos,
        commissionRate_nonneg := free_of_charge, commissionMin_nonneg := free_of_charge,
        stampTaxRate_nonneg := free_of_charge, priceLimitPct_pos := without_price_limit }
      (orDefault config.commissionRate 0.0003) (orDefault config.commissionMin 5)
      (orDefault config.stampTaxRate 0.0005)
  else .error .value

/-- `_resolve_rule`: without a table of its own the broker falls back to the old arguments. -/
def BrokerConfig.resolveRule (config : BrokerConfig) (code : String) : Except RuleError (AssetRule × ℚ) :=
  let (market, instrumentType) := config.resolver code
  match resolveRuleFromOverrides (config.assetRules.getD defaultTable) market instrumentType
      config.commissionRate config.commissionMin config.stampTaxRate config.slippageBps with
  | .error (.resolution market instrumentType) =>
      if config.assetRules.isSome then .error (.resolution market instrumentType)
      else (legacyRule config).map fun rule => (rule, orDefault config.slippageBps 0)
  | result => result

section ShortSelling

variable {rule charged : AssetRule} {table : AssetRuleTable} {market : Market}
  {instrumentType : InstrumentType} {slippageBps : ℚ}

/-- The charges do not decide about short selling. -/
theorem allowShort_of_withCharges {commissionRate commissionMin stampTaxRate : ℚ}
    (h : rule.withCharges commissionRate commissionMin stampTaxRate = .ok charged) :
    charged.allowShort = rule.allowShort := by
  unfold AssetRule.withCharges at h
  split_ifs at h
  rw [← Except.ok.inj h]

theorem mem_of_resolve (h : table.resolve market instrumentType = .ok rule) :
    ∃ entry ∈ table, entry.2.2 = rule := by
  unfold AssetRuleTable.resolve at h
  cases hfind : table.find? (fun entry => entry.1 = market && entry.2.1 = instrumentType) with
  | none =>
    rw [hfind] at h
    cases h
  | some entry =>
    rw [hfind] at h
    exact ⟨entry, List.mem_of_find?_eq_some hfind, Except.ok.inj h⟩

theorem mem_of_resolveRuleFromOverrides {commissionRate commissionMin stampTaxRate bps : Option ℚ}
    (h : resolveRuleFromOverrides table market instrumentType commissionRate commissionMin
      stampTaxRate bps = .ok (rule, slippageBps)) :
    ∃ entry ∈ table, rule.allowShort = entry.2.2.allowShort := by
  unfold resolveRuleFromOverrides at h
  cases hbase : table.resolve market instrumentType with
  | error error =>
    rw [hbase] at h
    cases h
  | ok base =>
    obtain ⟨entry, hentry, rfl⟩ := mem_of_resolve hbase
    rw [hbase] at h
    cases hcharges : entry.2.2.withCharges (commissionRate.getD entry.2.2.commissionRate)
        (commissionMin.getD entry.2.2.commissionMin)
        (stampTaxRate.getD entry.2.2.stampTaxRate) with
    | error error =>
      simp only [bind, Except.bind, hcharges] at h
      cases h
    | ok charged =>
      simp only [bind, Except.bind, hcharges] at h
      have hsame := (Prod.mk.inj (Except.ok.inj h)).1
      rw [← hsame]
      exact ⟨entry, hentry, allowShort_of_withCharges hcharges⟩

theorem allowShort_of_legacyRule {config : BrokerConfig} (h : legacyRule config = .ok rule) :
    rule.allowShort = config.allowShort := by
  unfold legacyRule at h
  simp only at h
  split_ifs at h
  rw [allowShort_of_withCharges h]

end ShortSelling

/-- `_DefaultInstrumentResolver`; only the marks of the two other markets are looked for. -/
def defaultResolver (code : String) : Market × InstrumentType :=
  let upper := code.toList.map Char.toUpper
  if upper.tails.any (['.', 'H', 'K'].isPrefixOf ·) then (.hk, .stock)
  else if upper.tails.any (['.', 'U', 'S'].isPrefixOf ·) then (.us, .stock)
  else (.aShare, .stock)

end FinDashboard.Backtest
