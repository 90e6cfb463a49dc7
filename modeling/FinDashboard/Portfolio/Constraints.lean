import FinDashboard.Ledger.Totals
import Mathlib.Algebra.BigOperators.Ring.List
import Mathlib.Data.Sign.Basic
import Mathlib.Tactic.FieldSimp
import Mathlib.Tactic.Linarith
import Mathlib.Tactic.Positivity

/-!
# Portfolio constraints

The caps on single assets, on sleeves and on the whole are applied one after the other, by clipping and
by scaling down. Every stage moves the weights towards zero, so that no stage breaks the cap of an
earlier one.
-/

namespace FinDashboard.Portfolio

open List

open Ledger (find total)

/-- A dictionary from symbols to weights. -/
@[ext]
structure Weights (K : Type) where
  entries : List (String × K)
  nodup : (entries.map Prod.fst).Nodup
deriving DecidableEq

/-- The weight `after` lies between zero and the weight `before`. -/
def Shrunk {K : Type} [Zero K] [LE K] (before after : K) : Prop :=
  (0 ≤ after ∧ after ≤ before) ∨ (before ≤ after ∧ after ≤ 0)

namespace Weights

variable {K : Type}

def update (f : String → K → K) (weights : Weights K) : Weights K where
  entries := weights.entries.map fun entry => (entry.1, f entry.1 entry.2)
  nodup := by simpa [Function.comp_def] using weights.nodup

/-- The symbols whose weights pass a test. -/
def filter (keep : K → Bool) (weights : Weights K) : Weights K where
  entries := weights.entries.filter fun entry => keep entry.2
  nodup := weights.nodup.sublist (filter_sublist.map Prod.fst)

/-- The entries in the order of their symbols. -/
def sorted (weights : Weights K) : List (String × K) :=
  weights.entries.insertionSort fun entry other => entry.1 ≤ other.1

/-- `weights.get(code, 0)`. -/
def get [Zero K] (weights : Weights K) (code : String) : K := (find code weights.entries).getD 0

/-- The sum of the absolute weights of some symbols. -/
def exposure [AddCommGroup K] [Lattice K] (counts : String → Bool) (weights : Weights K) : K :=
  total (fun entry => |entry.2|) (weights.entries.filter fun entry => counts entry.1)

/-- `gross_exposure`. -/
def gross [AddCommGroup K] [Lattice K] (weights : Weights K) : K := weights.exposure fun _ => true

/-- `net_exposure`. -/
def net [AddCommMonoid K] (weights : Weights K) : K := total Prod.snd weights.entries

/-- `weights.pop(code, None)`. -/
def remove (code : String) (weights : Weights K) : Weights K where
  entries := Ledger.remove code weights.entries
  nodup := weights.nodup.sublist ((Ledger.remove_sublist code weights.entries).map Prod.fst)

end Weights

/-- `PortfolioConstraints`: the caps that are applied to weights. -/
structure PortfolioConstraints (K : Type) [Field K] [LinearOrder K] where
  maxWeightPerAsset : K := 25 / 100
  maxWeightPerSleeve : K := 40 / 100
  minCashBuffer : K := 5 / 100
  maxLeverage : K := 1
  longOnly : Bool := true
  asset_pos : 0 < maxWeightPerAsset
  asset_le_one : maxWeightPerAsset ≤ 1
  sleeve_pos : 0 < maxWeightPerSleeve
  sleeve_le_one : maxWeightPerSleeve ≤ 1
  cash_nonneg : 0 ≤ minCashBuffer
  cash_lt_one : minCashBuffer < 1
  one_le_leverage : 1 ≤ maxLeverage

structure AllocationContext where
  sleeveMap : List (String × String) := []
  disabledSymbols : List String := []

structure ConstraintAdjustment (K : Type) where
  constraint : String
  symbol : Option String
  beforeValue : K
  afterValue : K
  limit : Option K
  passed : Bool
  reason : String
deriving DecidableEq

structure ConstraintApplication (K : Type) where
  weights : Weights K
  adjustments : List (ConstraintAdjustment K)

section Stages

variable {K : Type} [Field K] [LinearOrder K]

def maxWeightEpsilon : K := ((10 ^ 9 : ℕ) : K)⁻¹

def PortfolioConstraints.maxInvestableWeight (constraints : PortfolioConstraints K) : K :=
  if constraints.maxLeverage ≤ 1 + maxWeightEpsilon then max 0 (1 - constraints.minCashBuffer)
  else constraints.maxLeverage

/-- A symbol without an entry is a sleeve of its own. -/
def AllocationContext.sleeveFor (context : AllocationContext) (code : String) : String :=
  (find code context.sleeveMap).getD s!"unclassified:{code}"

variable (constraints : PortfolioConstraints K) (context : AllocationContext)

def investable (code : String) (before : K) : K :=
  if code ∈ context.disabledSymbols then 0
  else if constraints.longOnly = true ∧ before < 0 then 0
  else before

def investableRow (code : String) (before : K) : ConstraintAdjustment K where
  constraint := "investable_universe"
  symbol := some code
  beforeValue := before
  afterValue := investable constraints context code before
  limit := if investable constraints context code before = 0 ∧ before ≠ 0 then some 0 else none
  passed := |before - investable constraints context code before| ≤ maxWeightEpsilon
  reason :=
    if code ∈ context.disabledSymbols then "标的已禁用"
    else if constraints.longOnly = true ∧ before < 0 then "long_only 禁止负目标权重"
    else "标的可参与组合决策"

def clipped (before : K) : K :=
  (SignType.sign before : K) * min |before| constraints.maxWeightPerAsset

def clippedRow (code : String) (before : K) : ConstraintAdjustment K where
  constraint := "max_weight_per_asset"
  symbol := some code
  beforeValue := |before|
  afterValue := |clipped constraints before|
  limit := some constraints.maxWeightPerAsset
  passed := |before| ≤ constraints.maxWeightPerAsset + maxWeightEpsilon
  reason := "单标的绝对权重截断"

/-- The members of a sleeve above its cap are scaled to it. -/
def capSleeve (sleeve : String) (adjusted : Weights K) : Weights K × ConstraintAdjustment K :=
  let before := adjusted.exposure fun code => context.sleeveFor code = sleeve
  let above := constraints.maxWeightPerSleeve + maxWeightEpsilon < before
  let scale := constraints.maxWeightPerSleeve / before
  (if above then
      adjusted.update fun code weight => if context.sleeveFor code = sleeve then weight * scale else weight
    else adjusted,
    { constraint := "max_weight_per_sleeve"
      symbol := some sleeve
      beforeValue := before
      afterValue := if above then constraints.maxWeightPerSleeve else before
      limit := some constraints.maxWeightPerSleeve
      passed := before ≤ constraints.maxWeightPerSleeve + maxWeightEpsilon
      reason := s!"sleeve={sleeve} 绝对权重合计" })

def capSleeves : List String → Weights K → Weights K × List (ConstraintAdjustment K)
  | [], adjusted => (adjusted, [])
  | sleeve :: rest, adjusted =>
      let capped := capSleeve constraints context sleeve adjusted
      let later := capSleeves rest capped.1
      (later.1, capped.2 :: later.2)

def sleeveNames (adjusted : Weights K) : List String :=
  (adjusted.entries.map fun entry => context.sleeveFor entry.1).dedup.insertionSort (· ≤ ·)

def capGross (adjusted : Weights K) : Weights K × ConstraintAdjustment K :=
  let before := adjusted.exposure fun _ => true
  let gross := constraints.maxInvestableWeight
  let above := gross + maxWeightEpsilon < before
  (if above then adjusted.update fun _ weight => weight * (gross / before) else adjusted,
    { constraint := "gross_leverage"
      symbol := none
      beforeValue := before
      afterValue := if above then gross else before
      limit := some gross
      passed := before ≤ gross + maxWeightEpsilon
      reason := "实际 gross exposure 不得超过杠杆/现金共同上限" })

def applyPortfolioConstraints (weights : Weights K) : ConstraintApplication K :=
  if weights.entries = [] then { weights, adjustments := [] }
  else
    let invested := weights.update (investable constraints context)
    let capped := invested.update fun _ => clipped constraints
    let sleeves := capSleeves constraints context (sleeveNames context capped) capped
    let gross := capGross constraints sleeves.1
    { weights := gross.1.filter fun weight => maxWeightEpsilon < |weight|
      adjustments :=
        (weights.sorted.map fun entry => investableRow constraints context entry.1 entry.2) ++
        (invested.sorted.map fun entry => clippedRow constraints entry.1 entry.2) ++
        sleeves.2 ++ [gross.2] }

end Stages

/-- Where a target comes from; dates by their ordinals. -/
structure TargetOrigin where
  asOf : ℤ
  strategyId : String
  contractVersion : String := "v2"
  factorSnapshotId : Option String := none
  covarianceVersion : Option String := none
deriving DecidableEq

inductive TargetError
  | cashBuffer
  | maxLeverage
  | emptyCode
  | negativeWeight
  | grossExposure
  | funding
deriving DecidableEq, Repr

/-- The first entry without a code, or with a negative weight where that is not allowed. -/
def entryError {K : Type} [Zero K] [LinearOrder K] (longOnly : Bool) : List (String × K) → Option TargetError
  | [] => none
  | entry :: rest =>
      if entry.1 = "" then some .emptyCode
      else if longOnly = true ∧ entry.2 < 0 then some .negativeWeight
      else entryError longOnly rest

structure TargetWeight (K : Type) [Field K] [LinearOrder K] where
  weights : Weights K
  origin : TargetOrigin
  cashBuffer : K
  maxLeverage : K
  longOnly : Bool
  cash_bounds : 0 ≤ cashBuffer ∧ cashBuffer ≤ 1
  one_le_leverage : 1 ≤ maxLeverage
  entries_sound : entryError longOnly weights.entries = none
  gross_le : weights.gross ≤ maxLeverage + maxWeightEpsilon
  funded : longOnly = true → maxLeverage ≤ 1 + maxWeightEpsilon →
    weights.net + cashBuffer ≤ 1 + maxWeightEpsilon

theorem no_buffer : (0 : ℚ) ≤ 0 ∧ (0 : ℚ) ≤ 1 := by norm_num

theorem unlevered : (1 : ℚ) ≤ 1 := le_refl 1

/-- `TargetWeight.__post_init__`. -/
def TargetWeight.create {K : Type} [Field K] [LinearOrder K] (weights : Weights K) (origin : TargetOrigin)
    (cashBuffer maxLeverage : K) (longOnly : Bool) : Except TargetError (TargetWeight K) :=
  if cash_bounds : 0 ≤ cashBuffer ∧ cashBuffer ≤ 1 then
    if one_le_leverage : 1 ≤ maxLeverage then
      match entries_sound : entryError longOnly weights.entries with
      | some error => .error error
      | none =>
        if gross_le : weights.gross ≤ maxLeverage + maxWeightEpsilon then
          if funded : longOnly = true → maxLeverage ≤ 1 + maxWeightEpsilon →
              weights.net + cashBuffer ≤ 1 + maxWeightEpsilon then
            .ok { weights, origin, cashBuffer, maxLeverage, longOnly, cash_bounds, one_le_leverage
                  entries_sound, gross_le, funded }
          else .error .funding
        else .error .grossExposure
    else .error .maxLeverage
  else .error .cashBuffer

namespace Shrunk

variable {K : Type} [Zero K] [LinearOrder K] {before middle after : K}

theorem refl (value : K) : Shrunk value value :=
  (le_total 0 value).imp (fun nonneg => ⟨nonneg, le_refl _⟩) fun nonpos => ⟨le_refl _, nonpos⟩

theorem zero (value : K) : Shrunk value 0 :=
  (le_total 0 value).imp (fun nonneg => ⟨le_refl _, nonneg⟩) fun nonpos => ⟨nonpos, le_refl _⟩

theorem of_eq_or_zero (same : after = before ∨ after = 0) : Shrunk before after := by
  rcases same with rfl | rfl
  · exact refl after
  · exact zero before

theorem trans (first : Shrunk before middle) (second : Shrunk middle after) : Shrunk before after := by
  rcases first with ⟨nonneg, below⟩ | ⟨above, nonpos⟩
  · rcases second with ⟨nonneg', below'⟩ | ⟨above', nonpos'⟩
    · exact Or.inl ⟨nonneg', below'.trans below⟩
    · exact of_eq_or_zero (Or.inr (le_antisymm nonpos' (nonneg.trans above')))
  · rcases second with ⟨nonneg', below'⟩ | ⟨above', nonpos'⟩
    · exact of_eq_or_zero (Or.inr (le_antisymm (below'.trans nonpos) nonneg'))
    · exact Or.inr ⟨above.trans above', nonpos'⟩

theorem of_zero (shrunk : Shrunk 0 after) : after = 0 := by
  rcases shrunk with ⟨nonneg, below⟩ | ⟨above, nonpos⟩
  · exact le_antisymm below nonneg
  · exact le_antisymm nonpos above

end Shrunk

section Field

variable {K : Type} [Field K] [LinearOrder K] [IsStrictOrderedRing K]

theorem Shrunk.abs_le {before after : K} (shrunk : Shrunk before after) : |after| ≤ |before| := by
  rcases shrunk with ⟨nonneg, below⟩ | ⟨above, nonpos⟩
  · rw [abs_of_nonneg nonneg, abs_of_nonneg (nonneg.trans below)]
    exact below
  · rw [abs_of_nonpos nonpos, abs_of_nonpos (above.trans nonpos)]
    exact neg_le_neg above

theorem Shrunk.scaled {scale : K} (nonneg : 0 ≤ scale) (le_one : scale ≤ 1) (value : K) :
    Shrunk value (value * scale) := by
  rcases le_total 0 value with positive | negative
  · exact Or.inl ⟨mul_nonneg positive nonneg, mul_le_of_le_one_right positive le_one⟩
  · have below := mul_le_of_le_one_right (neg_nonneg.mpr negative) le_one
    rw [neg_mul] at below
    exact Or.inr ⟨neg_le_neg_iff.mp below, mul_nonpos_of_nonpos_of_nonneg negative nonneg⟩

theorem maxWeightEpsilon_pos : 0 < (maxWeightEpsilon : K) := by
  unfold maxWeightEpsilon
  positivity

end Field

variable {code : String}

namespace Weights

section Get

variable {K : Type} {f : String → K → K} {weights : Weights K}

theorem update_self (same : ∀ entry ∈ weights.entries, f entry.1 entry.2 = entry.2) :
    weights.update f = weights := by
  ext1
  calc
    weights.entries.map (fun entry => (entry.1, f entry.1 entry.2)) = weights.entries.map id :=
      map_congr_left fun entry member => by rw [same entry member, id]
    _ = weights.entries := map_id _

theorem filter_self {keep : K → Bool} (kept : ∀ entry ∈ weights.entries, keep entry.2 = true) :
    weights.filter keep = weights := by
  ext1
  exact filter_eq_self.mpr kept

variable [Zero K] {entry : String × K}

theorem get_of_mem (member : entry ∈ weights.entries) : weights.get entry.1 = entry.2 := by
  rw [get, Ledger.find_of_mem weights.nodup member, Option.getD_some]

theorem get_of_not_mem (unlisted : code ∉ weights.entries.map Prod.fst) : weights.get code = 0 := by
  unfold get
  cases found : find code weights.entries with
  | none => rfl
  | some value => exact absurd (mem_map_of_mem (Ledger.mem_of_find found)) unlisted

theorem get_update (zero : ∀ code, f code 0 = 0) (weights : Weights K) (code : String) :
    (weights.update f).get code = f code (weights.get code) := by
  obtain ⟨entries, nodup⟩ := weights
  unfold get
  change (find code (entries.map fun entry => (entry.1, f entry.1 entry.2))).getD 0 =
    f code ((find code entries).getD 0)
  clear nodup
  induction entries with
  | nil => simp [find, zero]
  | cons entry rest ih =>
    simp only [find, map_cons] at ih ⊢
    by_cases same : entry.1 = code
    · simp [same]
    · simpa [same] using ih

theorem get_filter (keep : K → Bool) (weights : Weights K) (code : String) :
    (weights.filter keep).get code = weights.get code ∨ (weights.filter keep).get code = 0 := by
  by_cases listed : code ∈ (weights.filter keep).entries.map Prod.fst
  · obtain ⟨entry, member, rfl⟩ := mem_map.mp listed
    have original := mem_of_mem_filter member
    exact Or.inl ((get_of_mem member).trans (get_of_mem original).symm)
  · exact Or.inr (get_of_not_mem listed)

theorem get_remove (symbol code : String) (weights : Weights K) :
    (weights.remove symbol).get code = if code = symbol then 0 else weights.get code := by
  simp only [get, remove, Ledger.find_remove]
  split <;> rfl

end Get

section Exposure

variable {K : Type} [Field K] [LinearOrder K] {counts : String → Bool} {f : String → K → K}
  {weights : Weights K}

theorem exposure_update (counts : String → Bool) (f : String → K → K) (weights : Weights K) :
    (weights.update f).exposure counts =
      total (fun entry => |f entry.1 entry.2|) (weights.entries.filter fun entry => counts entry.1) := by
  simp [exposure, update, filter_map, Function.comp_def, total]

theorem exposure_eq_zero (uncounted : ∀ entry ∈ weights.entries, counts entry.1 = false) :
    weights.exposure counts = 0 := by
  have none : weights.entries.filter (fun entry => counts entry.1) = [] := by
    apply filter_eq_nil_iff.mpr
    intro entry member
    simp [uncounted entry member]
  rw [exposure, none, Ledger.total_nil]

variable [IsStrictOrderedRing K]

theorem exposure_nonneg (counts : String → Bool) (weights : Weights K) : 0 ≤ weights.exposure counts :=
  Ledger.total_nonneg fun entry _ => abs_nonneg entry.2

theorem exposure_update_le (shrinks : ∀ code weight, Shrunk weight (f code weight))
    (counts : String → Bool) (weights : Weights K) :
    (weights.update f).exposure counts ≤ weights.exposure counts := by
  rw [exposure_update]
  exact Ledger.total_le_total fun entry _ => (shrinks entry.1 entry.2).abs_le

theorem exposure_scaled {scale : K} (nonneg : 0 ≤ scale)
    (scales : ∀ code weight, counts code = true → f code weight = weight * scale) (weights : Weights K) :
    (weights.update f).exposure counts = weights.exposure counts * scale := by
  rw [exposure_update]
  unfold exposure total
  rw [← sum_map_mul_right]
  congr 1
  apply map_congr_left
  intro entry member
  have counted := (mem_filter.mp member).2
  rw [scales entry.1 entry.2 counted, abs_mul, abs_of_nonneg nonneg]

theorem exposure_le_of_sublist {fewer weights : Weights K} (sublist : fewer.entries.Sublist weights.entries)
    (counts : String → Bool) : fewer.exposure counts ≤ weights.exposure counts := by
  have fewerWeights : ((fewer.entries.filter fun entry => counts entry.1).map
      fun entry => |entry.2|).Sublist
      ((weights.entries.filter fun entry => counts entry.1).map fun entry => |entry.2|) :=
    (sublist.filter _).map _
  apply fewerWeights.sum_le_sum
  intro value member
  obtain ⟨entry, -, rfl⟩ := mem_map.mp member
  exact abs_nonneg entry.2

theorem exposure_filter_le (keep : K → Bool) (counts : String → Bool) (weights : Weights K) :
    (weights.filter keep).exposure counts ≤ weights.exposure counts :=
  exposure_le_of_sublist filter_sublist counts

end Exposure

end Weights

/-- Every weight lies between zero and what it was, and no exposure grows. -/
structure Below {K : Type} [Field K] [LinearOrder K] (before after : Weights K) : Prop where
  weight : ∀ code, Shrunk (before.get code) (after.get code)
  exposure : ∀ counts, after.exposure counts ≤ before.exposure counts

/-- No symbol is new, and no weight is larger. -/
structure Reduced {K : Type} [Field K] [LinearOrder K] (before after : Weights K) : Prop where
  symbols : ∀ symbol ∈ after.entries.map Prod.fst, symbol ∈ before.entries.map Prod.fst
  below : Below before after

/-- The caps hold together. -/
structure Constrained {K : Type} [Field K] [LinearOrder K] (constraints : PortfolioConstraints K)
    (context : AllocationContext) (weights : Weights K) : Prop where
  enabled : ∀ code ∈ context.disabledSymbols, weights.get code = 0
  longOnly : constraints.longOnly = true → ∀ code, 0 ≤ weights.get code
  asset : ∀ code, |weights.get code| ≤ constraints.maxWeightPerAsset
  sleeve : ∀ sleeve, weights.exposure (fun code => context.sleeveFor code = sleeve) ≤
    constraints.maxWeightPerSleeve + maxWeightEpsilon
  gross : weights.exposure (fun _ => true) ≤ constraints.maxInvestableWeight + maxWeightEpsilon

section Rules

variable {K : Type} [Field K] [LinearOrder K] {constraints : PortfolioConstraints K}
  {context : AllocationContext} {before middle after : Weights K}

namespace Below

theorem refl (weights : Weights K) : Below weights weights :=
  ⟨fun _ => Shrunk.refl _, fun _ => le_refl _⟩

theorem trans (first : Below before middle) (second : Below middle after) : Below before after :=
  ⟨fun code => (first.weight code).trans (second.weight code),
    fun counts => (second.exposure counts).trans (first.exposure counts)⟩

theorem nonneg (below : Below before after) (nonneg : 0 ≤ before.get code) : 0 ≤ after.get code := by
  rcases below.weight code with ⟨positive, -⟩ | ⟨above, -⟩
  · exact positive
  · exact nonneg.trans above

theorem of_zero (below : Below before after) (nothing : before.get code = 0) : after.get code = 0 := by
  have shrunk := below.weight code
  rw [nothing] at shrunk
  exact shrunk.of_zero

end Below

theorem Reduced.refl (weights : Weights K) : Reduced weights weights :=
  ⟨fun _ member => member, Below.refl weights⟩

theorem Reduced.trans (first : Reduced before middle) (second : Reduced middle after) :
    Reduced before after :=
  ⟨fun symbol member => first.symbols symbol (second.symbols symbol member), first.below.trans second.below⟩

theorem investable_shrunk (constraints : PortfolioConstraints K) (context : AllocationContext)
    (code : String) (weight : K) : Shrunk weight (investable constraints context code weight) := by
  apply Shrunk.of_eq_or_zero
  unfold investable
  split_ifs <;> simp

theorem capSleeves_self {weights : Weights K} (constrained : Constrained constraints context weights)
    (sleeves : List String) : (capSleeves constraints context sleeves weights).1 = weights := by
  induction sleeves with
  | nil => rfl
  | cons sleeve rest ih =>
    have within : ¬constraints.maxWeightPerSleeve + maxWeightEpsilon <
        weights.exposure fun code => context.sleeveFor code = sleeve :=
      not_lt.mpr (constrained.sleeve sleeve)
    have same : (capSleeve constraints context sleeve weights).1 = weights := by
      simp only [capSleeve, within, if_false]
    rw [capSleeves, same]
    exact ih

theorem applied_traded (constraints : PortfolioConstraints K) (context : AllocationContext)
    (weights : Weights K) :
    ∀ entry ∈ (applyPortfolioConstraints constraints context weights).weights.entries,
      maxWeightEpsilon < |entry.2| := by
  intro entry member
  unfold applyPortfolioConstraints at member
  by_cases empty : weights.entries = []
  · rw [if_pos empty, empty] at member
    cases member
  · rw [if_neg empty] at member
    exact of_decide_eq_true (mem_filter.mp member).2

variable [IsStrictOrderedRing K]

theorem Below.update {f : String → K → K} (shrinks : ∀ code weight, Shrunk weight (f code weight))
    (weights : Weights K) : Below weights (weights.update f) := by
  constructor
  · intro code
    rw [Weights.get_update fun code => (shrinks code 0).of_zero]
    exact shrinks code _
  · exact fun counts => Weights.exposure_update_le shrinks counts weights

theorem Below.filter (keep : K → Bool) (weights : Weights K) : Below weights (weights.filter keep) := by
  constructor
  · exact fun code => Shrunk.of_eq_or_zero (weights.get_filter keep code)
  · exact fun counts => weights.exposure_filter_le keep counts

theorem Reduced.filter (keep : K → Bool) (weights : Weights K) : Reduced weights (weights.filter keep) :=
  ⟨fun _ member => (filter_sublist.map Prod.fst).subset member, Below.filter keep weights⟩

theorem Reduced.update {f : String → K → K} (shrinks : ∀ code weight, Shrunk weight (f code weight))
    (weights : Weights K) : Reduced weights (weights.update f) := by
  refine ⟨fun symbol member => ?_, Below.update shrinks weights⟩
  simpa [Weights.update, Function.comp_def] using member

theorem Reduced.remove (symbol : String) (weights : Weights K) : Reduced weights (weights.remove symbol) := by
  have sublist := Ledger.remove_sublist symbol weights.entries
  refine ⟨fun _ member => (sublist.map Prod.fst).subset member, ?_, Weights.exposure_le_of_sublist sublist⟩
  intro code
  rw [Weights.get_remove]
  split
  · exact Shrunk.zero _
  · exact Shrunk.refl _

theorem clipped_self {weight : K} (within : |weight| ≤ constraints.maxWeightPerAsset) :
    clipped constraints weight = weight := by
  rw [clipped, min_eq_left within, sign_mul_abs]

theorem abs_clipped (constraints : PortfolioConstraints K) (weight : K) :
    |clipped constraints weight| ≤ constraints.maxWeightPerAsset := by
  have nonneg := le_min (abs_nonneg weight) constraints.asset_pos.le
  unfold clipped
  rcases lt_trichotomy weight 0 with negative | nothing | positive
  · rw [sign_neg negative]
    simp [abs_of_nonneg nonneg]
  · simp [nothing, constraints.asset_pos.le]
  · rw [sign_pos positive]
    simp [abs_of_nonneg nonneg]

theorem clipped_shrunk (constraints : PortfolioConstraints K) (weight : K) :
    Shrunk weight (clipped constraints weight) := by
  rcases lt_trichotomy weight 0 with negative | nothing | positive
  · have small : min |weight| constraints.maxWeightPerAsset ≤ -weight :=
      (min_le_left _ _).trans_eq (abs_of_neg negative)
    have nonneg := le_min (abs_nonneg weight) constraints.asset_pos.le
    right
    simp only [clipped, sign_neg negative, SignType.coe_neg, SignType.coe_one, neg_mul, one_mul]
    exact ⟨by linarith, by linarith⟩
  · simp [clipped, nothing, Shrunk.refl]
  · have small : min |weight| constraints.maxWeightPerAsset ≤ weight :=
      (min_le_left _ _).trans_eq (abs_of_pos positive)
    have nonneg := le_min (abs_nonneg weight) constraints.asset_pos.le
    left
    simp only [clipped, sign_pos positive, SignType.coe_one, one_mul]
    exact ⟨nonneg, small⟩

theorem share_of_cap {cap total : K} (nonneg : 0 ≤ cap) (above : cap + maxWeightEpsilon < total) :
    0 ≤ cap / total ∧ cap / total ≤ 1 ∧ total * (cap / total) = cap := by
  have epsilon := maxWeightEpsilon_pos (K := K)
  have positive : 0 < total := by linarith
  refine ⟨div_nonneg nonneg positive.le, ?_, mul_div_cancel₀ cap positive.ne'⟩
  rw [div_le_one positive]
  linarith

theorem capSleeve_below (sleeve : String) (adjusted : Weights K) :
    Below adjusted (capSleeve constraints context sleeve adjusted).1 := by
  unfold capSleeve
  by_cases above : constraints.maxWeightPerSleeve + maxWeightEpsilon <
      adjusted.exposure fun code => context.sleeveFor code = sleeve
  · obtain ⟨nonneg, le_one, -⟩ := share_of_cap constraints.sleeve_pos.le above
    simp only [above, if_true]
    apply Below.update
    intro code weight
    split_ifs
    · exact Shrunk.scaled nonneg le_one weight
    · exact Shrunk.refl weight
  · simp only [above, if_false]
    exact Below.refl adjusted

theorem capSleeve_within (sleeve : String) (adjusted : Weights K) :
    (capSleeve constraints context sleeve adjusted).1.exposure
        (fun code => context.sleeveFor code = sleeve) ≤
      constraints.maxWeightPerSleeve + maxWeightEpsilon := by
  unfold capSleeve
  by_cases above : constraints.maxWeightPerSleeve + maxWeightEpsilon <
      adjusted.exposure fun code => context.sleeveFor code = sleeve
  · obtain ⟨nonneg, -, share⟩ := share_of_cap constraints.sleeve_pos.le above
    simp only [above, if_true]
    rw [Weights.exposure_scaled nonneg, share]
    · linarith [maxWeightEpsilon_pos (K := K)]
    · intro code weight member
      rw [if_pos (of_decide_eq_true member)]
  · simp only [above, if_false]
    exact not_lt.mp above

theorem capSleeves_below (constraints : PortfolioConstraints K) (context : AllocationContext)
    (sleeves : List String) (adjusted : Weights K) :
    Below adjusted (capSleeves constraints context sleeves adjusted).1 := by
  induction sleeves generalizing adjusted with
  | nil => exact Below.refl adjusted
  | cons sleeve rest ih => exact (capSleeve_below sleeve adjusted).trans (ih _)

theorem capSleeves_within {sleeves : List String} {sleeve : String} (listed : sleeve ∈ sleeves)
    (adjusted : Weights K) : (capSleeves constraints context sleeves adjusted).1.exposure
        (fun code => context.sleeveFor code = sleeve) ≤
      constraints.maxWeightPerSleeve + maxWeightEpsilon := by
  induction sleeves generalizing adjusted with
  | nil => cases listed
  | cons first rest ih =>
    rcases mem_cons.mp listed with rfl | later
    · exact ((capSleeves_below constraints context rest _).exposure _).trans (capSleeve_within sleeve adjusted)
    · exact ih later _

theorem sleeves_within (adjusted : Weights K) (sleeve : String) :
    (capSleeves constraints context (sleeveNames context adjusted) adjusted).1.exposure
        (fun code => context.sleeveFor code = sleeve) ≤
      constraints.maxWeightPerSleeve + maxWeightEpsilon := by
  by_cases listed : sleeve ∈ sleeveNames context adjusted
  · exact capSleeves_within listed adjusted
  · have empty : adjusted.exposure (fun code => context.sleeveFor code = sleeve) = 0 := by
      apply Weights.exposure_eq_zero
      intro entry member
      apply decide_eq_false
      rintro rfl
      apply listed
      rw [sleeveNames, mem_insertionSort, mem_dedup]
      exact mem_map_of_mem member
    have less := (capSleeves_below constraints context (sleeveNames context adjusted)
      adjusted).exposure fun code => context.sleeveFor code = sleeve
    rw [empty] at less
    linarith [constraints.sleeve_pos, maxWeightEpsilon_pos (K := K)]

theorem maxInvestableWeight_nonneg (constraints : PortfolioConstraints K) :
    0 ≤ constraints.maxInvestableWeight := by
  unfold PortfolioConstraints.maxInvestableWeight
  split_ifs
  · exact le_max_left _ _
  · exact zero_le_one.trans constraints.one_le_leverage

theorem capGross_below (constraints : PortfolioConstraints K) (adjusted : Weights K) :
    Below adjusted (capGross constraints adjusted).1 := by
  unfold capGross
  by_cases above : constraints.maxInvestableWeight + maxWeightEpsilon <
      adjusted.exposure fun _ => true
  · obtain ⟨nonneg, le_one, -⟩ := share_of_cap (maxInvestableWeight_nonneg constraints) above
    simp only [above, if_true]
    exact Below.update (fun code weight => Shrunk.scaled nonneg le_one weight) adjusted
  · simp only [above, if_false]
    exact Below.refl adjusted

theorem capGross_within (adjusted : Weights K) :
    (capGross constraints adjusted).1.exposure (fun _ => true) ≤
      constraints.maxInvestableWeight + maxWeightEpsilon := by
  unfold capGross
  by_cases above : constraints.maxInvestableWeight + maxWeightEpsilon <
      adjusted.exposure fun _ => true
  · obtain ⟨nonneg, -, share⟩ := share_of_cap (maxInvestableWeight_nonneg constraints) above
    simp only [above, if_true]
    rw [Weights.exposure_scaled nonneg fun _ _ _ => rfl, share]
    linarith [maxWeightEpsilon_pos (K := K)]
  · simp only [above, if_false]
    exact not_lt.mp above

theorem applied_below (constraints : PortfolioConstraints K) (context : AllocationContext)
    (weights : Weights K) :
    Below weights (applyPortfolioConstraints constraints context weights).weights := by
  unfold applyPortfolioConstraints
  by_cases empty : weights.entries = []
  · rw [if_pos empty]
    exact Below.refl weights
  · rw [if_neg empty]
    dsimp only
    have invested := Below.update (investable_shrunk constraints context) weights
    have capped := invested.trans (Below.update (fun _ => clipped_shrunk constraints) _)
    apply capped.trans
    exact ((capSleeves_below constraints context _ _).trans (capGross_below constraints _)).trans
      (Below.filter _ _)

theorem Constrained.empty {weights : Weights K} (constraints : PortfolioConstraints K)
    (context : AllocationContext) (empty : weights.entries = []) :
    Constrained constraints context weights := by
  have weightless : ∀ code, weights.get code = 0 := by
    intro code
    apply Weights.get_of_not_mem
    simp [empty]
  have unexposed : ∀ counts, weights.exposure counts = 0 := by
    intro counts
    apply Weights.exposure_eq_zero
    simp [empty]
  have epsilon := maxWeightEpsilon_pos (K := K)
  constructor
  · exact fun code _ => weightless code
  · exact fun _ code => (weightless code).ge
  · intro code
    rw [weightless, abs_zero]
    exact constraints.asset_pos.le
  · intro sleeve
    rw [unexposed]
    linarith [constraints.sleeve_pos]
  · rw [unexposed]
    linarith [maxInvestableWeight_nonneg constraints]

/-- No stage breaks what an earlier one established. -/
theorem applied_constrained (constraints : PortfolioConstraints K) (context : AllocationContext)
    (weights : Weights K) :
    Constrained constraints context (applyPortfolioConstraints constraints context weights).weights := by
  unfold applyPortfolioConstraints
  by_cases empty : weights.entries = []
  · rw [if_pos empty]
    exact Constrained.empty constraints context empty
  · rw [if_neg empty]
    set invested := weights.update (investable constraints context) with hinvested
    set capped := invested.update fun _ => clipped constraints with hcapped
    set sleeves := (capSleeves constraints context (sleeveNames context capped) capped).1 with hsleeves
    set gross := (capGross constraints sleeves).1 with hgross
    set kept := gross.filter fun weight => maxWeightEpsilon < |weight| with hkept
    have fromGross : Below gross kept := Below.filter _ gross
    have fromSleeves := (capGross_below constraints sleeves).trans fromGross
    have fromCapped := (capSleeves_below constraints context _ capped).trans fromSleeves
    have fromInvested := (Below.update (fun _ => clipped_shrunk constraints) invested).trans fromCapped
    have chosen :=
      Weights.get_update (fun code => (investable_shrunk constraints context code 0).of_zero) weights
    have clips := Weights.get_update (fun code => (clipped_shrunk constraints 0).of_zero) invested
    constructor
    · intro code disabled
      apply fromInvested.of_zero
      rw [chosen, investable, if_pos disabled]
    · intro longOnly code
      apply fromInvested.nonneg
      rw [chosen, investable]
      split_ifs with disabled short
      · exact le_refl 0
      · exact le_refl 0
      · exact not_lt.mp fun negative => short ⟨longOnly, negative⟩
    · intro code
      have bound := abs_clipped constraints (invested.get code)
      rw [← clips] at bound
      exact (fromCapped.weight code).abs_le.trans bound
    · exact fun sleeve => (fromSleeves.exposure _).trans (sleeves_within capped sleeve)
    · exact (fromGross.exposure _).trans (capGross_within sleeves)

theorem applied_self {weights : Weights K} (constrained : Constrained constraints context weights)
    (traded : ∀ entry ∈ weights.entries, maxWeightEpsilon < |entry.2|) :
    (applyPortfolioConstraints constraints context weights).weights = weights := by
  unfold applyPortfolioConstraints
  by_cases empty : weights.entries = []
  · rw [if_pos empty]
  · rw [if_neg empty]
    have invested : weights.update (investable constraints context) = weights := by
      apply Weights.update_self
      intro entry member
      have weight := Weights.get_of_mem member
      unfold investable
      split_ifs with disabled short
      · rw [← weight]
        exact (constrained.enabled entry.1 disabled).symm
      · have nonneg := constrained.longOnly short.1 entry.1
        rw [weight] at nonneg
        exact absurd short.2 (not_lt.mpr nonneg)
      · rfl
    have capped : weights.update (fun _ => clipped constraints) = weights := by
      apply Weights.update_self
      intro entry member
      apply clipped_self
      rw [← Weights.get_of_mem member]
      exact constrained.asset entry.1
    have gross : (capGross constraints weights).1 = weights := by
      simp only [capGross, not_lt.mpr constrained.gross, if_false]
    simp only [invested, capped, capSleeves_self constrained, gross]
    apply Weights.filter_self
    intro entry member
    exact decide_eq_true (traded entry member)

/-- The projection only shrinks weights, its result satisfies all caps together, and it is a fixed
point. -/
theorem constraints_hold_together (constraints : PortfolioConstraints K) (context : AllocationContext)
    (weights : Weights K) :
    let applied := (applyPortfolioConstraints constraints context weights).weights
    (∀ code, Shrunk (weights.get code) (applied.get code)) ∧
      Constrained constraints context applied ∧
      (applyPortfolioConstraints constraints context applied).weights = applied := by
  have constrained := applied_constrained constraints context weights
  exact ⟨(applied_below constraints context weights).weight, constrained,
    applied_self constrained (applied_traded constraints context weights)⟩

end Rules

def defaultConstraints : PortfolioConstraints ℚ where
  asset_pos := by norm_num
  asset_le_one := by norm_num
  sleeve_pos := by norm_num
  sleeve_le_one := by norm_num
  cash_nonneg := by norm_num
  cash_lt_one := by norm_num
  one_le_leverage := le_rfl

/-- Two banks in one sleeve, and a short position. -/
def bankWeights : Weights ℚ where
  entries := [("600000", 1 / 2), ("601398", 1 / 5), ("510300", -1 / 10)]
  nodup := by decide

def bankContext : AllocationContext where
  sleeveMap := [("600000", "bank"), ("601398", "bank")]

theorem constraints_hold_together_banks :
    let applied := (applyPortfolioConstraints defaultConstraints bankContext bankWeights).weights
    applied.entries = [("600000", 2 / 9), ("601398", 8 / 45)] ∧
      (∀ code, Shrunk (bankWeights.get code) (applied.get code)) ∧
      Constrained defaultConstraints bankContext applied ∧
      (applyPortfolioConstraints defaultConstraints bankContext applied).weights = applied :=
  ⟨by decide +kernel, constraints_hold_together defaultConstraints bankContext bankWeights⟩

end FinDashboard.Portfolio
