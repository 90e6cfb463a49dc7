import FinDashboard.Ledger.Dictionary
import FinDashboard.Runs.SortedOn
import Mathlib.Data.Prod.Lex
import Mathlib.Data.Rat.Floor
import Mathlib.Data.String.Basic

/-!
# Rules on the rank of a value

The highest value of a cross-section has the rank ratio zero, but the lowest one has less than one. The rule on
the top takes its share of the symbols rounded up, and the rule on the bottom takes it rounded down.
-/

namespace FinDashboard.Research

open Ledger List Nat

section Ranking

variable {K : Type} [LinearOrder K]

/-- The values of a node; none stands for one that is not finite. -/
abbrev NodeValue (K : Type) : Type := List (String × Option K)

def finitePairs {K : Type} (values : NodeValue K) : List (K × String) :=
  values.filterMap fun entry => entry.2.map fun value => (value, entry.1)

/-- The pairs from the highest to the lowest one. -/
def fallingPairs (pairs : List (K × String)) : List (K × String) :=
  sortedOn (fun pair => OrderDual.toDual (toLex pair)) pairs

/-- The symbols from the highest value to the lowest one. -/
def ranking (values : NodeValue K) : List String := (fallingPairs (finitePairs values)).map (·.2)

variable {values : NodeValue K}

theorem ranking_perm : (ranking values).Perm ((finitePairs values).map (·.2)) := sortedOn_perm.map _

theorem ranking_length : (ranking values).length = (finitePairs values).length := by
  rw [ranking_perm.length_eq, length_map]

theorem ranking_nodup (keyed : (values.map (·.1)).Nodup) : (ranking values).Nodup := by
  rw [ranking_perm.nodup_iff, List.Nodup, pairwise_map, finitePairs, pairwise_filterMap]
  refine (pairwise_map.mp keyed).imp ?_
  intro entry later differ pair given other given'
  obtain ⟨value, -, rfl⟩ := Option.map_eq_some_iff.mp given
  obtain ⟨value', -, rfl⟩ := Option.map_eq_some_iff.mp given'
  exact differ

theorem exists_getElem?_ranking {symbol : String} :
    symbol ∈ (finitePairs values).map (·.2) ↔ ∃ place : ℕ, (ranking values)[place]? = some symbol := by
  rw [← ranking_perm.mem_iff, mem_iff_getElem?]

theorem ranking_neg [AddCommGroup K] [IsOrderedAddMonoid K] (distinct : ((finitePairs values).map (·.1)).Nodup) :
    ranking (values.map fun entry => (entry.1, entry.2.map (-·))) = (ranking values).reverse := by
  have pairs : finitePairs (values.map fun entry => (entry.1, entry.2.map (-·))) =
      (finitePairs values).map fun pair => (-pair.1, pair.2) := by
    unfold finitePairs
    rw [filterMap_map, map_filterMap]
    refine filterMap_congr fun entry _ => ?_
    rw [Function.comp_apply, Option.map_map, Option.map_map]
    rfl
  have falling : fallingPairs ((finitePairs values).map fun pair => (-pair.1, pair.2)) =
      ((fallingPairs (finitePairs values)).map fun pair => (-pair.1, pair.2)).reverse := by
    refine List.Perm.eq_of_pairwise (fun a b _ _ first second => ?_) pairwise_sortedOn ?_
      (sortedOn_perm.trans ((sortedOn_perm.symm.map _).trans (reverse_perm _).symm))
    · exact toLex.injective (OrderDual.toDual.injective (le_antisymm first second))
    · have apart : ((fallingPairs (finitePairs values)).map (·.1)).Nodup :=
        (sortedOn_perm.map _).nodup_iff.mpr distinct
      rw [pairwise_reverse, pairwise_map]
      refine ((pairwise_map.mp apart).and pairwise_sortedOn).imp ?_
      intro pair later ordered
      have below : later.1 < pair.1 := by
        rcases Prod.Lex.toLex_le_toLex.mp (OrderDual.toDual_le_toDual.mp ordered.2) with less | same
        · exact less
        · exact absurd same.1.symm ordered.1
      exact OrderDual.toDual_le_toDual.mpr (Prod.Lex.toLex_le_toLex.mpr (Or.inl (neg_lt_neg below)))
  unfold ranking
  rw [pairs, falling, map_reverse, map_map]
  rfl

end Ranking

/-- A comparator with the bounds its rule has to declare. -/
inductive SignalComparator (K : Type)
  | greaterThan (threshold : K) | greaterThanOrEqual (threshold : K)
  | lessThan (threshold : K) | lessThanOrEqual (threshold : K)
  | between (lowerBound upperBound : K)
  | rankTop (threshold : K) | rankBottom (threshold : K)

variable {K : Type} [Field K] [LinearOrder K]

/-- `_rank_ratios`: the index of a symbol as a share of all. -/
def rankRatios (values : NodeValue K) : List (String × K) :=
  (ranking values).zipIdx.map fun entry => (entry.1, (entry.2 : K) / (ranking values).length)

/-- `_rule_matches` of a symbol with a finite value, but for the crossing of two series. -/
def ruleMatches (values : NodeValue K) (symbol : String) (value : K) : SignalComparator K → Bool
  | .greaterThan threshold => threshold < value
  | .greaterThanOrEqual threshold => threshold ≤ value
  | .lessThan threshold => value < threshold
  | .lessThanOrEqual threshold => value ≤ threshold
  | .between lowerBound upperBound => lowerBound ≤ value && value ≤ upperBound
  | .rankTop threshold => (find symbol (rankRatios values)).any fun ratio => ratio < threshold
  | .rankBottom threshold => (find symbol (rankRatios values)).any fun ratio => 1 - threshold ≤ ratio

/-- The symbols a rule hits. -/
def hits (values : NodeValue K) (comparator : SignalComparator K) : List String :=
  ((finitePairs values).filter fun pair => ruleMatches values pair.2 pair.1 comparator).map (·.2)

/-- Both rules hit as many symbols, at least one if there is any, and more for a higher threshold; the lowest of
distinct values are the highest of the negated ones. -/
structure RankRulesAgree (values : NodeValue K) (threshold : K) : Prop where
  mirrored : ((finitePairs values).map (·.1)).Nodup → ∀ symbol, symbol ∈ hits values (.rankBottom threshold) ↔
    symbol ∈ hits (values.map fun entry => (entry.1, entry.2.map (-·))) (.rankTop threshold)
  sized : (hits values (.rankBottom threshold)).length = (hits values (.rankTop threshold)).length
  some : finitePairs values ≠ [] → 0 < (hits values (.rankBottom threshold)).length
  raised : ∀ higher, threshold ≤ higher →
    hits values (.rankTop threshold) ⊆ hits values (.rankTop higher) ∧
      hits values (.rankBottom threshold) ⊆ hits values (.rankBottom higher)

variable {values : NodeValue K} {threshold : K} {comparator : SignalComparator K} {p : K → Bool}

theorem any_rankRatios (keyed : (values.map (·.1)).Nodup) (symbol : String) :
    (find symbol (rankRatios values)).any p = true ↔ ∃ place : ℕ,
      (ranking values)[place]? = some symbol ∧ p ((place : K) / (ranking values).length) = true := by
  have ratios : ((rankRatios values).map (·.1)).Nodup := by
    rw [rankRatios, map_map]
    change ((ranking values).zipIdx.map Prod.fst).Nodup
    rw [zipIdx_map_fst]
    exact ranking_nodup keyed
  constructor
  · intro holds
    obtain ⟨ratio, found, holds⟩ := (Option.any_eq_true _ _).mp holds
    obtain ⟨entry, listed, same⟩ := mem_map.mp (mem_of_find found)
    obtain ⟨rfl, rfl⟩ := Prod.mk.inj same
    exact ⟨entry.2, mem_zipIdx_iff_getElem?.mp listed, holds⟩
  · rintro ⟨place, there, holds⟩
    have listed : (symbol, (place : K) / (ranking values).length) ∈ rankRatios values :=
      mem_map.mpr ⟨(symbol, place), mem_zipIdx_iff_getElem?.mpr there, rfl⟩
    rw [find_of_mem ratios listed]
    exact holds

theorem mem_hits (keyed : (values.map (·.1)).Nodup) (ranks : ∀ symbol value,
    ruleMatches values symbol value comparator = (find symbol (rankRatios values)).any p) (symbol : String) :
    symbol ∈ hits values comparator ↔ ∃ place : ℕ,
      (ranking values)[place]? = some symbol ∧ p ((place : K) / (ranking values).length) = true := by
  rw [← any_rankRatios keyed]
  constructor
  · intro member
    obtain ⟨pair, hit, rfl⟩ := mem_map.mp member
    rw [← ranks]
    exact (mem_filter.mp hit).2
  · intro holds
    obtain ⟨place, there, -⟩ := (any_rankRatios keyed symbol).mp holds
    obtain ⟨pair, listed, rfl⟩ := mem_map.mp (exists_getElem?_ranking.mpr ⟨place, there⟩)
    exact mem_map.mpr ⟨pair, mem_filter.mpr ⟨listed, by rw [ranks, holds]⟩, rfl⟩

/-- What is hit are these symbols of the order, if it has the same members. -/
theorem hits_perm (keyed : (values.map (·.1)).Nodup) {symbols : List String} (part : symbols.Sublist (ranking values))
    (same : ∀ symbol, symbol ∈ hits values comparator ↔ symbol ∈ symbols) : (hits values comparator).Perm symbols := by
  have distinct := ranking_nodup keyed
  have once : (hits values comparator).Nodup :=
    (filter_sublist.map _).nodup (ranking_perm.nodup_iff.mp distinct)
  exact (perm_ext_iff_of_nodup once (part.nodup distinct)).mpr same

variable [IsStrictOrderedRing K] [FloorSemiring K]

/-- The rule on the top hits its share of the symbols, rounded up. -/
theorem hits_rankTop_perm (keyed : (values.map (·.1)).Nodup) : (hits values (.rankTop threshold)).Perm
    ((ranking values).take ⌈threshold * (ranking values).length⌉₊) := by
  refine hits_perm keyed (take_sublist _ _) fun symbol => ?_
  rw [mem_hits keyed fun _ _ => rfl, mem_iff_getElem?]
  refine exists_congr fun place => ?_
  by_cases inside : place < (ranking values).length
  · have some : (0 : K) < (ranking values).length := cast_pos.mpr (zero_lt_of_lt inside)
    rw [decide_eq_true_iff, div_lt_iff₀ some, ← lt_ceil, List.getElem?_take]
    split_ifs with early <;> simp [early]
  · have outside := List.getElem?_eq_none (not_lt.mp inside)
    simp [List.getElem?_take, outside]

/-- The rule on the bottom hits its share of the symbols, rounded down. -/
theorem hits_rankBottom_perm (keyed : (values.map (·.1)).Nodup) (positive : 0 < threshold) :
    (hits values (.rankBottom threshold)).Perm ((ranking values).drop
      ((ranking values).length - ⌊threshold * (ranking values).length⌋₊)) := by
  refine hits_perm keyed (drop_sublist _ _) fun symbol => ?_
  rw [mem_hits keyed fun _ _ => rfl, mem_iff_getElem?]
  have places : ∀ place : ℕ, (ranking values)[place]? = some symbol →
      ((1 - threshold ≤ (place : K) / (ranking values).length) ↔
        (ranking values).length - ⌊threshold * (ranking values).length⌋₊ ≤ place) := by
    intro place there
    have inside := (List.getElem?_eq_some_iff.mp there).1
    have some : (0 : K) < (ranking values).length := cast_pos.mpr (zero_lt_of_lt inside)
    rw [le_div_iff₀ some, sub_mul, one_mul, sub_le_iff_le_add, ← sub_le_iff_le_add',
      ← cast_sub inside.le, ← le_floor_iff (mul_pos positive some).le]
    omega
  constructor
  · rintro ⟨place, there, late⟩
    have after := (places place there).mp (of_decide_eq_true late)
    exact ⟨place - _, by rw [List.getElem?_drop, Nat.add_sub_cancel' after]; exact there⟩
  · rintro ⟨place, there⟩
    rw [List.getElem?_drop] at there
    exact ⟨_, there, decide_eq_true ((places _ there).mpr (le_add_right _ _))⟩

/-- The rules agree exactly if the share of the threshold is a whole number of symbols. -/
theorem rankRulesAgree_iff (keyed : (values.map (·.1)).Nodup) (positive : 0 < threshold) (share : threshold ≤ 1) :
    RankRulesAgree values threshold ↔ ∃ count : ℕ, threshold * (finitePairs values).length = count := by
  have top : (hits values (.rankTop threshold)).length = _ := (hits_rankTop_perm keyed).length_eq
  have bottom := (hits_rankBottom_perm keyed positive).length_eq
  rw [← ranking_length]
  have nonneg : 0 ≤ threshold * (ranking values).length := mul_nonneg positive.le (cast_nonneg _)
  have most : threshold * (ranking values).length ≤ (ranking values).length :=
    mul_le_of_le_one_left (cast_nonneg _) share
  have up : ⌈threshold * (ranking values).length⌉₊ ≤ (ranking values).length := ceil_le.mpr most
  have down : ⌊threshold * (ranking values).length⌋₊ ≤ (ranking values).length := floor_le_of_le most
  rw [length_take, min_eq_left up] at top
  rw [length_drop, Nat.sub_sub_self down] at bottom
  constructor
  · intro agree
    have same := agree.sized
    rw [top, bottom] at same
    refine ⟨_, le_antisymm ?_ (floor_le nonneg)⟩
    rw [same]
    exact le_ceil _
  · rintro ⟨count, whole⟩
    rw [whole, ceil_natCast] at top
    rw [whole, floor_natCast] at bottom
    constructor
    · intro distinct symbol
      have keyed' : ((values.map fun entry => (entry.1, entry.2.map (-·))).map (·.1)).Nodup := by
        rw [map_map]
        exact keyed
      rw [(hits_rankBottom_perm keyed positive).mem_iff, (hits_rankTop_perm keyed').mem_iff,
        ranking_neg distinct, length_reverse, whole, floor_natCast, ceil_natCast, take_reverse,
        mem_reverse]
    · rw [top, bottom]
    · intro some
      have symbols : (0 : K) < (ranking values).length := by
        rw [ranking_length]
        exact cast_pos.mpr (length_pos_iff.mpr some)
      rw [bottom]
      exact_mod_cast whole ▸ mul_pos positive symbols
    · intro higher above
      constructor
      all_goals
        intro symbol member
        obtain ⟨place, there, admitted⟩ := (mem_hits keyed (fun _ _ => rfl) symbol).mp member
        refine (mem_hits keyed (fun _ _ => rfl) symbol).mpr ⟨place, there, ?_⟩
      · exact decide_eq_true ((of_decide_eq_true admitted).trans_le above)
      · exact decide_eq_true ((sub_le_sub_left above 1).trans (of_decide_eq_true admitted))

def threeValues : NodeValue ℚ := [("A", some 3), ("B", some 2), ("C", some 1)]

theorem rankRulesAgree_iff_third : RankRulesAgree threeValues (1 / 3) ↔
    ∃ count : ℕ, (1 / 3 : ℚ) * (finitePairs threeValues).length = count :=
  rankRulesAgree_iff (by decide) (by decide +kernel) (by decide +kernel)

/-- Half of three symbols are two of them on the top, and one on the bottom. -/
theorem half_of_three_differs : ¬RankRulesAgree threeValues (1 / 2) := by
  intro agree
  have sized := agree.sized
  revert sized
  decide +kernel

end FinDashboard.Research
