import FinDashboard.Factors.Standardize
import FinDashboard.Ledger.Grouping
import Mathlib.Algebra.Order.BigOperators.Group.List
import Mathlib.Algebra.Order.Field.Basic
import Mathlib.Data.List.GetD
import Mathlib.Data.List.TakeWhile
import Mathlib.Tactic.FieldSimp
import Mathlib.Tactic.Ring
import Mathlib.Tactic.Linarith

/-!
# Rank correlation

The evaluation of factors gives equal values their mean rank, and so do the standardised ranks. The analysis of
factors ranks them by their places, so that its correlation is the same only where no values are equal.
-/

namespace FinDashboard.RankCorrelation

open Ledger List
open Factors (Column Value eps mean)

variable {K : Type} [LinearOrder K]

/-- The place of an item in a stable sort. -/
def place (values : List K) (i : Fin values.length) : ℕ := (argsort id values).idxOf i

/-- Whether a run of equal values starts at a place of the sorted values. -/
def obs (ordered : List K) (i : ℕ) : Bool := i = 0 || ordered[i]? ≠ ordered[i - 1]?

/-- The starts of the runs, and the number of values. -/
def counts (ordered : List K) : List ℕ := (range ordered.length).filter (obs ordered) ++ [ordered.length]

section

variable [Field K]

/-- `_rank`: equal values have the ranks of their places. -/
def rank (values : List K) : List K := (finRange values.length).map fun i => (place values i : K) + 1

/-- The scan over the runs of equal values, from a place on. -/
def averageFrom (values : List K) : ℕ → List (Fin values.length) → List (Fin values.length × K)
  | _, [] => []
  | i, first :: rest =>
    let run := rest.takeWhile fun k => values.get k = values.get first
    let j := i + run.length
    (first :: run).map (·, ((i + j : ℕ) : K) / 2 + 1) ++
      averageFrom values (j + 1) (rest.dropWhile fun k => values.get k = values.get first)
termination_by _ order => order.length
decreasing_by exact Nat.lt_succ_of_le (dropWhile_sublist _).length_le

/-- `_average_ranks` of the evaluation. -/
def averageRanks (values : List K) : List K :=
  (finRange values.length).map fun i => (find i (averageFrom values 0 (argsort id values))).getD 0

/-- `_rankdata` of the standardisation, with the method `average`. -/
def rankdata (values : List K) : List K :=
  let ordered := sortedOn id values
  (finRange values.length).map fun i =>
    let dense := (range (place values i + 1)).countP (obs ordered)
    (((counts ordered).getD dense 0 + (counts ordered).getD (dense - 1) 0 + 1 : ℕ) : K) / 2

variable (sqrt : K → K)

def pearson (pairs : List (K × K)) : Option K :=
  if pairs.length < 2 then none
  else
    let meanX := mean (pairs.map (·.1))
    let meanY := mean (pairs.map (·.2))
    let cov := (pairs.map fun pair => (pair.1 - meanX) * (pair.2 - meanY)).sum
    let varX := (pairs.map fun pair => (pair.1 - meanX) ^ 2).sum
    let varY := (pairs.map fun pair => (pair.2 - meanY) ^ 2).sum
    if varX ≤ 0 ∨ varY ≤ 0 then none else some (cov / sqrt (varX * varY))

/-- `_spearman` of the evaluation. -/
def spearman (pairs : List (K × K)) : Option K :=
  if pairs.length < 2 then none
  else pearson sqrt ((averageRanks (pairs.map (·.1))).zip (averageRanks (pairs.map (·.2))))

/-- The values of a symbol that has two finite ones. -/
def validPair (scores returns : Column K) (symbol : String) : Option (K × K) := do
  let score ← (find symbol scores).bind Value.finite?
  let earned ← (find symbol returns).bind Value.finite?
  return (score, earned)

/-- `_spearman_ic` of the analysis. -/
def spearmanIc (scores returns : Column K) : Option K :=
  let common := sortedOn id ((scores.map (·.1)).filter (· ∈ returns.map (·.1)))
  if common.length < 5 then none
  else
    let valid := common.filterMap (validPair scores returns)
    if valid.length < 5 then none
    else
      let scoreRanks := rank (valid.map (·.1))
      let returnRanks := rank (valid.map (·.2))
      let scoreCentered := scoreRanks.map (· - mean scoreRanks)
      let returnCentered := returnRanks.map (· - mean returnRanks)
      let denom := sqrt ((scoreCentered.map (· ^ 2)).sum * (returnCentered.map (· ^ 2)).sum)
      if denom < eps then some 0 else some ((scoreCentered.zipWith (· * ·) returnCentered).sum / denom)

/-- The number of smaller values and half of the number of equal ones and one. -/
def meanRank (values : List K) (v : K) : K := (values.countP (· < v) : K) + ((values.countP (· = v) : K) + 1) / 2

end

variable {values ordered : List K} {v : K}

omit [LinearOrder K] in
/-- Values with a property come first, up to their number. -/
theorem lt_countP_iff {p : K → Bool} (first : ordered.Pairwise fun a b => p b = true → p a = true) {i : ℕ}
    (inside : i < ordered.length) : i < ordered.countP p ↔ p ordered[i] = true := by
  have split := filter_append_of_pairwise first
  rw [countP_eq_length_filter]
  constructor
  · intro early
    have here : ordered[i]? = (ordered.filter p)[i]? := by
      conv_lhs => rw [← split]
      exact List.getElem?_append_left early
    have member := mem_of_getElem? (here.symm.trans (List.getElem?_eq_getElem inside))
    exact (mem_filter.mp member).2
  · intro holds
    refine not_le.mp fun late => ?_
    have here : ordered[i]? = (ordered.filter fun a => !p a)[i - (ordered.filter p).length]? := by
      conv_lhs => rw [← split]
      exact List.getElem?_append_right late
    have member := mem_of_getElem? (here.symm.trans (List.getElem?_eq_getElem inside))
    simpa [holds] using (mem_filter.mp member).2

section

variable (rising : ordered.Pairwise (· ≤ ·))
include rising

theorem pairwise_lt (v : K) : ordered.Pairwise fun a b => decide (b < v) = true → decide (a < v) = true :=
  rising.imp fun le => by simpa using le.trans_lt

theorem pairwise_le (v : K) : ordered.Pairwise fun a b => decide (b ≤ v) = true → decide (a ≤ v) = true :=
  rising.imp fun le => by simpa using le.trans

end

theorem map_get_argsort (values : List K) : (argsort id values).map values.get = sortedOn id values :=
  (map_argsort id).trans (map_id _)

theorem getElem_place (i : Fin values.length) :
    (sortedOn id values)[place values i]? = some (values.get i) := by
  have member : i ∈ argsort id values := mem_sortedOn.mpr (mem_finRange i)
  rw [← map_get_argsort, getElem?_map, place, getElem?_idxOf member]
  rfl

/-- The place of a value is behind the smaller values and before the greater ones. -/
theorem place_bounds (i : Fin values.length) :
    values.countP (· < values.get i) ≤ place values i ∧ place values i < values.countP (· ≤ values.get i) := by
  obtain ⟨inside, here⟩ := List.getElem?_eq_some_iff.mp (getElem_place i)
  have perm : (sortedOn id values).Perm values := sortedOn_perm
  have rising : (sortedOn id values).Pairwise (· ≤ ·) := pairwise_sortedOn
  rw [← perm.countP_eq, ← perm.countP_eq]
  constructor
  · refine not_lt.mp fun early => ?_
    simpa [here] using (lt_countP_iff (pairwise_lt rising _) inside).mp early
  · exact (lt_countP_iff (pairwise_le rising _) inside).mpr (by simp [here])

theorem countP_le (v : K) : values.countP (· ≤ v) = values.countP (· < v) + values.countP (· = v) := by
  induction values with
  | nil => rfl
  | cons head rest ih =>
    rw [countP_cons, countP_cons, countP_cons, ih]
    rcases lt_trichotomy head v with less | rfl | more
    · simp [less.le, less, less.ne]
      omega
    · simp
      omega
    · simp [not_le.mpr more, not_lt.mpr more.le, more.ne']

omit [LinearOrder K] in
theorem map_finRange {β : Type} (f : K → β) (values : List K) :
    (finRange values.length).map (fun i => f (values.get i)) = values.map f := by
  conv_rhs => rw [← map_get_finRange values, map_map]
  rfl

theorem obs_countP {p : K → Bool} (first : ordered.Pairwise fun a b => p b = true → p a = true)
    (inside : ordered.countP p < ordered.length) : obs ordered (ordered.countP p) = true := by
  rw [obs, Bool.or_eq_true, decide_eq_true_iff, decide_eq_true_iff]
  refine or_iff_not_imp_left.mpr fun some_before same => ?_
  have before : ordered.countP p - 1 < ordered.length := by omega
  rw [List.getElem?_eq_getElem inside, List.getElem?_eq_getElem before] at same
  have here := (lt_countP_iff first inside).not.mp (lt_irrefl _)
  rw [Option.some.inj same] at here
  exact here ((lt_countP_iff first before).mp (by omega))

theorem getD_counts {a : ℕ} (inside : a ≤ ordered.length) (start : a < ordered.length → obs ordered a = true) :
    (counts ordered).getD ((range a).countP (obs ordered)) 0 = a := by
  obtain ⟨m, length⟩ := Nat.exists_eq_add_of_le inside
  unfold counts
  rw [length, range_add, filter_append, append_assoc, countP_eq_length_filter, getD_append_right _ _ _ _ le_rfl,
    Nat.sub_self, ← length]
  cases m with
  | zero => simpa using length
  | succ m =>
    rw [range_succ_eq_map, map_cons, Nat.add_zero, filter_cons_of_pos (start (by omega))]
    rfl

variable (rising : ordered.Pairwise (· ≤ ·))

include rising in
/-- Behind the smaller values up to the greater ones one run has started. -/
theorem countP_obs {i : ℕ} (low : ordered.countP (· < v) < i) (high : i ≤ ordered.countP (· ≤ v)) :
    (range i).countP (obs ordered) = (range (ordered.countP (· < v))).countP (obs ordered) + 1 := by
  have most := countP_le_length (l := ordered) (p := fun a => decide (a ≤ v))
  have equal : ∀ a (inside : a < ordered.length), ordered.countP (· < v) ≤ a →
      a < ordered.countP (· ≤ v) → ordered[a] = v := by
    intro a inside after before
    have le := (lt_countP_iff (pairwise_le rising v) inside).mp before
    have ge := (lt_countP_iff (pairwise_lt rising v) inside).not.mp (not_lt.mpr after)
    exact le_antisymm (of_decide_eq_true le) (by simpa using ge)
  induction i, low using Nat.le_induction with
  | base => simp [range_succ, obs_countP (pairwise_lt rising v) (by omega)]
  | succ i low ih =>
    have more : obs ordered i = false := by
      rw [obs, Bool.or_eq_false_iff, decide_eq_false_iff_not, decide_eq_false_iff_not, not_not,
        List.getElem?_eq_getElem (by omega), List.getElem?_eq_getElem (by omega),
        equal i (by omega) (by omega) (by omega), equal (i - 1) (by omega) (by omega) (by omega)]
      exact ⟨by omega, rfl⟩
    rw [range_succ, countP_append, ih (by omega)]
    simp [more]

variable [Field K] [IsStrictOrderedRing K]

theorem averageFrom_eq (i : ℕ) (order : List (Fin values.length)) : ∀ done : List (Fin values.length),
    done.length = i → (done ++ order).Pairwise (fun a b => values.get a ≤ values.get b) →
    (∀ a ∈ done, ∀ b ∈ order, values.get a < values.get b) → averageFrom values i order =
      order.map fun k => (k, meanRank ((done ++ order).map values.get) (values.get k)) := by
  induction i, order using averageFrom.induct values with
  | case1 i => exact fun done _ _ _ => averageFrom.eq_1 values i
  | case2 i first rest run j ih =>
    intro done length sorted before
    have split : run ++ rest.dropWhile (fun k => values.get k = values.get first) = rest :=
      takeWhile_append_dropWhile
    generalize dropped : rest.dropWhile (fun k => values.get k = values.get first) = later at *
    have equal : ∀ k ∈ first :: run, values.get k = values.get first := by
      refine forall_mem_cons.mpr ⟨rfl, fun k member => ?_⟩
      have taken := member
      simpa using mem_takeWhile_imp taken
    have behind : ∀ k ∈ later, values.get first < values.get k := by
      obtain ⟨smallest, rising⟩ := pairwise_cons.mp (pairwise_append.mp sorted).2.1
      rw [← split] at smallest rising
      cases later with
      | nil => simp
      | cons next more =>
        have other : values.get next ≠ values.get first := by
          have stops := head_dropWhile_not (fun k => decide (values.get k = values.get first)) (l := rest)
            (by rw [dropped]; exact cons_ne_nil next more)
          simp only [dropped, head_cons] at stops
          exact of_decide_eq_false stops
        have above := (smallest next (by simp)).lt_of_ne other.symm
        refine forall_mem_cons.mpr ⟨above, fun k member => above.trans_le ?_⟩
        exact (pairwise_cons.mp (pairwise_append.mp rising).2.1).1 k member
    have smaller : ((done ++ first :: rest).map values.get).countP (· < values.get first) = i := by
      rw [← split, countP_map, countP_append, ← cons_append, countP_append, countP_eq_length.mpr,
        length, countP_eq_zero.mpr, countP_eq_zero.mpr]
      · rfl
      · exact fun k member => by simpa using (behind k member).le
      · exact fun k member => by simpa using (equal k member).ge
      · exact fun k member => by simpa using before k member first mem_cons_self
    have tied : ((done ++ first :: rest).map values.get).countP (· = values.get first) = run.length + 1 := by
      rw [← split, countP_map, countP_append, ← cons_append, countP_append, countP_eq_zero.mpr, countP_eq_length.mpr,
        countP_eq_zero.mpr]
      · simp
      · exact fun k member => by simpa using (behind k member).ne'
      · exact fun k member => by simpa using equal k member
      · exact fun k member => by simpa using (before k member first mem_cons_self).ne
    have whole : done ++ first :: run ++ later = done ++ first :: rest := by simp [← split]
    have next := ih (done ++ first :: run) (by simp [length, j]; omega) (by rwa [whole]) fun a given b member => ?_
    · rw [averageFrom.eq_2, dropped, next, whole]
      generalize (done ++ first :: rest).map values.get = all at *
      have parts : first :: rest = first :: run ++ later := congrArg (first :: ·) split.symm
      rw [parts, map_append]
      refine congrArg (· ++ _) (map_congr_left fun k member => ?_)
      rw [equal k member, meanRank, smaller, tied]
      push_cast
      exact congrArg (k, ·) (by ring)
    · rcases mem_append.mp given with earlier | here
      · exact before a earlier b (mem_cons_of_mem _ (split ▸ mem_append_right _ member))
      · exact (equal a here).trans_lt (behind b member)

theorem averageRanks_eq (values : List K) : averageRanks values = values.map (meanRank values) := by
  have sorted := map_get_argsort values ▸ pairwise_sortedOn
  have perm : (sortedOn id values).Perm values := sortedOn_perm
  have scan := averageFrom_eq 0 (argsort id values) [] rfl (pairwise_map.mp sorted) (by simp)
  have same : meanRank (sortedOn id values) = meanRank values := by
    funext v
    rw [meanRank, meanRank, perm.countP_eq, perm.countP_eq]
  rw [nil_append, map_get_argsort, same] at scan
  rw [← map_finRange]
  refine map_congr_left fun i _ => ?_
  have member : i ∈ argsort id values := mem_sortedOn.mpr (mem_finRange i)
  rw [scan, find_keyed, if_pos member, Option.getD_some]

theorem rankdata_eq (values : List K) : rankdata values = values.map (meanRank values) := by
  rw [← map_finRange]
  refine map_congr_left fun i _ => ?_
  have rising : (sortedOn id values).Pairwise (· ≤ ·) := pairwise_sortedOn
  have perm : (sortedOn id values).Perm values := sortedOn_perm
  obtain ⟨low, high⟩ := place_bounds i
  rw [← perm.countP_eq] at low high
  have most := countP_le_length (l := sortedOn id values) (p := fun a => decide (a ≤ values.get i))
  have lower := getD_counts (by omega) fun _ => obs_countP (pairwise_lt rising (values.get i)) (by omega)
  have upper := getD_counts most (obs_countP (pairwise_le rising (values.get i)))
  rw [countP_obs rising (by omega) le_rfl] at upper
  dsimp only
  rw [countP_obs rising (Nat.lt_succ_of_le low) (Nat.succ_le_of_lt high), Nat.add_sub_cancel, lower, upper,
    perm.countP_eq, perm.countP_eq, countP_le, meanRank]
  push_cast
  ring

/-- Different values have the ranks of their places. -/
theorem rank_eq (apart : values.Nodup) : rank values = values.map (meanRank values) := by
  rw [← map_finRange]
  refine map_congr_left fun i _ => ?_
  obtain ⟨low, high⟩ := place_bounds i
  have once : values.countP (· = values.get i) = 1 := by
    rw [← count_eq_one_of_mem apart (get_mem values i), count]
    exact countP_congr fun v _ => by simp
  rw [countP_le, once] at high
  rw [meanRank, once, show place values i = values.countP (· < values.get i) by omega]
  push_cast
  ring

variable {sqrt : K → K} {pairs others : List (K × K)} {data : List (String × K × K)} {scores returns : Column K}

omit [IsStrictOrderedRing K] in
theorem pearson_perm (shuffled : pairs.Perm others) : pearson sqrt pairs = pearson sqrt others := by
  simp only [pearson, mean, length_map, shuffled.length_eq, (shuffled.map _).sum_eq]

/-- The mean ranks do not see the order of the pairs. -/
theorem spearman_perm (shuffled : pairs.Perm others) : spearman sqrt pairs = spearman sqrt others := by
  have ranks : ∀ pairs : List (K × K), (averageRanks (pairs.map (·.1))).zip (averageRanks (pairs.map (·.2))) =
      pairs.map fun pair => (meanRank (pairs.map (·.1)) pair.1, meanRank (pairs.map (·.2)) pair.2) := by
    intro pairs
    rw [averageRanks_eq, averageRanks_eq, map_map, map_map, zip_map']
    rfl
  rw [spearman, spearman, ranks, ranks, shuffled.length_eq]
  simp only [meanRank, (shuffled.map _).countP_eq]
  rw [pearson_perm (shuffled.map _)]

/-- Ranks by place are as far from their mean as the numbers up to their length. -/
theorem one_le_sum_rank (values : List K) (enough : 3 ≤ values.length) (m : K) :
    1 ≤ ((rank values).map fun r => (r - m) ^ 2).sum := by
  have places : (argsort id values).map (place values) = range values.length := by
    have distinct : (argsort id values).Nodup := sortedOn_perm.nodup_iff.mpr (nodup_finRange _)
    have length : (argsort id values).length = values.length := by simp [argsort, sortedOn]
    refine ext_getElem (by simp [length]) fun k _ _ => ?_
    simp [place, distinct.idxOf_getElem]
  have perm : (rank values).Perm ((range values.length).map fun k : ℕ => (k : K) + 1) := by
    rw [← places, map_map]
    exact (sortedOn_perm.map _).symm
  obtain ⟨n, length⟩ := Nat.exists_eq_add_of_le enough
  have rest : ∀ ks : List ℕ, 0 ≤ (ks.map ((fun r : K => (r - m) ^ 2) ∘ fun k : ℕ => (k : K) + 1)).sum :=
    fun ks => sum_nonneg (by simp [sq_nonneg])
  rw [(perm.map _).sum_eq, map_map, length, range_add, map_append, sum_append]
  simp only [range_succ, range_zero, nil_append, map_append, map_cons, map_nil, sum_append, sum_cons, sum_nil,
    Function.comp_apply]
  push_cast
  nlinarith [sq_nonneg (2 - m), rest ((range n).map (3 + ·))]

omit [IsStrictOrderedRing K] in
theorem pearson_zip {xs ys : List K} (same : xs.length = ys.length) (two : 2 ≤ xs.length) :
    pearson sqrt (xs.zip ys) =
      if ((xs.map (· - mean xs)).map (· ^ 2)).sum ≤ 0 ∨ ((ys.map (· - mean ys)).map (· ^ 2)).sum ≤ 0 then none
      else some (((xs.map (· - mean xs)).zipWith (· * ·) (ys.map (· - mean ys))).sum /
        sqrt (((xs.map (· - mean xs)).map (· ^ 2)).sum * ((ys.map (· - mean ys)).map (· ^ 2)).sum)) := by
  have left := map_fst_zip same.le
  have right := map_snd_zip same.ge
  have varX : (xs.zip ys).map (fun pair => (pair.1 - mean xs) ^ 2) = (xs.map (· - mean xs)).map (· ^ 2) := by
    conv_rhs => rw [← left, map_map, map_map, left]
    rfl
  have varY : (xs.zip ys).map (fun pair => (pair.2 - mean ys) ^ 2) = (ys.map (· - mean ys)).map (· ^ 2) := by
    conv_rhs => rw [← right, map_map, map_map, right]
    rfl
  have cov : (xs.zip ys).map (fun pair => (pair.1 - mean xs) * (pair.2 - mean ys)) =
      (xs.map (· - mean xs)).zipWith (· * ·) (ys.map (· - mean ys)) := by
    rw [zipWith_map, zip, map_zipWith]
  rw [pearson, if_neg (by simp [length_zip]; omega)]
  simp only [left, right, varX, varY, cov]

omit [Field K] [LinearOrder K] [IsStrictOrderedRing K] in
/-- A dictionary with the values of the symbols, in any order. -/
theorem find_column {column : Column K} {f : K × K → K} (keyed : (data.map (·.1)).Nodup)
    (given : column.Perm (data.map fun row => (row.1, .finite (f row.2)))) :
    (column.map (·.1)).Perm (data.map (·.1)) ∧ ∀ row ∈ data, find row.1 column = some (.finite (f row.2)) := by
  have keys : (column.map (·.1)).Perm (data.map (·.1)) := by simpa [Function.comp_def] using given.map (·.1)
  refine ⟨keys, fun row member => ?_⟩
  have entry := given.mem_iff.mpr (mem_map_of_mem member)
  exact find_of_mem (keys.nodup_iff.mpr keyed) entry

/-- The analysis agrees where no values are equal, whatever the symbols are called; the others always do. -/
theorem spearmanIc_eq_spearman (root : ∀ x, 1 ≤ x → 1 ≤ sqrt x) (keyed : (data.map (·.1)).Nodup)
    (enough : 5 ≤ data.length) (scored : scores.Perm (data.map fun row => (row.1, .finite row.2.1)))
    (earned : returns.Perm (data.map fun row => (row.1, .finite row.2.2)))
    (apart : (data.map (·.2.1)).Nodup ∧ (data.map (·.2.2)).Nodup) :
    (∀ values : List K, averageRanks values = values.map (meanRank values) ∧
      rankdata values = values.map (meanRank values)) ∧
    spearmanIc sqrt scores returns = spearman sqrt (data.map (·.2)) ∧
    spearman sqrt (data.map (·.2)) =
      pearson sqrt ((rankdata (data.map (·.2.1))).zip (rankdata (data.map (·.2.2)))) := by
  refine ⟨fun values => ⟨averageRanks_eq values, rankdata_eq values⟩, ?_, ?_⟩
  · obtain ⟨keys, score⟩ := find_column (f := (·.1)) keyed scored
    obtain ⟨others, gain⟩ := find_column (f := (·.2)) keyed earned
    have common : (sortedOn id ((scores.map (·.1)).filter (· ∈ returns.map (·.1)))).Perm (data.map (·.1)) := by
      rw [filter_eq_self.mpr fun symbol member => decide_eq_true ((keys.trans others.symm).mem_iff.mp member)]
      exact sortedOn_perm.trans keys
    have pair : ∀ row ∈ data, (validPair scores returns ∘ (·.1)) row = some row.2 := by
      intro row member
      simp [validPair, score row member, gain row member, Value.finite?]
    have valid := common.filterMap (validPair scores returns)
    rw [filterMap_map, filterMap_congr pair, filterMap_eq_map'] at valid
    have size := valid.length_eq
    have first := (valid.map (·.1)).nodup_iff.mpr (by rw [map_map]; exact apart.1)
    have second := (valid.map (·.2)).nodup_iff.mpr (by rw [map_map]; exact apart.2)
    unfold spearmanIc
    dsimp only
    rw [length_map] at size
    rw [if_neg (by rw [common.length_eq, length_map]; omega), if_neg (by omega), ← spearman_perm valid]
    generalize filterMap _ _ = pairs at *
    have sizes : ∀ values : List K, (rank values).length = values.length := fun values => by simp [rank]
    have evaluated : spearman sqrt pairs = pearson sqrt ((rank (pairs.map (·.1))).zip (rank (pairs.map (·.2)))) := by
      rw [spearman, if_neg (by omega), averageRanks_eq, averageRanks_eq, ← rank_eq first, ← rank_eq second]
    have left := one_le_sum_rank (pairs.map (·.1)) (by simp; omega) (mean (rank (pairs.map (·.1))))
    have right := one_le_sum_rank (pairs.map (·.2)) (by simp; omega) (mean (rank (pairs.map (·.2))))
    rw [evaluated, pearson_zip (by simp [sizes]) (by simp [sizes]; omega)]
    simp only [map_map, Function.comp_def] at left right ⊢
    rw [if_neg (not_lt.mpr (le_trans ?_ (root _ (one_le_mul_of_one_le_of_one_le left right)))),
      if_neg (not_or.mpr ⟨not_le.mpr (zero_lt_one.trans_le left), not_le.mpr (zero_lt_one.trans_le right)⟩)]
    exact inv_le_one_of_one_le₀ (one_le_pow₀ (by norm_num))
  · rw [spearman, if_neg (by simp; omega), averageRanks_eq, averageRanks_eq, ← rankdata_eq, ← rankdata_eq, map_map,
      map_map]
    rfl

def squareRoot (x : ℚ) : ℚ := (Nat.sqrt x.num.toNat : ℚ) / Nat.sqrt x.den

theorem one_le_squareRoot (x : ℚ) (above : 1 ≤ x) : 1 ≤ squareRoot x := by
  have scaled : (x.den : ℚ) ≤ x.num := by
    rw [← x.mul_den_eq_num]
    exact le_mul_of_one_le_left (by positivity) above
  have whole : (x.den : ℤ) ≤ x.num := by exact_mod_cast scaled
  have roots : Nat.sqrt x.den ≤ Nat.sqrt x.num.toNat := Nat.sqrt_le_sqrt (by omega)
  exact (one_le_div (by exact_mod_cast Nat.sqrt_pos.mpr x.den_pos)).mpr (by exact_mod_cast roots)

theorem spearmanIc_eq_spearman_five : spearmanIc squareRoot
    [("a", .finite 1), ("b", .finite 2), ("c", .finite 3), ("d", .finite 4), ("e", .finite 5)]
    [("a", .finite 2), ("b", .finite 1), ("c", .finite 3), ("d", .finite 4), ("e", .finite 5)] =
      spearman squareRoot [(1, 2), (2, 1), (3, 3), (4, 4), (5, 5)] :=
  (spearmanIc_eq_spearman one_le_squareRoot
    (show (([("a", 1, 2), ("b", 2, 1), ("c", 3, 3), ("d", 4, 4), ("e", 5, 5)] : List (String × ℚ × ℚ)).map
      (·.1)).Nodup by decide) le_rfl
    (.refl _) (.refl _) (by decide +kernel)).2.1

/-- Equal values are ranked by the names of their symbols. -/
theorem spearmanIc_ties : spearmanIc squareRoot
    [("a", .finite 1), ("b", .finite 1), ("c", .finite 2), ("d", .finite 3), ("e", .finite 4)]
    [("a", .finite 1), ("b", .finite 2), ("c", .finite 2), ("d", .finite 3), ("e", .finite 4)] = some 1 ∧
    spearman squareRoot [(1, 1), (1, 2), (2, 2), (3, 3), (4, 4)] = some (35 / 38) := by
  constructor
  · decide +kernel
  · rw [spearman, averageRanks_eq, averageRanks_eq]
    decide +kernel

theorem rankedPairs (pairs : List (K × K)) :
    (averageRanks (pairs.map (·.1))).zip (averageRanks (pairs.map (·.2))) =
      pairs.map fun pair => (meanRank (pairs.map (·.1)) pair.1, meanRank (pairs.map (·.2)) pair.2) := by
  rw [averageRanks_eq, averageRanks_eq, map_map, map_map, zip_map']
  rfl

omit [IsStrictOrderedRing K] in
theorem meanRank_map {f : K → K} (rising : StrictMono f) (values : List K) (v : K) :
    meanRank (values.map f) (f v) = meanRank values v := by
  simp [meanRank, countP_map, Function.comp_def, rising.lt_iff_lt, rising.injective.eq_iff]

omit [IsStrictOrderedRing K] in
theorem pearson_swap (pairs : List (K × K)) : pearson sqrt (pairs.map Prod.swap) = pearson sqrt pairs := by
  simp [pearson, Function.comp_def, mul_comm, or_comm]

/-- The correlation does not see how the values are scaled, nor which of them are ranked first. -/
theorem spearman_rescaled {f g : K → K} (rising : StrictMono f) (rising' : StrictMono g) (pairs : List (K × K)) :
    spearman sqrt (pairs.map fun pair => (f pair.1, g pair.2)) = spearman sqrt pairs ∧
      spearman sqrt (pairs.map Prod.swap) = spearman sqrt pairs := by
  constructor
  · have first : (pairs.map fun pair => (f pair.1, g pair.2)).map (·.1) = (pairs.map (·.1)).map f := by simp
    have second : (pairs.map fun pair => (f pair.1, g pair.2)).map (·.2) = (pairs.map (·.2)).map g := by simp
    rw [spearman, spearman, rankedPairs, rankedPairs, first, second, map_map, length_map]
    simp only [Function.comp_def, meanRank_map rising, meanRank_map rising']
  · rw [spearman, spearman, rankedPairs, rankedPairs, ← pearson_swap (pairs.map _), length_map]
    simp only [map_map]
    rfl

theorem spearman_rescaled_tied :
    spearman squareRoot ([(1, 1), (1, 2), (2, 2)].map fun pair => (2 * pair.1, pair.2 + 1)) =
      spearman squareRoot [(1, 1), (1, 2), (2, 2)] ∧
    spearman squareRoot ([(1, 1), (1, 2), (2, 2)].map Prod.swap) = spearman squareRoot [(1, 1), (1, 2), (2, 2)] :=
  spearman_rescaled (fun _ _ less => mul_lt_mul_of_pos_left less two_pos)
    (fun _ _ less => add_lt_add_left less 1) _

end FinDashboard.RankCorrelation
