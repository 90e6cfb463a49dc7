import Mathlib.Algebra.BigOperators.Fin
import Mathlib.Algebra.Order.Archimedean.Basic
import Mathlib.Algebra.Order.BigOperators.Ring.Finset

/-!
# The projection onto the capped simplex

Weights between zero and a cap that sum to one, nearest to a vector: the vector is shifted and clipped, and a
bisection finds the shift. Entries beyond a trillion are clipped before, so that the weights are nearest to the
clipped vector only.
-/

namespace FinDashboard.CappedSimplex

open List

variable {K : Type} [LinearOrder K] {n : ℕ}

section Clip

variable {lower upper : K}

def clip (lower upper x : K) : K := min (max x lower) upper

theorem clip_mono {a b : K} (le : a ≤ b) : clip lower upper a ≤ clip lower upper b :=
  min_le_min_right _ (max_le_max_right _ le)

theorem clip_bounds (le : lower ≤ upper) (a : K) : lower ≤ clip lower upper a ∧ clip lower upper a ≤ upper :=
  ⟨le_min (le_max_right _ _) le, min_le_right _ _⟩

theorem clip_of_mem {a : K} (inside : lower ≤ a ∧ a ≤ upper) : clip lower upper a = a := by
  rw [clip, max_eq_left inside.1, min_eq_left inside.2]

end Clip

variable [Field K]

/-- `v.min()` -/
def least (v : Fin n → K) : K := (ofFn v).min?.getD 0

/-- `v.max()` -/
def greatest (v : Fin n → K) : K := (ofFn v).max?.getD 0

/-- The sum of the clipped weights for a shift. -/
def total (v : Fin n → K) (cap shift : K) : K := ∑ i, clip 0 cap (v i - shift)

/-- One step of the bisection. -/
def halve (f : K → K) (bracket : K × K) : K × K :=
  let middle := (bracket.1 + bracket.2) / 2
  if 1 < f middle then (middle, bracket.2) else (bracket.1, middle)

/-- The weights; a cap that admits none is refused with the number of entries. -/
def projectOntoCappedSimplex (vector : Fin n → K) (cap : K) : Except (K × ℕ) (Fin n → K) :=
  if cap * n < 1 - 1 / 10 ^ 12 then .error (cap, n)
  else
    let v := fun i => clip (-10 ^ 12) (10 ^ 12) (vector i)
    let bracket := (halve (total v cap))^[100] (least v - cap - 1, greatest v + 1)
    .ok fun i => clip 0 cap (v i - (bracket.1 + bracket.2) / 2)

structure Feasible (cap : K) (x : Fin n → K) : Prop where
  bounds : ∀ i, 0 ≤ x i ∧ x i ≤ cap
  budget : ∑ i, x i = 1

def squaredDistance (x y : Fin n → K) : K := ∑ i, (x i - y i) ^ 2

/-- How far the sum of the weights may be from one. -/
def bisectionError (vector : Fin n → K) (cap : K) : K :=
  n * (greatest vector - least vector + cap + 2) / 2 ^ 100

/-- Weights between zero and the cap that sum to one, and keep the order of the vector. -/
structure CappedWeights (vector : Fin n → K) (cap : K) (w : Fin n → K) : Prop where
  bounds : ∀ i, 0 ≤ w i ∧ w i ≤ cap
  budget : |∑ i, w i - 1| ≤ bisectionError vector cap
  ordered : ∀ i j, vector i ≤ vector j → w i ≤ w j

/-- No feasible point is nearer, but for a multiple of the bisection error. -/
def Nearest (vector : Fin n → K) (cap : K) (w : Fin n → K) : Prop :=
  ∀ x, Feasible cap x → squaredDistance w vector ≤ squaredDistance x vector +
    2 * (max |greatest vector| |least vector| + cap + 1) * bisectionError vector cap

variable [IsStrictOrderedRing K] {v vector w x : Fin n → K} {lower upper cap shift : K}

theorem clip_sub_le {a b : K} (le : a ≤ b) : clip lower upper b - clip lower upper a ≤ b - a := by
  unfold clip
  rcases le_total (max b lower) upper with low | high
  · have low' := (max_le_max_right lower le).trans low
    rw [min_eq_left low, min_eq_left low']
    rcases le_total b lower with under | beyond
    · rw [max_eq_right under, max_eq_right (le.trans under)]
      linarith
    · rw [max_eq_left beyond]
      linarith [le_max_left a lower]
  · rw [min_eq_right high]
    rcases le_total (max a lower) upper with low' | high'
    · rw [min_eq_left low']
      rcases le_total b lower with under | beyond
      · rw [max_eq_right under] at high
        linarith [le_max_right a lower]
      · rw [max_eq_left beyond] at high
        linarith [le_max_left a lower]
    · rw [min_eq_right high']
      linarith

/-- The clipped value is the nearest one of the interval: the way to any other one leads away. -/
theorem clip_obtuse {a y : K} (inside : lower ≤ y ∧ y ≤ upper) :
    0 ≤ (clip lower upper a - a) * (y - clip lower upper a) := by
  unfold clip
  rcases le_total a lower with under | beyond
  · rw [max_eq_right under, min_eq_left (inside.1.trans inside.2)]
    exact mul_nonneg (by linarith) (by linarith)
  · rw [max_eq_left beyond]
    rcases le_total a upper with low | high
    · rw [min_eq_left low, sub_self, zero_mul]
    · rw [min_eq_right high]
      exact mul_nonneg_of_nonpos_of_nonpos (by linarith) (by linarith)

omit [IsStrictOrderedRing K] in
theorem exists_least (i : Fin n) : (∃ j, least v = v j) ∧ least v ≤ v i := by
  obtain ⟨a, found⟩ := Option.isSome_iff_exists.mp (isSome_min?_of_mem (mem_ofFn.mpr ⟨i, rfl⟩ : v i ∈ ofFn v))
  obtain ⟨j, same⟩ := mem_ofFn.mp (min?_mem found)
  rw [least, found, Option.getD_some]
  exact ⟨⟨j, same.symm⟩, (min?_eq_some_iff.mp found).2 _ (mem_ofFn.mpr ⟨i, rfl⟩)⟩

omit [IsStrictOrderedRing K] in
theorem exists_greatest (i : Fin n) : (∃ j, greatest v = v j) ∧ v i ≤ greatest v := by
  obtain ⟨a, found⟩ := Option.isSome_iff_exists.mp (isSome_max?_of_mem (mem_ofFn.mpr ⟨i, rfl⟩ : v i ∈ ofFn v))
  obtain ⟨j, same⟩ := mem_ofFn.mp (max?_mem found)
  rw [greatest, found, Option.getD_some]
  exact ⟨⟨j, same.symm⟩, (max?_eq_some_iff.mp found).2 _ (mem_ofFn.mpr ⟨i, rfl⟩)⟩

/-- The bracket keeps a shift with too large a sum on the left, and one with too small a sum on the right. -/
theorem iterate_halve {f : K → K} (steps : ℕ) (left : 1 ≤ f lower) (right : f upper ≤ 1) (open' : lower ≤ upper) :
    1 ≤ f ((halve f)^[steps] (lower, upper)).1 ∧ f ((halve f)^[steps] (lower, upper)).2 ≤ 1 ∧
      lower ≤ ((halve f)^[steps] (lower, upper)).1 ∧ ((halve f)^[steps] (lower, upper)).2 ≤ upper ∧
      ((halve f)^[steps] (lower, upper)).2 - ((halve f)^[steps] (lower, upper)).1 = (upper - lower) / 2 ^ steps := by
  induction steps with
  | zero => simp [left, right]
  | succ steps ih =>
    obtain ⟨left', right', low, high, width⟩ := ih
    have some : (0 : K) ≤ (upper - lower) / 2 ^ steps := div_nonneg (sub_nonneg.mpr open') (by positivity)
    rw [Function.iterate_succ_apply']
    generalize (halve f)^[steps] (lower, upper) = now at *
    have half : (upper - lower) / 2 ^ (steps + 1) = (now.2 - now.1) / 2 := by
      rw [width, pow_succ, div_div]
    rw [half]
    unfold halve
    dsimp only
    split_ifs with more
    · exact ⟨more.le, right', by linarith, high, by ring⟩
    · exact ⟨left', not_lt.mp more, low, by linarith, by ring⟩

/-- The sum falls with the shift, and no faster than by the number of entries. -/
theorem total_sub_le (v : Fin n → K) (cap : K) {other : K} (le : shift ≤ other) :
    total v cap other ≤ total v cap shift ∧ total v cap shift - total v cap other ≤ n * (other - shift) := by
  unfold total
  refine ⟨Finset.sum_le_sum fun i _ => clip_mono (by linarith), ?_⟩
  rw [← Finset.sum_sub_distrib]
  calc ∑ i, (clip 0 cap (v i - shift) - clip 0 cap (v i - other))
      ≤ ∑ _i : Fin n, (other - shift) :=
        Finset.sum_le_sum fun i _ => (clip_sub_le (by linarith)).trans_eq (by ring)
    _ = n * (other - shift) := by rw [Finset.sum_const, Finset.card_univ, Fintype.card_fin, nsmul_eq_mul]

/-- The bracket contains the shift, whatever the vector is, also if the cap leaves no choice. -/
theorem total_bracket (some : 0 < n) (feasible : 1 ≤ cap * n) :
    1 ≤ total v cap (least v - cap - 1) ∧ total v cap (greatest v + 1) ≤ 1 := by
  have room : (0 : K) < n := Nat.cast_pos.mpr some
  have positive := pos_of_mul_pos_left (zero_lt_one.trans_le feasible) room.le
  constructor
  · have full : ∀ i, clip 0 cap (v i - (least v - cap - 1)) = cap := fun i => by
      have low := (exists_least (v := v) i).2
      rw [clip, max_eq_left (by linarith), min_eq_right (by linarith)]
    rw [total, Finset.sum_congr rfl fun i _ => full i, Finset.sum_const, Finset.card_univ, Fintype.card_fin,
      nsmul_eq_mul, mul_comm]
    exact feasible
  · have empty : ∀ i, clip 0 cap (v i - (greatest v + 1)) = 0 := fun i => by
      have high := (exists_greatest (v := v) i).2
      rw [clip, max_eq_right (by linarith), min_eq_left positive.le]
    rw [total, Finset.sum_congr rfl fun i _ => empty i, Finset.sum_const_zero]
    exact zero_le_one

/-- The weights of a shift are nearest among the points with their sum, and nearly so among the feasible ones. -/
theorem squaredDistance_clip_le (shift : K) (bounds : Feasible cap x) :
    squaredDistance (fun i => clip 0 cap (v i - shift)) v ≤
      squaredDistance x v + 2 * |shift| * |total v cap shift - 1| := by
  have each : ∀ i, (clip 0 cap (v i - shift) - v i) ^ 2 ≤
      (x i - v i) ^ 2 + 2 * (shift * (x i - clip 0 cap (v i - shift))) := by
    intro i
    have obtuse := clip_obtuse (a := v i - shift) (bounds.bounds i)
    have square := sq_nonneg (x i - clip 0 cap (v i - shift))
    linarith
  have sum := Finset.sum_le_sum fun i (_ : i ∈ Finset.univ) => each i
  rw [Finset.sum_add_distrib, ← Finset.mul_sum, ← Finset.mul_sum, Finset.sum_sub_distrib, bounds.budget] at sum
  have product : shift * (1 - total v cap shift) ≤ |shift| * |total v cap shift - 1| := by
    rw [abs_sub_comm, ← abs_mul]
    exact le_abs_self _
  unfold squaredDistance
  unfold total at product ⊢
  linarith

theorem spread_clip_le (some : 0 < n) :
    greatest (fun i => clip lower upper (vector i)) - least (fun i => clip lower upper (vector i)) ≤
      greatest vector - least vector := by
  obtain ⟨j, high⟩ := (exists_greatest (v := fun i => clip lower upper (vector i)) ⟨0, some⟩).1
  obtain ⟨k, low⟩ := (exists_least (v := fun i => clip lower upper (vector i)) ⟨0, some⟩).1
  rw [high, low]
  have above := (exists_greatest (v := vector) j).2
  have below := (exists_least (v := vector) k).2
  rcases le_total (vector k) (vector j) with rising | falling
  · linarith [(clip_sub_le rising : clip lower upper _ - clip lower upper _ ≤ _)]
  · linarith [(clip_mono falling : clip lower upper _ ≤ clip lower upper _), (exists_greatest (v := vector) k).2]

theorem exists_shift (vector : Fin n → K) (feasible : 1 ≤ cap * n) : ∃ shift,
    projectOntoCappedSimplex vector cap =
        .ok (fun i => clip 0 cap (clip (-10 ^ 12) (10 ^ 12) (vector i) - shift)) ∧
      |total (fun i => clip (-10 ^ 12) (10 ^ 12) (vector i)) cap shift - 1| ≤ bisectionError vector cap ∧
      least (fun i => clip (-10 ^ 12) (10 ^ 12) (vector i)) - cap - 1 ≤ shift ∧
      shift ≤ greatest (fun i => clip (-10 ^ 12) (10 ^ 12) (vector i)) + 1 := by
  have some : 0 < n := by
    rcases Nat.eq_zero_or_pos n with rfl | some
    · rw [Nat.cast_zero, mul_zero] at feasible
      exact absurd feasible zero_lt_one.not_ge
    · exact some
  have admitted : ¬cap * n < 1 - 1 / 10 ^ 12 := by
    have tolerance : (0 : K) < 1 / 10 ^ 12 := by positivity
    linarith
  have spread : greatest (fun i => clip (-10 ^ 12) (10 ^ 12) (vector i)) - _ ≤ _ := spread_clip_le some
  generalize result : projectOntoCappedSimplex vector cap = weights
  unfold projectOntoCappedSimplex at result
  rw [if_neg admitted] at result
  dsimp only at result
  generalize (fun i => clip (-10 ^ 12) (10 ^ 12) (vector i)) = v at *
  obtain ⟨left, right⟩ := total_bracket (v := v) some feasible
  have positive : 0 < cap := pos_of_mul_pos_left (zero_lt_one.trans_le feasible) (Nat.cast_nonneg n)
  have open' : least v - cap - 1 ≤ greatest v + 1 := by
    linarith [(exists_least (v := v) ⟨0, some⟩).2, (exists_greatest (v := v) ⟨0, some⟩).2]
  obtain ⟨more, fewer, low, high, width⟩ := iterate_halve 100 left right open'
  generalize (halve (total v cap))^[100] (least v - cap - 1, greatest v + 1) = bracket at *
  have nonneg : 0 ≤ bracket.2 - bracket.1 := width ▸ div_nonneg (sub_nonneg.mpr open') (by positivity)
  have rising := (total_sub_le v cap (by linarith : bracket.1 ≤ (bracket.1 + bracket.2) / 2)).2
  have falling := (total_sub_le v cap (by linarith : (bracket.1 + bracket.2) / 2 ≤ bracket.2)).2
  have error : (n : K) * (bracket.2 - bracket.1) ≤ bisectionError vector cap := by
    rw [width, bisectionError, mul_div_assoc]
    exact mul_le_mul_of_nonneg_left (div_le_div_of_nonneg_right (by linarith) (by positivity)) (Nat.cast_nonneg n)
  have halfWidth : (n : K) * ((bracket.1 + bracket.2) / 2 - bracket.1) ≤ n * (bracket.2 - bracket.1) :=
    mul_le_mul_of_nonneg_left (by linarith) (Nat.cast_nonneg n)
  have halfWidth' : (n : K) * (bracket.2 - (bracket.1 + bracket.2) / 2) ≤ n * (bracket.2 - bracket.1) :=
    mul_le_mul_of_nonneg_left (by linarith) (Nat.cast_nonneg n)
  exact ⟨_, result.symm, abs_le.mpr ⟨by linarith, by linarith⟩, by linarith, by linarith⟩

/-- The projection meets its constraints for every vector, and is nearest for entries up to a trillion. -/
theorem projectOntoCappedSimplex_spec (vector : Fin n → K) (feasible : 1 ≤ cap * n) :
    ∃ w, projectOntoCappedSimplex vector cap = .ok w ∧ CappedWeights vector cap w ∧
      ((∀ i, |vector i| ≤ 10 ^ 12) → Nearest vector cap w) := by
  obtain ⟨shift, result, error, low, high⟩ := exists_shift vector feasible
  have positive := pos_of_mul_pos_left (zero_lt_one.trans_le feasible) (Nat.cast_nonneg n)
  refine ⟨_, result, ⟨fun i => clip_bounds positive.le _, error, fun i j le => ?_⟩, fun bounded x point => ?_⟩
  · exact clip_mono (sub_le_sub_right (clip_mono le) shift)
  · have same : ∀ i, clip (-10 ^ 12) (10 ^ 12) (vector i) = vector i := fun i => clip_of_mem (abs_le.mp (bounded i))
    simp only [same] at *
    have size : |shift| ≤ max |greatest vector| |least vector| + cap + 1 := by
      have first := neg_abs_le (least vector)
      have second := le_abs_self (greatest vector)
      have left := le_max_left |greatest vector| |least vector|
      have right := le_max_right |greatest vector| |least vector|
      exact abs_le.mpr ⟨by linarith, by linarith⟩
    have product : |shift| * |total vector cap shift - 1| ≤
        (max |greatest vector| |least vector| + cap + 1) * bisectionError vector cap :=
      mul_le_mul size error (abs_nonneg _) ((abs_nonneg _).trans size)
    have near := squaredDistance_clip_le (v := vector) shift point
    linarith

theorem projectOntoCappedSimplex_spec_unit :
    ∃ w, projectOntoCappedSimplex ![(1 : ℚ), 0] 1 = .ok w ∧ CappedWeights ![1, 0] 1 w ∧
      ((∀ i, |(![1, 0] : Fin 2 → ℚ) i| ≤ 10 ^ 12) → Nearest ![1, 0] 1 w) :=
  projectOntoCappedSimplex_spec ![1, 0] (by decide +kernel)

/-- Two and one and a half trillion are clipped to the same entry, and the weight is shared. -/
theorem trillions_not_nearest :
    ¬∃ w, projectOntoCappedSimplex ![(2 * 10 ^ 12 : ℚ), 15 * 10 ^ 11] 1 = .ok w ∧
      CappedWeights ![2 * 10 ^ 12, 15 * 10 ^ 11] 1 w ∧ Nearest ![2 * 10 ^ 12, 15 * 10 ^ 11] 1 w := by
  rintro ⟨w, projected, -, nearest⟩
  have point : Feasible (1 : ℚ) ![1, 0] := ⟨by decide +kernel, by decide +kernel⟩
  have near := nearest _ point
  unfold projectOntoCappedSimplex at projected
  rw [if_neg (by decide +kernel)] at projected
  obtain rfl := Except.ok.inj projected
  revert near
  decide +kernel

end FinDashboard.CappedSimplex
