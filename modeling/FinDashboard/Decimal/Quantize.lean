import Mathlib.Data.Rat.Floor

/-!
# Quantizing decimals

`Decimal.quantize` with the default context rounds to a fixed number of digits, ties going
to the even neighbour. Rounding is monotone and leaves the multiples of the quantum alone.
-/

namespace FinDashboard.Decimal

/-- The nearest integer, the even one of two at the same distance. -/
def roundHalfEven (x : ℚ) : ℤ :=
  if x - ⌊x⌋ < 1 / 2 then ⌊x⌋
  else if 1 / 2 < x - ⌊x⌋ then ⌊x⌋ + 1
  else if ⌊x⌋ % 2 = 0 then ⌊x⌋ else ⌊x⌋ + 1

/-- `value.quantize(Decimal(1).scaleb(-digits))`. -/
def quantize (digits : ℕ) (value : ℚ) : ℚ := roundHalfEven (value * 10 ^ digits) / 10 ^ digits

/-- The multiples of the quantum. -/
def OnGrid (digits : ℕ) (value : ℚ) : Prop := ∃ units : ℤ, value * 10 ^ digits = units

theorem floor_le_roundHalfEven (x : ℚ) : ⌊x⌋ ≤ roundHalfEven x := by
  unfold roundHalfEven
  split_ifs <;> omega

theorem roundHalfEven_le (x : ℚ) : roundHalfEven x ≤ ⌊x⌋ + 1 := by
  unfold roundHalfEven
  split_ifs <;> omega

theorem roundHalfEven_intCast (n : ℤ) : roundHalfEven n = n := by
  simp [roundHalfEven]

variable {x y : ℚ}

theorem roundHalfEven_mono (h : x ≤ y) : roundHalfEven x ≤ roundHalfEven y := by
  obtain hlt | heq := lt_or_eq_of_le (Int.floor_le_floor h)
  · calc roundHalfEven x ≤ ⌊x⌋ + 1 := roundHalfEven_le x
      _ ≤ ⌊y⌋ := hlt
      _ ≤ roundHalfEven y := floor_le_roundHalfEven y
  · -- the same integer part: only the fractions decide
    have hfraction : x - ⌊y⌋ ≤ y - ⌊y⌋ := by linarith
    unfold roundHalfEven
    rw [heq]
    split_ifs <;> first | omega | (exfalso; linarith)

theorem pow_ten_pos (digits : ℕ) : (0 : ℚ) < 10 ^ digits := by positivity

theorem quantize_mono (digits : ℕ) (h : x ≤ y) : quantize digits x ≤ quantize digits y := by
  have hscaled := mul_le_mul_of_nonneg_right h (pow_ten_pos digits).le
  have hunits : ((roundHalfEven (x * 10 ^ digits) : ℤ) : ℚ) ≤ roundHalfEven (y * 10 ^ digits) := by
    exact_mod_cast roundHalfEven_mono hscaled
  exact div_le_div_of_nonneg_right hunits (pow_ten_pos digits).le

variable {digits : ℕ}

theorem quantize_of_onGrid {x : ℚ} (h : OnGrid digits x) : quantize digits x = x := by
  obtain ⟨units, hunits⟩ := h
  unfold quantize
  rw [hunits, roundHalfEven_intCast, ← hunits, mul_div_assoc, div_self (pow_ten_pos digits).ne', mul_one]

theorem onGrid_quantize (digits : ℕ) (x : ℚ) : OnGrid digits (quantize digits x) := by
  refine ⟨roundHalfEven (x * 10 ^ digits), ?_⟩
  unfold quantize
  rw [div_mul_cancel₀ _ (pow_ten_pos digits).ne']

/-- Exactly the multiples of the quantum are left alone. -/
theorem quantize_eq_self_iff {x : ℚ} : quantize digits x = x ↔ OnGrid digits x := by
  constructor
  · intro h
    rw [← h]
    exact onGrid_quantize digits x
  · exact quantize_of_onGrid

theorem onGrid_zero (digits : ℕ) : OnGrid digits 0 := ⟨0, by simp⟩

theorem OnGrid.sub (hx : OnGrid digits x) (hy : OnGrid digits y) : OnGrid digits (x - y) := by
  obtain ⟨m, hm⟩ := hx
  obtain ⟨n, hn⟩ := hy
  refine ⟨m - n, ?_⟩
  push_cast
  rw [sub_mul, hm, hn]

/-- A multiple of the quantum bounds what rounds below it. -/
theorem quantize_le_of_onGrid (hy : OnGrid digits y) (h : x ≤ y) : quantize digits x ≤ y :=
  (quantize_mono digits h).trans (quantize_of_onGrid hy).le

theorem quantize_nonneg {x : ℚ} (h : 0 ≤ x) : 0 ≤ quantize digits x :=
  (quantize_of_onGrid (onGrid_zero digits)).ge.trans (quantize_mono digits h)

end FinDashboard.Decimal
