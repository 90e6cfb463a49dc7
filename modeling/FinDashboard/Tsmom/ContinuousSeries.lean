import FinDashboard.Tsmom.Roll
import Mathlib.Algebra.Order.Field.Basic
import Mathlib.Tactic.FieldSimp
import Mathlib.Tactic.Linarith
import Mathlib.Tactic.Ring

/-!
# The adjusted series

From the bar after a roll on the closes are adjusted by the step from the old contract to the new one. That takes
the gap a second time; it would be hidden by the step back, or by adjusting the closes before it.
-/

namespace FinDashboard.Tsmom

open List

inductive AdjustmentMethod
  | ratio | difference | none
deriving DecidableEq

structure ContinuousSeries (K : Type) where
  symbol : String
  method : AdjustmentMethod
  dates : List String
  adjustedCloses : List K
  rollEvents : List (RollEvent K)

variable {K : Type} [Field K] [LinearOrder K]

/-- What a roll does to the factor, or the shift. -/
def AdjustmentMethod.accumulate (method : AdjustmentMethod) (total : K) (ev : RollEvent K) : K :=
  match method with
  | .ratio => if 0 < ev.frontPrice then total * (ev.nextPrice / ev.frontPrice) else total
  | .difference => total + (ev.nextPrice - ev.frontPrice)
  | .none => total

/-- A close with the factor, or the shift. -/
def AdjustmentMethod.adjust (method : AdjustmentMethod) (close total : K) : K :=
  match method with
  | .ratio => close * total
  | .difference => close + total
  | .none => close

/-- The loop over the bars from one of them on: the rolls before a bar are taken into the total. -/
def adjustFrom (method : AdjustmentMethod) (i : ℕ) : List K → List (RollEvent K) → K → List K
  | [], _, _ => []
  | close :: rest, rolls, total =>
    let due := fun ev : RollEvent K => decide (ev.barIndex < i)
    let total := (rolls.takeWhile due).foldl method.accumulate total
    method.adjust close total :: adjustFrom method (i + 1) rest (rolls.dropWhile due) total

def buildContinuousSeries (active : ActiveContractSeries K) (method : AdjustmentMethod) : ContinuousSeries K where
  symbol := active.symbol
  method := method
  dates := active.dates
  adjustedCloses := adjustFrom method 0 active.closes active.rollEvents
    (match method with | .ratio => 1 | _ => 0)
  rollEvents := active.rollEvents

/-- At each roll, one after the other, the closes go from the old contract to the new one, and the event has both
closes of its bar; `closeOf` are the closes of the contracts. -/
structure Spliced (active : ActiveContractSeries K) (closeOf : String → ℕ → K) : Prop where
  ordered : active.rollEvents.Pairwise fun event later => event.barIndex < later.barIndex
  old : ∀ event ∈ active.rollEvents, event.frontPrice = closeOf event.fromContract event.barIndex ∧
    active.closes[event.barIndex]? = some (closeOf event.fromContract event.barIndex)
  new : ∀ event ∈ active.rollEvents, event.nextPrice = closeOf event.toContract event.barIndex ∧
    active.closes[event.barIndex + 1]? = some (closeOf event.toContract (event.barIndex + 1))

/-- From the bar of a roll to the next one the adjusted closes move as the new contract does. -/
def HidesGap (series : ContinuousSeries K) (closeOf : String → ℕ → K) : Prop :=
  ∀ event ∈ series.rollEvents, ∃ before ∈ series.adjustedCloses[event.barIndex]?,
    ∃ after ∈ series.adjustedCloses[event.barIndex + 1]?,
      match series.method with
      | .ratio => after / before = closeOf event.toContract (event.barIndex + 1) / event.nextPrice
      | .difference => after - before = closeOf event.toContract (event.barIndex + 1) - event.nextPrice
      | .none => True

/-- There is no gap: the contracts close alike, or their factor is minus one. -/
def Gapless (method : AdjustmentMethod) (event : RollEvent K) : Prop :=
  match method with
  | .ratio => event.nextPrice = event.frontPrice ∨ 0 < event.frontPrice ∧ event.nextPrice = -event.frontPrice
  | .difference => event.nextPrice = event.frontPrice
  | .none => True

variable {method : AdjustmentMethod} {active : ActiveContractSeries K} {closeOf : String → ℕ → K}

theorem adjustFrom_getElem? (i j : ℕ) (closes : List K) (rolls : List (RollEvent K)) (total : K) :
    (adjustFrom method i closes rolls total)[j]? = closes[j]?.map fun close =>
      method.adjust close ((rolls.takeWhile fun ev => ev.barIndex < i + j).foldl method.accumulate total) := by
  induction closes generalizing i j rolls total with
  | nil => rfl
  | cons close rest ih =>
    cases j with
    | zero => rfl
    | succ j =>
      have split : (rolls.takeWhile fun ev => ev.barIndex < i + (j + 1)) =
          (rolls.takeWhile fun ev => ev.barIndex < i) ++
            (rolls.dropWhile fun ev => ev.barIndex < i).takeWhile fun ev => ev.barIndex < i + 1 + j := by
        rw [← Nat.add_assoc, Nat.add_right_comm]
        induction rolls with
        | nil => rfl
        | cons ev later split =>
          by_cases due : ev.barIndex < i
          · have soon : ev.barIndex < i + 1 + j := by omega
            simp [due, soon, split]
          · simp [due]
      rw [adjustFrom, getElem?_cons_succ, getElem?_cons_succ, ih, split]
      simp only [foldl_append]

omit [Field K] [LinearOrder K] in
theorem takeWhile_rolls {rolls : List (RollEvent K)} {event : RollEvent K}
    (ordered : rolls.Pairwise fun event later => event.barIndex < later.barIndex) (member : event ∈ rolls) :
    (rolls.takeWhile fun ev => ev.barIndex < event.barIndex + 1) =
      (rolls.takeWhile fun ev => ev.barIndex < event.barIndex) ++ [event] := by
  induction rolls with
  | nil => cases member
  | cons first rest ih =>
    obtain ⟨earlier, ordered⟩ := pairwise_cons.mp ordered
    rcases mem_cons.mp member with rfl | later
    · have stops : (rest.takeWhile fun ev => ev.barIndex < event.barIndex + 1) = [] := by
        cases rest with
        | nil => rfl
        | cons next rest =>
          have after := earlier next mem_cons_self
          exact takeWhile_cons_of_neg (by rw [decide_eq_true_iff]; omega)
      rw [takeWhile_cons, takeWhile_cons, if_pos (decide_eq_true (Nat.lt_succ_self _)), stops, if_neg (by simp)]
      rfl
    · have before := earlier event later
      have soon : first.barIndex < event.barIndex + 1 := by omega
      rw [takeWhile_cons, takeWhile_cons, if_pos (decide_eq_true soon), if_pos (decide_eq_true before), ih ordered later]
      rfl

variable [IsStrictOrderedRing K]

theorem foldl_accumulate_ne_zero {rolls : List (RollEvent K)} (priced : ∀ event ∈ rolls, event.nextPrice ≠ 0)
    {total : K} (some : total ≠ 0) : rolls.foldl AdjustmentMethod.ratio.accumulate total ≠ 0 := by
  induction rolls generalizing total with
  | nil => exact some
  | cons event rest ih =>
    refine ih (fun event member => priced event (mem_cons_of_mem _ member)) ?_
    unfold AdjustmentMethod.accumulate
    dsimp only
    split_ifs with positive
    · exact mul_ne_zero some (div_ne_zero (priced event mem_cons_self) positive.ne')
    · exact some

/-- The adjusted series hides the gaps exactly if there are none. -/
theorem buildContinuousSeries_hidesGap_iff (spliced : Spliced active closeOf)
    (priced : ∀ event ∈ active.rollEvents, event.frontPrice ≠ 0 ∧ event.nextPrice ≠ 0 ∧
      closeOf event.toContract (event.barIndex + 1) ≠ 0) :
    HidesGap (buildContinuousSeries active method) closeOf ↔ ∀ event ∈ active.rollEvents, Gapless method event := by
  refine forall₂_congr fun event member => ?_
  obtain ⟨front, old⟩ := spliced.old event member
  obtain ⟨next, new⟩ := spliced.new event member
  obtain ⟨frontPriced, nextPriced, newPriced⟩ := priced event member
  have rolls := takeWhile_rolls spliced.ordered member
  rw [← front] at old
  simp only [buildContinuousSeries, adjustFrom_getElem?, Nat.zero_add, rolls, old, new, Option.map_some,
    Option.mem_some_iff, exists_eq_left', foldl_append, foldl_cons, foldl_nil]
  generalize earlier : (active.rollEvents.takeWhile fun ev => ev.barIndex < event.barIndex) = rolled
  cases method with
  | none => rfl
  | difference =>
    dsimp only [AdjustmentMethod.adjust, AdjustmentMethod.accumulate, Gapless]
    constructor
    · intro moves
      linarith
    · intro alike
      rw [alike]
      ring
  | ratio =>
    have factor : rolled.foldl AdjustmentMethod.ratio.accumulate 1 ≠ 0 := by
      refine foldl_accumulate_ne_zero (fun ev listed => ?_) one_ne_zero
      exact (priced ev ((takeWhile_sublist _).subset (earlier ▸ listed))).2.1
    dsimp only [AdjustmentMethod.adjust, AdjustmentMethod.accumulate, Gapless]
    generalize rolled.foldl AdjustmentMethod.ratio.accumulate 1 = total at factor ⊢
    split_ifs with positive
    · rw [and_iff_right positive, ← sq_eq_sq_iff_eq_or_eq_neg,
        div_eq_div_iff (mul_ne_zero frontPriced factor) nextPriced]
      have apart : closeOf event.toContract (event.barIndex + 1) *
          (total * (event.nextPrice / event.frontPrice)) * event.nextPrice =
          closeOf event.toContract (event.barIndex + 1) * total / event.frontPrice * event.nextPrice ^ 2 := by
        ring
      have together : closeOf event.toContract (event.barIndex + 1) * (event.frontPrice * total) =
          closeOf event.toContract (event.barIndex + 1) * total / event.frontPrice * event.frontPrice ^ 2 := by
        field_simp
      rw [apart, together]
      exact mul_right_inj' (div_ne_zero (mul_ne_zero newPriced factor) frontPriced)
    · rw [or_iff_left fun negated => positive negated.1, mul_div_mul_right _ _ factor,
        div_eq_div_iff frontPriced nextPriced]
      exact ⟨fun same => mul_left_cancel₀ newPriced same, fun alike => by rw [alike]⟩

/-- One roll from a hundred to two hundred, after which the new contract stands still. -/
def oneRoll (frontPrice nextPrice : ℚ) : ActiveContractSeries ℚ where
  symbol := "IF"
  dates := ["0", "1"]
  closes := [frontPrice, nextPrice]
  opens := [frontPrice, nextPrice]
  volumes := [1, 1]
  contractIds := ["FRONT", "NEXT"]
  rollEvents := [⟨"IF", 0, "FRONT", "NEXT", frontPrice, nextPrice, (frontPrice - nextPrice) / nextPrice,
    "volume_crossover"⟩]

def stillCloses (frontPrice nextPrice : ℚ) (id : String) (_ : ℕ) : ℚ := if id = "FRONT" then frontPrice else nextPrice

theorem spliced_oneRoll (frontPrice nextPrice : ℚ) :
    Spliced (oneRoll frontPrice nextPrice) (stillCloses frontPrice nextPrice) where
  ordered := pairwise_singleton _ _
  old := by simp [oneRoll, stillCloses]
  new := by simp [oneRoll, stillCloses]

theorem buildContinuousSeries_hidesGap_iff_oneRoll :
    HidesGap (buildContinuousSeries (oneRoll 100 200) .ratio) (stillCloses 100 200) ↔
      ∀ event ∈ (oneRoll 100 200).rollEvents, Gapless .ratio event :=
  buildContinuousSeries_hidesGap_iff (spliced_oneRoll 100 200) (by decide +kernel)

/-- The new contract stands still, and the adjusted close is four times the one before. -/
theorem oneRoll_doubles_gap : Spliced (oneRoll 100 200) (stillCloses 100 200) ∧
    ¬HidesGap (buildContinuousSeries (oneRoll 100 200) .ratio) (stillCloses 100 200) ∧
      (buildContinuousSeries (oneRoll 100 200) .ratio).adjustedCloses = [100, 400] := by
  refine ⟨spliced_oneRoll 100 200, fun hides => ?_, by decide +kernel⟩
  obtain ⟨before, given, after, moved, same⟩ := hides _ mem_cons_self
  obtain rfl := Option.some.inj given
  obtain rfl := Option.some.inj moved
  change (_ : ℚ) / _ = _ / _ at same
  revert same
  decide +kernel

end FinDashboard.Tsmom
