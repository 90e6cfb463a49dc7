import FinDashboard.Instruments.Continuous
import FinDashboard.Runs.Fallible
import Mathlib.Algebra.Order.Field.Basic
import Mathlib.Algebra.Order.Ring.Rat
import Mathlib.Data.List.Chain
import Mathlib.Tactic.FieldSimp
import Mathlib.Tactic.LinearCombination

/-!
# Jumps at the rolls

A roll is adjusted from the last price of the slice before to the first price of its own slice. Where the
slices overlap, these are prices of different times: the series then jumps by what the new contract has moved
in between, and every later point with it.
-/

namespace FinDashboard.Instruments

open List

section Model

variable {K : Type} [Field K] [LinearOrder K] (method : AdjustmentMethod)

/-- From a point to the next one the series moves as the new contract does from `early` on. -/
def OwnMove (point next : ContinuousFuturesPoint K) (early : SliceBar K) : Prop :=
  match method with
  | .none => True
  | .ratio => next.price / point.price = next.rawPrice / early.price
  | .difference => next.price - point.price = next.rawPrice - early.price

/-- A roll adds no jump where its contract has a bar at the point before it. -/
def NoJump (slices : List (ContractSlice K)) (point next : ContinuousFuturesPoint K) : Prop :=
  next.rollFlag = true → ∀ slice ∈ slices, slice.contractCode = next.contractCode →
    ∀ early ∈ slice.bars, early.timestamp = point.timestamp → OwnMove method point next early

/-- The prices a roll is adjusted by; without two positive ones it is not. -/
def rollPrices (prev slice : ContractSlice K) : K × K :=
  match prev.bars.getLast?, slice.bars.head? with
  | some last, some first => if 0 < first.price ∧ 0 < last.price then (last.price, first.price) else (1, 1)
  | _, _ => (1, 1)

/-- The prices of the adjustment are in the proportion, or at the distance, of the last price before the roll
and the price of the new contract at that time. -/
def InStep (prices : K × K) (held early rolled : K) : Prop :=
  match method with
  | .none => True
  | .ratio => rolled = 0 ∨ prices.1 * early = held * prices.2
  | .difference => prices.1 + early = held + prices.2

/-- A slice takes over in step from the slice that added the last point. -/
def Handover (slices : List (ContractSlice K)) (prev holder slice : ContractSlice K) (fresh : List (SliceBar K)) :
    Prop :=
  ∀ rolled ∈ fresh.head?, ∀ held ∈ holder.bars.getLast?, ∀ own ∈ slices, own.contractCode = slice.contractCode →
    ∀ early ∈ own.bars, early.timestamp = holder.finish →
      InStep method (rollPrices prev slice) held.price early.price rolled.price

/-- All handovers are in step. `prev` is the slice before, `before` the last one with bars and `holder` the last
one that added points. -/
def AllInStep (slices : List (ContractSlice K)) : ContractSlice K → ContractSlice K → ContractSlice K →
    List (ContractSlice K) → Prop
  | _, _, _, [] => True
  | prev, before, holder, slice :: rest =>
      if slice.bars = [] then AllInStep slices slice before holder rest
      else if before.after slice = [] then AllInStep slices slice slice holder rest
      else (before.contractCode ≠ slice.contractCode →
          Handover method slices prev holder slice (before.after slice)) ∧
        AllInStep slices slice slice slice rest

/-- Handovers begin after the first slice with bars. -/
def AllInStepFromFirst (slices : List (ContractSlice K)) : List (ContractSlice K) → Prop
  | [] => True
  | slice :: rest =>
      if slice.bars = [] then AllInStepFromFirst slices rest else AllInStep method slices slice slice slice rest

end Model

section Roll

variable {K : Type} [Field K] [LinearOrder K] {method : AdjustmentMethod}

theorem rollPrices_pos [IsStrictOrderedRing K] (prev slice : ContractSlice K) :
    0 < (rollPrices prev slice).1 ∧ 0 < (rollPrices prev slice).2 := by
  unfold rollPrices
  cases prev.bars.getLast? with
  | none => exact ⟨one_pos, one_pos⟩
  | some last => cases slice.bars.head? with
    | none => exact ⟨one_pos, one_pos⟩
    | some first =>
      by_cases positive : 0 < first.price ∧ 0 < last.price
      · simp only [if_pos positive]
        exact positive.symm
      · simp only [if_neg positive]
        exact ⟨one_pos, one_pos⟩

theorem rollAdjustment_eq {prev slice : ContractSlice K} {state : SpliceState K} (before : state.before = prev.bars) :
    rollAdjustment method slice state =
      match method with
      | .none => (state.factor, state.shift)
      | .ratio => (state.factor * ((rollPrices prev slice).1 / (rollPrices prev slice).2), state.shift)
      | .difference => (state.factor, state.shift + ((rollPrices prev slice).1 - (rollPrices prev slice).2)) := by
  unfold rollAdjustment rollPrices
  rw [before]
  cases prev.bars.getLast? with
  | none => cases method <;> simp
  | some last => cases slice.bars.head? with
    | none => cases method <;> simp
    | some first =>
      by_cases positive : 0 < first.price ∧ 0 < last.price
      · cases method <;> simp [positive]
      · cases method <;> simp [positive]

theorem ratio_move_iff {held early rolled factor last first : K} (factor_pos : factor ≠ 0) (last_pos : last ≠ 0)
    (first_pos : first ≠ 0) :
    rolled * (factor * (last / first)) / (held * factor) = rolled / early ↔ rolled = 0 ∨ last * early = held * first := by
  by_cases nothing : rolled = 0
  · simp [nothing]
  · by_cases no_held : held = 0
    · rw [no_held, zero_mul, div_zero, zero_mul, or_iff_right nothing, mul_eq_zero, or_iff_right last_pos, eq_comm,
        div_eq_zero_iff, or_iff_right nothing]
    · by_cases no_early : early = 0
      · simp [nothing, no_held, no_early, factor_pos, last_pos, first_pos]
      · rw [or_iff_right nothing]
        field_simp

theorem ownMove_iff [IsStrictOrderedRing K] {prev slice : ContractSlice K} {state : SpliceState K}
    {point next : ContinuousFuturesPoint K} {held early : SliceBar K} (before : state.before = prev.bars)
    (factor_pos : 0 < state.factor)
    (price : point.price = applyAdjustment method held.price state.factor state.shift)
    (adjusted : next.price = applyAdjustment method next.rawPrice (rollAdjustment method slice state).1
      (rollAdjustment method slice state).2) : OwnMove method point next early ↔
      InStep method (rollPrices prev slice) held.price early.price next.rawPrice := by
  obtain ⟨last_pos, first_pos⟩ := rollPrices_pos prev slice
  rw [rollAdjustment_eq before] at adjusted
  cases method with
  | none => exact Iff.rfl
  | ratio =>
    simp only [OwnMove, InStep, applyAdjustment] at price adjusted ⊢
    rw [price, adjusted]
    exact ratio_move_iff factor_pos.ne' last_pos.ne' first_pos.ne'
  | difference =>
    simp only [OwnMove, InStep, applyAdjustment] at price adjusted ⊢
    rw [price, adjusted]
    constructor
    · intro move
      linear_combination move
    · intro step
      linear_combination step

end Roll

section Slices

variable {K : Type} [Field K] [LinearOrder K] {dateOf : ℤ → ℤ} {method : AdjustmentMethod}
  {slice : ContractSlice K} {state : SpliceState K} {bar : SliceBar K}

theorem barTurn_of_fresh (fresh : isFresh state.lastConsumed bar = true) :
    barTurn dateOf method slice state bar =
      let next := if rolls slice state then rollOver dateOf method slice bar state else state
      { next with points := next.points ++ [splicedPoint method slice bar (rolls slice state) next] } := by
  have uncovered : ¬(state.lastConsumed.any fun last => bar.timestamp ≤ last) = true := by
    unfold isFresh at fresh
    cases consumed : state.lastConsumed with
    | none => simp
    | some last =>
      rw [consumed] at fresh
      simpa using fresh
  rw [barTurn, if_neg uncovered]

theorem foldl_barTurn_points (quiet : rolls slice state = false) (bars : List (SliceBar K)) :
    bars.foldl (barTurn dateOf method slice) state =
      { state with
        points := state.points ++ (bars.filter (isFresh state.lastConsumed)).map fun bar =>
          splicedPoint method slice bar false state } := by
  induction bars generalizing state with
  | nil => simp
  | cons bar rest ih =>
    rw [foldl_cons]
    cases fresh : isFresh state.lastConsumed bar with
    | false => rw [barTurn_stale fresh, ih quiet, filter_cons_of_neg (by simp [fresh])]
    | true =>
      rw [barTurn_of_fresh fresh, quiet, if_neg (by simp)]
      rw [ih (by exact quiet), filter_cons_of_pos fresh, map_cons]
      simp [splicedPoint]

def rolledState (dateOf : ℤ → ℤ) (method : AdjustmentMethod) (slice : ContractSlice K) (bar : SliceBar K)
    (state : SpliceState K) : SpliceState K :=
  if rolls slice state then rollOver dateOf method slice bar state else state

theorem rolls_rolledState : rolls slice (rolledState dateOf method slice bar state) = false := by
  unfold rolledState
  cases roll : rolls slice state with
  | true => simp [rolls, rollOver]
  | false => simp [roll]

theorem lastConsumed_rolledState :
    (rolledState dateOf method slice bar state).lastConsumed = state.lastConsumed := by
  unfold rolledState
  split <;> rfl

theorem points_rolledState : (rolledState dateOf method slice bar state).points = state.points := by
  unfold rolledState
  split <;> rfl

theorem foldl_barTurn_nil {bars : List (SliceBar K)} (stale : bars.filter (isFresh state.lastConsumed) = []) :
    bars.foldl (barTurn dateOf method slice) state = state := by
  induction bars with
  | nil => rfl
  | cons bar rest ih =>
    have old : isFresh state.lastConsumed bar = false := by
      simpa using filter_eq_nil_iff.mp stale bar mem_cons_self
    rw [filter_cons_of_neg (by simp [old])] at stale
    rw [foldl_cons, barTurn_stale old, ih stale]

/-- The first bar that is new may roll, and all points have its adjustment. -/
theorem foldl_barTurn_cons {bars rest : List (SliceBar K)}
    (fresh : bars.filter (isFresh state.lastConsumed) = bar :: rest) :
    bars.foldl (barTurn dateOf method slice) state =
      let next := rolledState dateOf method slice bar state
      { next with
        points := state.points ++ splicedPoint method slice bar (rolls slice state) next ::
          rest.map fun bar => splicedPoint method slice bar false next } := by
  induction bars with
  | nil => cases fresh
  | cons first others ih =>
    rw [foldl_cons]
    cases new : isFresh state.lastConsumed first with
    | false =>
      rw [filter_cons_of_neg (by simp [new])] at fresh
      rw [barTurn_stale new, ih fresh]
    | true =>
      rw [filter_cons_of_pos new] at fresh
      obtain ⟨rfl, rfl⟩ := cons.inj fresh
      have turn : barTurn dateOf method slice state first =
          { rolledState dateOf method slice first state with
            points := (rolledState dateOf method slice first state).points ++
              [splicedPoint method slice first (rolls slice state) (rolledState dateOf method slice first state)] } :=
        barTurn_of_fresh new
      rw [turn, foldl_barTurn_points (by exact rolls_rolledState)]
      simp only [lastConsumed_rolledState, points_rolledState, append_assoc, singleton_append]
      rfl

/-- The state after some slices, and the last point they added. -/
structure Reached (method : AdjustmentMethod) (prev before holder : ContractSlice K)
    (point : ContinuousFuturesPoint K) (state : SpliceState K) : Prop where
  adjusted : state.before = prev.bars
  consumed : state.lastConsumed = some before.finish
  code : state.prevCode = some before.contractCode
  factor_pos : 0 < state.factor
  ends : point.timestamp = holder.finish
  price : ∃ held ∈ holder.bars.getLast?, point.price = applyAdjustment method held.price state.factor state.shift

variable {slices : List (ContractSlice K)} {prev before holder : ContractSlice K}
  {point : ContinuousFuturesPoint K} {points : List (ContinuousFuturesPoint K)}

omit [LinearOrder K] in
theorem isChain_quiet (quiet : ∀ next ∈ points, next.rollFlag = false) :
    (point :: points).IsChain (NoJump method slices) := by
  induction points generalizing point with
  | nil => exact isChain_singleton point
  | cons next rest ih =>
    obtain ⟨unflagged, quiet⟩ := forall_mem_cons.mp quiet
    refine isChain_cons_cons.mpr ⟨fun flagged => ?_, ih quiet⟩
    rw [unflagged] at flagged
    cases flagged

/-- Chains meet at the last point of the first one. -/
theorem isChain_append_last {α : Type} {related : α → α → Prop} {last : α} {one two : List α}
    (ends : last ∈ one.getLast?) :
    (one ++ two).IsChain related ↔ one.IsChain related ∧ (last :: two).IsChain related := by
  rcases eq_nil_or_concat' one with rfl | ⟨front, final, rfl⟩
  · cases ends
  · have same : final = last := by simpa using ends
    rw [same, append_assoc, singleton_append, isChain_split]

/-- A slice begins without a roll. -/
def entered (state : SpliceState K) : SpliceState K := { state with rolled := false }

/-- A slice with bars ends. -/
def finished (slice : ContractSlice K) (state : SpliceState K) : SpliceState K :=
  { state with
    before := slice.bars
    lastConsumed := some slice.finish
    prevCode := some slice.contractCode }

theorem sliceTurn_of_nil (state : SpliceState K) (empty : slice.bars = []) :
    sliceTurn dateOf method state slice = { state with rolled := false, before := slice.bars } := by
  simp [sliceTurn, empty]

theorem sliceTurn_of_ne_nil (state : SpliceState K) (filled : slice.bars ≠ []) :
    sliceTurn dateOf method state slice =
      finished slice (slice.bars.foldl (barTurn dateOf method slice) (entered state)) := by
  have last := getLast?_eq_some_getLast filled
  simp [sliceTurn, finished, entered, ContractSlice.finish, last]

theorem Reached.skip (reached : Reached method prev before holder point state) (dateOf : ℤ → ℤ) (empty : slice.bars = []) :
    Reached method slice before holder point (sliceTurn dateOf method state slice) ∧
      (sliceTurn dateOf method state slice).points = state.points := by
  rw [sliceTurn_of_nil state empty]
  exact ⟨⟨rfl, reached.consumed, reached.code, reached.factor_pos, reached.ends, reached.price⟩, rfl⟩

theorem Reached.fresh (reached : Reached method prev before holder point state) (slice : ContractSlice K) :
    slice.bars.filter (isFresh (entered state).lastConsumed) = before.after slice :=
  congrArg (fun consumed => slice.bars.filter (isFresh consumed)) reached.consumed

theorem Reached.stale (reached : Reached method prev before holder point state) (dateOf : ℤ → ℤ)
    (filled : slice.bars ≠ []) (stale : before.after slice = []) :
    Reached method slice slice holder point (sliceTurn dateOf method state slice) ∧
      (sliceTurn dateOf method state slice).points = state.points := by
  rw [sliceTurn_of_ne_nil state filled, foldl_barTurn_nil ((reached.fresh slice).trans stale)]
  exact ⟨⟨rfl, rfl, rfl, reached.factor_pos, reached.ends, reached.price⟩, rfl⟩

theorem factor_rolledState_pos [IsStrictOrderedRing K] (adjusted : state.before = prev.bars)
    (factor_pos : 0 < state.factor) : 0 < (rolledState dateOf method slice bar state).factor := by
  obtain ⟨last_pos, first_pos⟩ := rollPrices_pos prev slice
  unfold rolledState
  split
  · change 0 < (rollAdjustment method slice state).1
    rw [rollAdjustment_eq adjusted]
    cases method with
    | none => exact factor_pos
    | ratio => exact mul_pos factor_pos (div_pos last_pos first_pos)
    | difference => exact factor_pos
  · exact factor_pos

omit [Field K] [LinearOrder K] in
theorem rolls_entered (code : state.prevCode = some before.contractCode) :
    rolls slice (entered state) = decide (before.contractCode ≠ slice.contractCode) := by
  simp [rolls, entered, code]

/-- The first point of a slice adds no jump exactly if the slice takes over in step. -/
theorem Reached.noJump_iff [IsStrictOrderedRing K] (reached : Reached method prev before holder point state)
    {rest : List (SliceBar K)} (fresh : before.after slice = bar :: rest)
    (roll : rolls slice (entered state) = true) :
    NoJump method slices point (splicedPoint method slice bar true (rolledState dateOf method slice bar (entered state))) ↔
      Handover method slices prev holder slice (before.after slice) := by
  obtain ⟨held, last, price⟩ := reached.price
  have next : rolledState dateOf method slice bar (entered state) =
      rollOver dateOf method slice bar (entered state) := if_pos roll
  have adjusted := reached.adjusted
  have own (early : SliceBar K) :
      OwnMove method point
          (splicedPoint method slice bar true (rolledState dateOf method slice bar (entered state))) early ↔
        InStep method (rollPrices prev slice) held.price early.price bar.price := by
    apply ownMove_iff adjusted reached.factor_pos price
    rw [next]
    rfl
  rw [fresh]
  constructor
  · intro smooth rolled first other sameLast slice' member code early listed time
    obtain rfl := Option.some.inj first
    obtain rfl := Option.mem_unique last sameLast
    exact (own early).mp (smooth rfl slice' member code early listed (time.trans reached.ends.symm))
  · intro handover flagged slice' member code early listed time
    exact (own early).mpr
      (handover bar rfl held last slice' member code early listed (time.trans reached.ends))

/-- A slice with bars that are new adds a jump exactly if it rolls and does not take over in step. -/
theorem Reached.move [IsStrictOrderedRing K] (reached : Reached method prev before holder point state)
    (dateOf : ℤ → ℤ) (slices : List (ContractSlice K)) (filled : slice.bars ≠ []) (new : before.after slice ≠ []) :
    ∃ added last, last ∈ added.getLast? ∧
      (sliceTurn dateOf method state slice).points = state.points ++ added ∧
      Reached method slice slice slice last (sliceTurn dateOf method state slice) ∧
      ((point :: added).IsChain (NoJump method slices) ↔ (before.contractCode ≠ slice.contractCode →
        Handover method slices prev holder slice (before.after slice))) := by
  obtain ⟨bar, rest, fresh⟩ := exists_cons_of_ne_nil new
  let next := rolledState dateOf method slice bar (entered state)
  let first := splicedPoint method slice bar (rolls slice (entered state)) next
  let others := rest.map fun bar => splicedPoint method slice bar false next
  have priced : List.Forall₂ (fun bar point => point.timestamp = bar.timestamp ∧
      point.price = applyAdjustment method bar.price next.factor next.shift) (bar :: rest) (first :: others) :=
    .cons ⟨rfl, rfl⟩ (forall₂_map_right_iff.mpr (forall₂_same.mpr fun _ _ => ⟨rfl, rfl⟩))
  have final := getLast?_eq_some_getLast filled
  rw [← getLast_after before slice new, fresh] at final
  obtain ⟨last, ends, time, price⟩ := getLast_of_forall₂ priced final
  have listed : slice.bars.getLast filled ∈ slice.bars.getLast? := getLast?_eq_some_getLast filled
  refine ⟨first :: others, last, ends, ?_, ?_, ?_⟩
  · rw [sliceTurn_of_ne_nil state filled, foldl_barTurn_cons ((reached.fresh slice).trans fresh)]
    rfl
  · rw [sliceTurn_of_ne_nil state filled, foldl_barTurn_cons ((reached.fresh slice).trans fresh)]
    exact ⟨rfl, rfl, rfl, factor_rolledState_pos reached.adjusted reached.factor_pos,
      time.trans (by simp [ContractSlice.finish, getLast?_eq_some_getLast filled]), _, listed, price⟩
  · have quiet : (first :: others).IsChain (NoJump method slices) := by
      apply isChain_quiet
      intro next member
      obtain ⟨bar, -, rfl⟩ := mem_map.mp member
      rfl
    rw [isChain_cons_cons, and_iff_left quiet]
    by_cases same : before.contractCode = slice.contractCode
    · have unrolled : rolls slice (entered state) = false := by simp [rolls_entered reached.code, same]
      have unflagged : first.rollFlag = false := unrolled
      simp [NoJump, unflagged, same]
    · have roll : rolls slice (entered state) = true := by simp [rolls_entered reached.code, same]
      have flagged : first = splicedPoint method slice bar true next := by rw [← roll]
      rw [flagged, reached.noJump_iff fresh roll]
      simp [same]

/-- Some slices add no jumps exactly if all handovers are in step. -/
theorem Reached.foldl [IsStrictOrderedRing K] (reached : Reached method prev before holder point state)
    (dateOf : ℤ → ℤ) (slices later : List (ContractSlice K)) :
    ∃ added, (later.foldl (sliceTurn dateOf method) state).points = state.points ++ added ∧
      ((point :: added).IsChain (NoJump method slices) ↔ AllInStep method slices prev before holder later) := by
  induction later generalizing prev before holder point state with
  | nil => exact ⟨[], by simp, by simp [AllInStep]⟩
  | cons slice rest ih =>
    rw [foldl_cons, AllInStep]
    by_cases empty : slice.bars = []
    · obtain ⟨reached, same⟩ := reached.skip dateOf empty
      obtain ⟨added, points, chain⟩ := ih reached
      rw [if_pos empty]
      exact ⟨added, by rw [points, same], chain⟩
    · rw [if_neg empty]
      by_cases stale : before.after slice = []
      · obtain ⟨reached, same⟩ := reached.stale dateOf empty stale
        obtain ⟨added, points, chain⟩ := ih reached
        rw [if_pos stale]
        exact ⟨added, by rw [points, same], chain⟩
      · obtain ⟨one, last, ends, points, reached, chain⟩ :=
          reached.move dateOf slices empty stale
        obtain ⟨two, pointsLater, chainLater⟩ := ih reached
        have final : last ∈ (point :: one).getLast? := by
          rw [getLast?_cons, Option.mem_def.mp ends]
          rfl
        rw [if_neg stale]
        refine ⟨one ++ two, by rw [pointsLater, points, append_assoc], ?_⟩
        rw [← cons_append, isChain_append_last final, chain, chainLater]

theorem reached_first [IsStrictOrderedRing K] (dateOf : ℤ → ℤ) (method : AdjustmentMethod)
    (slices : List (ContractSlice K)) (consumed : state.lastConsumed = none) (code : state.prevCode = none)
    (factor_pos : 0 < state.factor) (filled : slice.bars ≠ []) : ∃ added last, last ∈ added.getLast? ∧
      (sliceTurn dateOf method state slice).points = state.points ++ added ∧
      Reached method slice slice slice last (sliceTurn dateOf method state slice) ∧
      added.IsChain (NoJump method slices) := by
  have unrolled : rolls slice (entered state) = false := by simp [rolls, entered, code]
  have all : slice.bars.filter (isFresh (entered state).lastConsumed) = slice.bars := by
    rw [show (entered state).lastConsumed = none from consumed]
    exact filter_true slice.bars
  let added := slice.bars.map fun bar => splicedPoint method slice bar false (entered state)
  have turn : slice.bars.foldl (barTurn dateOf method slice) (entered state) =
      { entered state with points := state.points ++ added } := by
    rw [foldl_barTurn_points unrolled, all]
    rfl
  have priced : List.Forall₂ (fun bar point => point.timestamp = bar.timestamp ∧
      point.price = applyAdjustment method bar.price state.factor state.shift) slice.bars added :=
    forall₂_map_right_iff.mpr (forall₂_same.mpr fun _ _ => ⟨rfl, rfl⟩)
  have listed := getLast?_eq_some_getLast filled
  obtain ⟨last, ends, time, price⟩ := getLast_of_forall₂ priced listed
  refine ⟨added, last, ends, ?_, ?_, ?_⟩
  · rw [sliceTurn_of_ne_nil state filled, turn]
    rfl
  · rw [sliceTurn_of_ne_nil state filled, turn]
    exact ⟨rfl, rfl, rfl, factor_pos,
      time.trans (by simp [ContractSlice.finish, getLast?_eq_some_getLast filled]), _, listed, price⟩
  · obtain ⟨bar, rest, bars⟩ := exists_cons_of_ne_nil filled
    simp only [added, bars, map_cons]
    apply isChain_quiet
    intro next member
    obtain ⟨bar, -, rfl⟩ := mem_map.mp member
    rfl

/-- Slices from the start add no jumps exactly if all handovers are in step. -/
theorem foldl_sliceTurn_isChain [IsStrictOrderedRing K] (dateOf : ℤ → ℤ) (method : AdjustmentMethod)
    (slices later : List (ContractSlice K)) (consumed : state.lastConsumed = none) (code : state.prevCode = none)
    (factor_pos : 0 < state.factor) :
    ∃ added, (later.foldl (sliceTurn dateOf method) state).points = state.points ++ added ∧
      (added.IsChain (NoJump method slices) ↔ AllInStepFromFirst method slices later) := by
  induction later generalizing state with
  | nil => exact ⟨[], by simp, by simp [AllInStepFromFirst]⟩
  | cons slice rest ih =>
    rw [foldl_cons, AllInStepFromFirst]
    by_cases empty : slice.bars = []
    · rw [if_pos empty, sliceTurn_of_nil state empty]
      exact ih consumed code factor_pos
    · obtain ⟨one, last, ends, points, reached, chain⟩ :=
        reached_first dateOf method slices consumed code factor_pos empty
      obtain ⟨two, pointsLater, chainLater⟩ := reached.foldl dateOf slices rest
      rw [if_neg empty, ← chainLater]
      refine ⟨one ++ two, by rw [pointsLater, points, append_assoc], ?_⟩
      rw [isChain_append_last ends, and_iff_right chain]

end Slices

/-- The rolls of a series add no jumps exactly if every slice with bars that are new takes over in step: the last
price of the slice before and the first price of the slice are in the proportion, or at the distance, of the
prices of the two contracts at the last point before the roll. -/
theorem rolls_add_no_jump_iff {K : Type} [Field K] [LinearOrder K] [IsStrictOrderedRing K] (dateOf : ℤ → ℤ)
    (method : AdjustmentMethod) (zoned : Bool) (slices : List (ContractSlice K))
    {points : List (ContinuousFuturesPoint K)} {rollTable : List RollRow}
    (built : buildContinuousSeries dateOf method zoned slices = .ok (points, rollTable)) :
    points.IsChain (NoJump method slices) ↔ AllInStepFromFirst method slices (sortSlices slices) := by
  obtain ⟨added, spliced, chain⟩ := foldl_sliceTurn_isChain dateOf method slices (sortSlices slices)
    (rfl : (SpliceState.start : SpliceState K).lastConsumed = none) rfl one_pos
  have same : ((sortSlices slices).foldl (sliceTurn dateOf method) .start).points = added := spliced
  obtain ⟨-, built⟩ := ok_of_guard built
  obtain ⟨-, built⟩ := ok_of_guard built
  obtain ⟨-, built⟩ := ok_of_guard built
  obtain ⟨rfl, -⟩ := Prod.mk.inj (Except.ok.inj built)
  rw [same, chain]

/-- Two contracts that overlap: the one rolled to has risen since its first bar. -/
def overlapping : List (ContractSlice ℚ) :=
  [⟨"IF2401", [⟨1, 100, 1⟩, ⟨2, 110, 1⟩, ⟨3, 120, 1⟩], by decide⟩,
    ⟨"IF2402", [⟨2, 100, 1⟩, ⟨3, 150, 1⟩, ⟨4, 165, 1⟩], by decide⟩]

def overlappingPoints : List (ContinuousFuturesPoint ℚ) :=
  [⟨1, 100, 100, "IF2401", 1, false⟩, ⟨2, 110, 110, "IF2401", 1, false⟩, ⟨3, 120, 120, "IF2401", 1, false⟩,
    ⟨4, 198, 165, "IF2402", 1, true⟩]

theorem overlapping_built : buildContinuousSeries (fun time => time) .ratio false overlapping =
    .ok (overlappingPoints, [(4, "IF2401", "IF2402")]) := by decide +kernel

theorem rolls_add_no_jump_overlapping : overlappingPoints.IsChain (NoJump .ratio overlapping) ↔
      AllInStepFromFirst .ratio overlapping (sortSlices overlapping) :=
  rolls_add_no_jump_iff (fun time => time) .ratio false overlapping overlapping_built

/-- The contract gains a tenth at the roll, the series 65 hundredths. -/
theorem overlapping_roll_jumps :
    ∃ points rollTable, buildContinuousSeries (fun time => time) .ratio false overlapping = .ok (points, rollTable) ∧
      ¬ points.IsChain (NoJump .ratio overlapping) := by
  refine ⟨_, _, overlapping_built, fun chain => ?_⟩
  obtain ⟨-, -, smooth, -⟩ : _ ∧ _ ∧ NoJump .ratio overlapping ⟨3, 120, 120, "IF2401", 1, false⟩
      ⟨4, 198, 165, "IF2402", 1, true⟩ ∧ _ := by
    simpa only [overlappingPoints, isChain_cons_cons] using chain
  have move : (198 : ℚ) / 120 = 165 / 150 :=
    smooth rfl _ (mem_cons_of_mem _ mem_cons_self) rfl ⟨3, 150, 1⟩ (by decide) rfl
  norm_num at move

end FinDashboard.Instruments
