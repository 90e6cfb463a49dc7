import Mathlib.Algebra.GroupWithZero.Nat
import Mathlib.Data.List.Sort

/-!
# Continuous futures

The bars of single contracts are spliced into one series. A slice adds its bars after the end of the slice
before it, also where that slice added nothing: a slice that lies within an earlier one moves the end back,
and its contract becomes the one that is rolled from.
-/

namespace FinDashboard.Instruments

open List

inductive AdjustmentMethod
  | none
  | ratio
  | difference
deriving DecidableEq, Repr

structure SliceBar (K : Type) where
  timestamp : ℤ
  price : K
  volume : K
deriving DecidableEq

/-- `_ContractSlice`, with times that ascend. -/
structure ContractSlice (K : Type) where
  contractCode : String
  bars : List (SliceBar K)
  increasing : bars.Pairwise fun bar other => bar.timestamp < other.timestamp

structure ContinuousFuturesPoint (K : Type) where
  timestamp : ℤ
  price : K
  rawPrice : K
  contractCode : String
  volume : K
  rollFlag : Bool
deriving DecidableEq

/-- A date, and the contracts before and after it. -/
abbrev RollRow := ℤ × String × String

inductive BuildError
  | noSlices
  /-- A time with a zone is compared with `datetime.max`, which has none. -/
  | incomparableTimes
  | noPoints
deriving DecidableEq, Repr

/-- The variables of the loop; `before` are the bars of the slice before this one. -/
structure SpliceState (K : Type) where
  points : List (ContinuousFuturesPoint K)
  rollTable : List RollRow
  factor : K
  shift : K
  lastConsumed : Option ℤ
  prevCode : Option String
  before : List (SliceBar K)
  rolled : Bool

/-- `datetime.max`, in microseconds. -/
def datetimeMax : ℤ := 3652060 * 86400000000 - 1

section Model

variable {K : Type} [Zero K] [One K] [Add K] [Sub K] [Mul K] [Div K] [LT K] [DecidableLT K]
  (dateOf : ℤ → ℤ) (method : AdjustmentMethod)

def applyAdjustment (raw factor shift : K) : K :=
  match method with
  | .none => raw
  | .ratio => raw * factor
  | .difference => raw + shift

/-- The adjustment from the last price before to the first price of the slice. -/
def rollAdjustment (slice : ContractSlice K) (state : SpliceState K) : K × K :=
  match state.before.getLast?, slice.bars.head? with
  | some last, some first =>
      if 0 < first.price ∧ 0 < last.price then
        match method with
        | .none => (state.factor, state.shift)
        | .ratio => (state.factor * (last.price / first.price), state.shift)
        | .difference => (state.factor, state.shift + (last.price - first.price))
      else (state.factor, state.shift)
  | _, _ => (state.factor, state.shift)

def rollOver (slice : ContractSlice K) (bar : SliceBar K) (state : SpliceState K) : SpliceState K :=
  { state with
    rolled := true
    factor := (rollAdjustment method slice state).1
    shift := (rollAdjustment method slice state).2
    rollTable := state.rollTable ++ [(dateOf bar.timestamp, state.prevCode.getD "", slice.contractCode)] }

def splicedPoint (slice : ContractSlice K) (bar : SliceBar K) (isRoll : Bool) (state : SpliceState K) :
    ContinuousFuturesPoint K where
  timestamp := bar.timestamp
  price := applyAdjustment method bar.price state.factor state.shift
  rawPrice := bar.price
  contractCode := slice.contractCode
  volume := bar.volume
  rollFlag := isRoll

/-- Whether the next point of a slice is a roll. -/
def rolls (slice : ContractSlice K) (state : SpliceState K) : Bool :=
  !state.rolled && state.prevCode.any fun code => code ≠ slice.contractCode

/-- The body of the loop over the bars of a slice. -/
def barTurn (slice : ContractSlice K) (state : SpliceState K) (bar : SliceBar K) : SpliceState K :=
  if state.lastConsumed.any fun last => bar.timestamp ≤ last then state
  else
    let next := if rolls slice state then rollOver dateOf method slice bar state else state
    { next with points := next.points ++ [splicedPoint method slice bar (rolls slice state) next] }

/-- The body of the loop over the slices. -/
def sliceTurn (state : SpliceState K) (slice : ContractSlice K) : SpliceState K :=
  let spliced := slice.bars.foldl (barTurn dateOf method slice) { state with rolled := false }
  match slice.bars.getLast? with
  | none => { spliced with before := slice.bars }
  | some bar =>
      { spliced with
        before := slice.bars
        lastConsumed := some bar.timestamp
        prevCode := some slice.contractCode }

def SpliceState.start : SpliceState K where
  points := []
  rollTable := []
  factor := 1
  shift := 0
  lastConsumed := none
  prevCode := none
  before := []
  rolled := false

def ContractSlice.start (slice : ContractSlice K) : ℤ := (slice.bars.head?.map (·.timestamp)).getD datetimeMax

def sortSlices (slices : List (ContractSlice K)) : List (ContractSlice K) :=
  slices.insertionSort fun slice other => slice.start ≤ other.start

/-- The points and the roll table; `zoned` says whether the times have a zone. -/
def buildContinuousSeries (zoned : Bool) (slices : List (ContractSlice K)) :
    Except BuildError (List (ContinuousFuturesPoint K) × List RollRow) :=
  if slices = [] then .error .noSlices
  else if zoned && slices.any (·.bars.isEmpty) && slices.any (!·.bars.isEmpty) then
    .error .incomparableTimes
  else
    let spliced := (sortSlices slices).foldl (sliceTurn dateOf method) .start
    if spliced.points = [] then .error .noPoints else .ok (spliced.points, spliced.rollTable)

end Model

section Series

variable {K : Type}

/-- The row of a point whose contract is not that of the point before it. -/
def changeAt (dateOf : ℤ → ℤ) (earlier : Option (ContinuousFuturesPoint K)) (point : ContinuousFuturesPoint K) :
    Option RollRow :=
  (earlier.filter fun earlier => earlier.contractCode ≠ point.contractCode).map fun earlier =>
    (dateOf point.timestamp, earlier.contractCode, point.contractCode)

def changesFrom (dateOf : ℤ → ℤ) : Option (ContinuousFuturesPoint K) → List (ContinuousFuturesPoint K) → List RollRow
  | _, [] => []
  | earlier, point :: rest => (changeAt dateOf earlier point).toList ++ changesFrom dateOf (some point) rest

/-- Exactly the points where the contract changes are flagged. -/
def FlagsFrom : Option (ContinuousFuturesPoint K) → List (ContinuousFuturesPoint K) → Prop
  | _, [] => True
  | earlier, point :: rest =>
      point.rollFlag = earlier.any (fun earlier => earlier.contractCode ≠ point.contractCode) ∧
        FlagsFrom (some point) rest

/-- The times ascend, every point has a price of its contract, and the table lists the changes of the contract. -/
structure WellFormed (dateOf : ℤ → ℤ) (slices : List (ContractSlice K)) (points : List (ContinuousFuturesPoint K))
    (rollTable : List RollRow) : Prop where
  increasing : points.Pairwise fun point other => point.timestamp < other.timestamp
  raw : ∀ point ∈ points, ∃ slice ∈ slices, slice.contractCode = point.contractCode ∧
    ∃ bar ∈ slice.bars, bar.timestamp = point.timestamp ∧ bar.price = point.rawPrice
  flags : FlagsFrom none points
  table : rollTable = changesFrom dateOf none points

/-- A point after another one has a later time, and a flag and a row exactly if the contract changes. -/
def Right (dateOf : ℤ → ℤ) (earlier : Option (ContinuousFuturesPoint K))
    (added : ContinuousFuturesPoint K × Option RollRow) : Prop :=
  (∀ point ∈ earlier, point.timestamp < added.1.timestamp) ∧
    added.1.rollFlag = earlier.any (fun earlier => earlier.contractCode ≠ added.1.contractCode) ∧
    added.2 = changeAt dateOf earlier added.1

def AllRight (dateOf : ℤ → ℤ) : Option (ContinuousFuturesPoint K) →
    List (ContinuousFuturesPoint K × Option RollRow) → Prop
  | _, [] => True
  | earlier, added :: rest => Right dateOf earlier added ∧ AllRight dateOf (some added.1) rest

variable {dateOf : ℤ → ℤ} {earlier : Option (ContinuousFuturesPoint K)}
  {added : List (ContinuousFuturesPoint K × Option RollRow)}

theorem toList_append_inj {α : Type} {a b : Option α} {rest rest' : List α} (same : a.isSome = b.isSome) :
    a.toList ++ rest = b.toList ++ rest' ↔ a = b ∧ rest = rest' := by
  cases a with
  | none => cases b with
    | none => simp
    | some value => cases same
  | some value => cases b with
    | none => cases same
    | some other => simp

theorem isSome_changeAt (point : ContinuousFuturesPoint K) : (changeAt dateOf earlier point).isSome =
    earlier.any fun earlier => earlier.contractCode ≠ point.contractCode := by
  cases earlier with
  | none => rfl
  | some earlier =>
    by_cases same : earlier.contractCode = point.contractCode
    · simp [changeAt, same]
    · simp [changeAt, same]

/-- Points and rows are in order exactly if every one is, after the one before it. -/
theorem allRight_iff (flagged : ∀ item ∈ added, item.2.isSome = item.1.rollFlag) :
    AllRight dateOf earlier added ↔
      (∀ point ∈ earlier, ∀ item ∈ added, point.timestamp < item.1.timestamp) ∧
      ((added.map (·.1)).Pairwise fun point other => point.timestamp < other.timestamp) ∧
      FlagsFrom earlier (added.map (·.1)) ∧
      added.filterMap (·.2) = changesFrom dateOf earlier (added.map (·.1)) := by
  induction added generalizing earlier with
  | nil => simp [AllRight, FlagsFrom, changesFrom]
  | cons first rest ih =>
    obtain ⟨flaggedFirst, flaggedRest⟩ := forall_mem_cons.mp flagged
    have rows : ((first :: rest).filterMap (·.2)) = first.2.toList ++ rest.filterMap (·.2) := by
      cases row : first.2 <;> simp [row]
    rw [AllRight, Right, ih flaggedRest, rows]
    simp only [map_cons, pairwise_cons, FlagsFrom, changesFrom, forall_mem_cons, mem_map,
      forall_exists_index, and_imp, forall_apply_eq_imp_iff₂, Option.mem_def, Option.some.injEq, forall_eq']
    constructor
    · rintro ⟨⟨later, flag, row⟩, apart, increasing, flags, table⟩
      refine ⟨fun point listed => ⟨later point listed, ?_⟩, ⟨apart, increasing⟩, ⟨flag, flags⟩, ?_⟩
      · exact fun item member => (later point listed).trans (apart item member)
      · rw [row, table]
    · rintro ⟨later, ⟨apart, increasing⟩, ⟨flag, flags⟩, table⟩
      have same : first.2.isSome = (changeAt dateOf earlier first.1).isSome := by
        rw [flaggedFirst, flag, isSome_changeAt]
      obtain ⟨row, table⟩ := (toList_append_inj same).mp table
      exact ⟨⟨fun point listed => (later point listed).1, flag, row⟩, apart, increasing, flags, table⟩

/-- The point and the row that a bar adds. -/
structure Emitted (code : String) (flag : Bool) (row : Option RollRow) (bar : SliceBar K)
    (added : ContinuousFuturesPoint K × Option RollRow) : Prop where
  timestamp : added.1.timestamp = bar.timestamp
  rawPrice : added.1.rawPrice = bar.price
  contractCode : added.1.contractCode = code
  rollFlag : added.1.rollFlag = flag
  row : added.2 = row

/-- The state after some points and rows, where only the roll has changed besides. -/
structure Adds (before after : SpliceState K) (added : List (ContinuousFuturesPoint K × Option RollRow)) : Prop where
  points : after.points = before.points ++ added.map (·.1)
  rollTable : after.rollTable = before.rollTable ++ added.filterMap (·.2)
  lastConsumed : after.lastConsumed = before.lastConsumed
  prevCode : after.prevCode = before.prevCode

theorem Adds.refl (state : SpliceState K) : Adds state state [] := ⟨by simp, by simp, rfl, rfl⟩

variable {one two : List (ContinuousFuturesPoint K × Option RollRow)}

theorem Adds.trans {first second third : SpliceState K}
    (early : Adds first second one) (late : Adds second third two) : Adds first third (one ++ two) where
  points := by rw [late.points, early.points, map_append, append_assoc]
  rollTable := by rw [late.rollTable, early.rollTable, filterMap_append, append_assoc]
  lastConsumed := late.lastConsumed.trans early.lastConsumed
  prevCode := late.prevCode.trans early.prevCode

/-- Whether a bar is later than what is consumed. -/
def isFresh (consumed : Option ℤ) (bar : SliceBar K) : Bool := consumed.all fun last => last < bar.timestamp

variable {bars : List (SliceBar K)} {code : String}

theorem allRight_quiet (emitted : List.Forall₂ (Emitted code false none) bars added)
    (increasing : bars.Pairwise fun bar other => bar.timestamp < other.timestamp)
    {point : ContinuousFuturesPoint K} (same : point.contractCode = code)
    (later : ∀ bar ∈ bars, point.timestamp < bar.timestamp) : AllRight dateOf (some point) added := by
  induction emitted generalizing point with
  | nil => trivial
  | cons first rest ih =>
    obtain ⟨apart, increasing⟩ := pairwise_cons.mp increasing
    refine ⟨⟨?_, ?_, ?_⟩, ih increasing first.contractCode ?_⟩
    · intro earlier listed
      obtain rfl := Option.some.inj listed
      rw [first.timestamp]
      exact later _ mem_cons_self
    · simp [first.rollFlag, first.contractCode, same]
    · simp [first.row, changeAt, first.contractCode, same]
    · rw [first.timestamp]
      exact apart

/-- The first of some bars may roll, and no other. -/
inductive EmittedFrom (code : String) (flag : Bool) (row : SliceBar K → Option RollRow) :
    List (SliceBar K) → List (ContinuousFuturesPoint K × Option RollRow) → Prop
  | nil : EmittedFrom code flag row [] []
  | cons {bar first rest later} : Emitted code flag (row bar) bar first →
      List.Forall₂ (Emitted code false none) rest later → EmittedFrom code flag row (bar :: rest) (first :: later)

theorem getLast_of_forall₂ {α β : Type} {related : α → β → Prop} {values : List α} {others : List β}
    (pairs : List.Forall₂ related values others) {value : α} (last : value ∈ values.getLast?) :
    ∃ other ∈ others.getLast?, related value other := by
  induction pairs with
  | nil => cases last
  | cons first rest ih => cases rest with
    | nil =>
      obtain rfl := Option.some.inj last
      exact ⟨_, rfl, first⟩
    | cons second rest =>
      rw [getLast?_cons_cons] at last ⊢
      exact ih last

theorem exists_of_forall₂ {α β : Type} {related : α → β → Prop} {values : List α} {others : List β}
    (pairs : List.Forall₂ related values others) {other : β} (member : other ∈ others) :
    ∃ value ∈ values, related value other := by
  induction pairs with
  | nil => cases member
  | cons first rest ih =>
    rcases mem_cons.mp member with rfl | later
    · exact ⟨_, mem_cons_self, first⟩
    · obtain ⟨value, listed, pair⟩ := ih later
      exact ⟨value, mem_cons_of_mem _ listed, pair⟩

variable {row : SliceBar K → Option RollRow}

theorem EmittedFrom.points {flag : Bool} (emitted : EmittedFrom code flag row bars added) :
    List.Forall₂ (fun bar item => item.1.timestamp = bar.timestamp ∧ item.1.rawPrice = bar.price ∧
      item.1.contractCode = code) bars added := by
  cases emitted with
  | nil => exact List.Forall₂.nil
  | cons first rest =>
    refine List.Forall₂.cons ⟨first.timestamp, first.rawPrice, first.contractCode⟩ ?_
    exact rest.imp fun _ _ item => ⟨item.timestamp, item.rawPrice, item.contractCode⟩

/-- The points of a slice are in order after a point exactly if that one is earlier, and of the contract
that is rolled from. -/
theorem EmittedFrom.allRight_iff {code prev : String} {flag : Bool}
    (emitted : EmittedFrom code flag row bars added)
    (increasing : bars.Pairwise fun bar other => bar.timestamp < other.timestamp)
    (flags : flag = decide (prev ≠ code))
    (rows : ∀ bar, row bar = if flag then some (dateOf bar.timestamp, prev, code) else none)
    (point : ContinuousFuturesPoint K) : AllRight dateOf (some point) added ↔
      (bars ≠ [] → point.contractCode = prev ∧ ∀ bar ∈ bars, point.timestamp < bar.timestamp) := by
  cases emitted with
  | nil => simp [AllRight]
  | cons start quiet =>
    rename_i bar first rest later
    obtain ⟨apart, increasing⟩ := pairwise_cons.mp increasing
    have settled : AllRight dateOf (some first.1) later := by
      apply allRight_quiet quiet increasing start.contractCode
      rw [start.timestamp]
      exact apart
    have times : (∀ other ∈ bar :: rest, point.timestamp < other.timestamp) ↔ point.timestamp < bar.timestamp := by
      rw [forall_mem_cons]
      exact ⟨And.left, fun before => ⟨before, fun other member => before.trans (apart other member)⟩⟩
    have contracts : (first.1.rollFlag = decide (point.contractCode ≠ first.1.contractCode) ∧
        first.2 = changeAt dateOf (some point) first.1) ↔ point.contractCode = prev := by
      rw [start.rollFlag, start.row, rows, flags, changeAt, start.contractCode, start.timestamp]
      by_cases same : prev = code
      · subst same
        by_cases kept : point.contractCode = prev
        · simp [kept]
        · simp [kept]
      · by_cases kept : point.contractCode = code
        · have differs : point.contractCode ≠ prev := fun equal => same (equal.symm.trans kept)
          simp [same, kept, Ne.symm same]
        · simp only [same, kept, ne_eq, not_false_eq_true, decide_true, true_and, if_true, Option.filter_some,
            Option.map_some, Option.some.injEq, Prod.mk.injEq, and_true]
          exact eq_comm
    simp only [AllRight, Right, settled, and_true, ne_eq, reduceCtorEq, not_false_eq_true, forall_const, times,
      Option.mem_def, Option.some.injEq, forall_eq', Option.any_some, start.timestamp]
    rw [and_comm, ← contracts]

variable [Zero K] [Add K] [Sub K] [Mul K] [Div K] [LT K] [DecidableLT K] {method : AdjustmentMethod}
  {slice : ContractSlice K} {state : SpliceState K} {bar : SliceBar K}

theorem barTurn_stale (stale : isFresh state.lastConsumed bar = false) :
    barTurn dateOf method slice state bar = state := by
  unfold isFresh at stale
  unfold barTurn
  cases consumed : state.lastConsumed with
  | none => simp [consumed] at stale
  | some last =>
    rw [consumed] at stale
    simp only [Option.all_some, decide_eq_false_iff_not, not_lt] at stale
    simp [stale]

/-- The row of the first point of a slice. -/
def rollRow {K : Type} (dateOf : ℤ → ℤ) (slice : ContractSlice K) (state : SpliceState K) (bar : SliceBar K) :
    Option RollRow :=
  if rolls slice state then some (dateOf bar.timestamp, state.prevCode.getD "", slice.contractCode) else none

theorem barTurn_fresh (dateOf : ℤ → ℤ) (method : AdjustmentMethod) (slice : ContractSlice K)
    (fresh : isFresh state.lastConsumed bar = true) :
    ∃ added, Adds state (barTurn dateOf method slice state bar) [added] ∧
      rolls slice (barTurn dateOf method slice state bar) = false ∧
      Emitted slice.contractCode (rolls slice state) (rollRow dateOf slice state bar) bar added := by
  have uncovered : (state.lastConsumed.any fun last => bar.timestamp ≤ last) = false := by
    unfold isFresh at fresh
    cases consumed : state.lastConsumed with
    | none => rfl
    | some last =>
      rw [consumed] at fresh
      simpa using fresh
  unfold barTurn rollRow
  simp only [uncovered, Bool.false_eq_true, if_false]
  cases roll : rolls slice state with
  | true =>
    refine ⟨(splicedPoint method slice bar true (rollOver dateOf method slice bar state), _), ?_, ?_, ⟨rfl, rfl, rfl, rfl, rfl⟩⟩
    · exact ⟨rfl, rfl, rfl, rfl⟩
    · simp [rolls, rollOver]
  | false =>
    refine ⟨(splicedPoint method slice bar false state, _), ?_, ?_, ⟨rfl, rfl, rfl, rfl, rfl⟩⟩
    · exact ⟨rfl, by simp, rfl, rfl⟩
    · exact roll

/-- Bars that roll nothing add points without flags. -/
theorem foldl_barTurn_quiet (quiet : rolls slice state = false) (bars : List (SliceBar K)) :
    ∃ added, Adds state (bars.foldl (barTurn dateOf method slice) state) added ∧
      List.Forall₂ (Emitted slice.contractCode false none) (bars.filter (isFresh state.lastConsumed)) added := by
  induction bars generalizing state with
  | nil => exact ⟨[], Adds.refl state, by simp⟩
  | cons bar rest ih =>
    rw [foldl_cons]
    cases fresh : isFresh state.lastConsumed bar with
    | false =>
      rw [barTurn_stale fresh, filter_cons_of_neg (by simp [fresh])]
      exact ih quiet
    | true =>
      obtain ⟨first, adds, settled, emitted⟩ := barTurn_fresh dateOf method slice fresh
      obtain ⟨later, addsLater, emittedLater⟩ := ih settled
      rw [adds.lastConsumed] at emittedLater
      rw [filter_cons_of_pos fresh]
      refine ⟨first :: later, adds.trans addsLater, List.Forall₂.cons ?_ emittedLater⟩
      simpa [quiet, rollRow] using emitted

theorem foldl_barTurn (dateOf : ℤ → ℤ) (method : AdjustmentMethod) (slice : ContractSlice K) (state : SpliceState K)
    (bars : List (SliceBar K)) :
    ∃ added, Adds state (bars.foldl (barTurn dateOf method slice) state) added ∧
      EmittedFrom slice.contractCode (rolls slice state) (rollRow dateOf slice state)
        (bars.filter (isFresh state.lastConsumed)) added := by
  induction bars with
  | nil => exact ⟨[], Adds.refl state, EmittedFrom.nil⟩
  | cons bar rest ih =>
    rw [foldl_cons]
    cases fresh : isFresh state.lastConsumed bar with
    | false =>
      rw [barTurn_stale fresh, filter_cons_of_neg (by simp [fresh])]
      exact ih
    | true =>
      obtain ⟨first, adds, settled, emitted⟩ := barTurn_fresh dateOf method slice fresh
      obtain ⟨later, addsLater, emittedLater⟩ := foldl_barTurn_quiet settled rest
      rw [adds.lastConsumed] at emittedLater
      rw [filter_cons_of_pos fresh]
      exact ⟨first :: later, adds.trans addsLater, EmittedFrom.cons emitted emittedLater⟩

def ContractSlice.finish {K : Type} (slice : ContractSlice K) : ℤ := (slice.bars.getLast?.map (·.timestamp)).getD 0

/-- The bars of a slice after the end of another one. -/
def ContractSlice.after {K : Type} (before slice : ContractSlice K) : List (SliceBar K) :=
  slice.bars.filter fun bar => before.finish < bar.timestamp

/-- Slices in their order, where `holder` is the last one that added points. A slice with bars after the end of
the slice before it finds that slice to be the holder, or the holder to be of its contract and to end before
these bars. -/
def Aligned {K : Type} : ContractSlice K → ContractSlice K → List (ContractSlice K) → Prop
  | _, _, [] => True
  | before, holder, slice :: rest =>
      if before.after slice = [] then Aligned slice holder rest
      else (holder.contractCode = before.contractCode ∧
          ∀ bar ∈ before.after slice, holder.finish < bar.timestamp) ∧ Aligned slice slice rest

/-- The points and rows that some slices add. -/
structure Splices (slices : List (ContractSlice K)) (before after : SpliceState K)
    (added : List (ContinuousFuturesPoint K × Option RollRow)) : Prop where
  points : after.points = before.points ++ added.map (·.1)
  rollTable : after.rollTable = before.rollTable ++ added.filterMap (·.2)
  raw : ∀ item ∈ added, ∃ slice ∈ slices, slice.contractCode = item.1.contractCode ∧
    ∃ bar ∈ slice.bars, bar.timestamp = item.1.timestamp ∧ bar.price = item.1.rawPrice
  flagged : ∀ item ∈ added, item.2.isSome = item.1.rollFlag

variable {state : SpliceState K}

omit [Zero K] [Add K] [Sub K] [Mul K] [Div K] [LT K] [DecidableLT K] in
theorem EmittedFrom.flagged {slice : ContractSlice K}
    (emitted : EmittedFrom code (rolls slice state) (rollRow dateOf slice state) bars added) :
    ∀ item ∈ added, item.2.isSome = item.1.rollFlag := by
  cases emitted with
  | nil => simp
  | cons start quiet =>
    intro item member
    rcases mem_cons.mp member with rfl | later
    · rw [start.row, start.rollFlag, rollRow]
      cases rolls slice state with
      | true => rfl
      | false => rfl
    · obtain ⟨bar, -, emitted⟩ := exists_of_forall₂ quiet later
      rw [emitted.row, emitted.rollFlag, Option.isSome_none]

theorem sliceTurn_splices (dateOf : ℤ → ℤ) (method : AdjustmentMethod) (slice : ContractSlice K)
    (state : SpliceState K) :
    ∃ added, Splices [slice] state (sliceTurn dateOf method state slice) added ∧
      EmittedFrom slice.contractCode (state.prevCode.any fun code => code ≠ slice.contractCode)
        (rollRow dateOf slice { state with rolled := false }) (slice.bars.filter (isFresh state.lastConsumed)) added ∧
      (slice.bars = [] → (sliceTurn dateOf method state slice).lastConsumed = state.lastConsumed ∧
        (sliceTurn dateOf method state slice).prevCode = state.prevCode) ∧
      (slice.bars ≠ [] → (sliceTurn dateOf method state slice).lastConsumed = some slice.finish ∧
        (sliceTurn dateOf method state slice).prevCode = some slice.contractCode) := by
  obtain ⟨added, adds, emitted⟩ := foldl_barTurn dateOf method slice { state with rolled := false } slice.bars
  have raw : ∀ item ∈ added, ∃ other ∈ [slice], other.contractCode = item.1.contractCode ∧
      ∃ bar ∈ other.bars, bar.timestamp = item.1.timestamp ∧ bar.price = item.1.rawPrice := by
    intro item member
    obtain ⟨bar, fresh, same, price, code⟩ := exists_of_forall₂ emitted.points member
    exact ⟨slice, mem_singleton_self _, code.symm, bar, mem_of_mem_filter fresh, same.symm, price.symm⟩
  unfold sliceTurn
  cases last : slice.bars.getLast? with
  | none =>
    have empty := getLast?_eq_none_iff.mp last
    refine ⟨added, ⟨adds.points, adds.rollTable, raw, emitted.flagged⟩, emitted, ?_, ?_⟩
    · exact fun _ => ⟨adds.lastConsumed, adds.prevCode⟩
    · exact fun some => absurd empty some
  | some bar =>
    refine ⟨added, ⟨adds.points, adds.rollTable, raw, emitted.flagged⟩, emitted, ?_, ?_⟩
    · intro empty
      rw [empty] at last
      cases last
    · intro _
      simp [ContractSlice.finish, last]

omit [Zero K] [Add K] [Sub K] [Mul K] [Div K] [LT K] [DecidableLT K] in
theorem getLast_after (before slice : ContractSlice K) (some_after : before.after slice ≠ []) :
    (before.after slice).getLast? = slice.bars.getLast? := by
  obtain ⟨code, bars, increasing⟩ := slice
  obtain ⟨bar, member⟩ := exists_mem_of_ne_nil _ some_after
  obtain ⟨listed, fresh⟩ := mem_filter.mp member
  rcases eq_nil_or_concat' bars with rfl | ⟨front, last, rfl⟩
  · cases listed
  · -- the last bar is no earlier than one after the end
    have latest : bar.timestamp ≤ last.timestamp := by
      rcases mem_append.mp listed with early | final
      · exact ((pairwise_append.mp increasing).2.2 bar early last (mem_singleton_self _)).le
      · rw [mem_singleton.mp final]
    have kept := lt_of_lt_of_le (by simpa using fresh) latest
    rw [ContractSlice.after, filter_append, filter_cons_of_pos (by simpa using kept), filter_nil]
    simp

omit [Zero K] [Add K] [Sub K] [Mul K] [Div K] [LT K] [DecidableLT K] in
theorem last_after (before slice : ContractSlice K) (some_after : before.after slice ≠ []) :
    ∃ bar ∈ (before.after slice).getLast?, bar.timestamp = slice.finish := by
  have same := getLast_after before slice some_after
  have listed := getLast?_eq_some_getLast some_after
  exact ⟨_, listed, by simp [ContractSlice.finish, ← same, listed]⟩

omit [Zero K] [Add K] [Sub K] [Mul K] [Div K] [LT K] [DecidableLT K] in
theorem allRight_append {item : ContinuousFuturesPoint K × Option RollRow} (last : item ∈ one.getLast?) :
    AllRight dateOf earlier (one ++ two)
    ↔ AllRight dateOf earlier one ∧ AllRight dateOf (some item.1) two := by
  induction one generalizing earlier with
  | nil => cases last
  | cons first rest ih => cases rest with
    | nil =>
      obtain rfl := Option.some.inj last
      simp [AllRight]
    | cons second rest =>
      rw [getLast?_cons_cons] at last
      rw [cons_append, AllRight, AllRight, ih last, and_assoc]

omit [Zero K] [Add K] [Sub K] [Mul K] [Div K] [LT K] [DecidableLT K] in
theorem Splices.trans {first second third : SpliceState K} {slices later : List (ContractSlice K)}
    (early : Splices slices first second one) (late : Splices later second third two) :
    Splices (slices ++ later) first third (one ++ two) where
  points := by rw [late.points, early.points, map_append, append_assoc]
  rollTable := by rw [late.rollTable, early.rollTable, filterMap_append, append_assoc]
  raw := by
    intro item member
    rcases mem_append.mp member with now | next
    · obtain ⟨slice, listed, rest⟩ := early.raw item now
      exact ⟨slice, mem_append_left _ listed, rest⟩
    · obtain ⟨slice, listed, rest⟩ := late.raw item next
      exact ⟨slice, mem_append_right _ listed, rest⟩
  flagged := by
    intro item member
    rcases mem_append.mp member with now | next
    · exact early.flagged item now
    · exact late.flagged item next

theorem foldl_sliceTurn (dateOf : ℤ → ℤ) (method : AdjustmentMethod)
    (slices : List (ContractSlice K)) {before holder : ContractSlice K} {point : ContinuousFuturesPoint K}
    (consumed : state.lastConsumed = some before.finish)
    (code : state.prevCode = some before.contractCode)
    (ends : point.timestamp = holder.finish) (held : point.contractCode = holder.contractCode) :
    ∃ added, Splices slices state (slices.foldl (sliceTurn dateOf method) state) added ∧
      (AllRight dateOf (some point) added ↔ Aligned before holder (slices.filter fun slice => !slice.bars.isEmpty)) := by
  induction slices generalizing state before holder point with
  | nil => exact ⟨[], ⟨by simp, by simp, by simp, by simp⟩, by simp [AllRight, Aligned]⟩
  | cons slice rest ih =>
    obtain ⟨one, splices, emitted, unmoved, moved⟩ := sliceTurn_splices dateOf method slice state
    rw [foldl_cons]
    by_cases empty : slice.bars = []
    · obtain ⟨same, sameCode⟩ := unmoved empty
      obtain ⟨two, splicesLater, aligned⟩ := ih (same.trans consumed) (sameCode.trans code) ends held
      have nothing : one = [] := by
        rw [empty] at emitted
        cases emitted
        rfl
      rw [filter_cons_of_neg (by simp [empty])]
      refine ⟨one ++ two, splices.trans splicesLater, ?_⟩
      rw [nothing, nil_append]
      exact aligned
    · obtain ⟨finish, finishCode⟩ := moved empty
      have fresh : slice.bars.filter (isFresh state.lastConsumed) = before.after slice := by
        rw [consumed]
        rfl
      rw [fresh] at emitted
      rw [filter_cons_of_pos (by simp [empty]), Aligned]
      by_cases stale : before.after slice = []
      · obtain ⟨two, splicesLater, aligned⟩ := ih finish finishCode ends held
        have nothing : one = [] := by
          rw [stale] at emitted
          cases emitted
          rfl
        refine ⟨one ++ two, splices.trans splicesLater, ?_⟩
        rw [nothing, nil_append, if_pos stale]
        exact aligned
      · obtain ⟨bar, last, ending⟩ := last_after before slice stale
        obtain ⟨item, lastItem, time, -, itemCode⟩ := getLast_of_forall₂ emitted.points last
        obtain ⟨two, splicesLater, aligned⟩ := ih finish finishCode (time.trans ending) itemCode
        refine ⟨one ++ two, splices.trans splicesLater, ?_⟩
        have increasing : (before.after slice).Pairwise fun bar other => bar.timestamp < other.timestamp :=
          slice.increasing.sublist filter_sublist
        have flags : (state.prevCode.any fun code => code ≠ slice.contractCode) =
            decide (before.contractCode ≠ slice.contractCode) := by
          rw [code, Option.any_some]
        have rows : ∀ bar, rollRow dateOf slice { state with rolled := false } bar =
            if (state.prevCode.any fun code => code ≠ slice.contractCode) then
              some (dateOf bar.timestamp, before.contractCode, slice.contractCode) else none := by
          intro bar
          simp [rollRow, rolls, code]
        have right := emitted.allRight_iff increasing flags rows point
        rw [if_neg stale, allRight_append lastItem, aligned, right, ends, held]
        simp [stale]

omit [Zero K] [Add K] [Sub K] [Mul K] [Div K] [LT K] [DecidableLT K] in
/-- The points of the first slice are in order. -/
theorem EmittedFrom.allRight_none
    (emitted : EmittedFrom code false row bars added) (unrolled : ∀ bar, row bar = none)
    (increasing : bars.Pairwise fun bar other => bar.timestamp < other.timestamp) :
    AllRight dateOf none added := by
  cases emitted with
  | nil => trivial
  | cons start quiet =>
    obtain ⟨apart, increasing⟩ := pairwise_cons.mp increasing
    refine ⟨⟨by simp, start.rollFlag, ?_⟩, allRight_quiet quiet increasing start.contractCode ?_⟩
    · rw [start.row, unrolled]
      rfl
    · rw [start.timestamp]
      exact apart

/-- The slices that have bars, sorted, are aligned, and there is one. -/
def AlignedFromFirst {K : Type} : List (ContractSlice K) → Prop
  | [] => False
  | first :: rest => Aligned first first rest

theorem foldl_sliceTurn_start (dateOf : ℤ → ℤ) (method : AdjustmentMethod)
    (slices : List (ContractSlice K)) (consumed : state.lastConsumed = none)
    (code : state.prevCode = none) :
    ∃ added, Splices slices state (slices.foldl (sliceTurn dateOf method) state) added ∧
      (added ≠ [] ∧ AllRight dateOf none added ↔
        AlignedFromFirst (slices.filter fun slice => !slice.bars.isEmpty)) := by
  induction slices generalizing state with
  | nil => exact ⟨[], ⟨by simp, by simp, by simp, by simp⟩, by simp [AlignedFromFirst]⟩
  | cons slice rest ih =>
    obtain ⟨one, splices, emitted, unmoved, moved⟩ := sliceTurn_splices dateOf method slice state
    have all : slice.bars.filter (isFresh state.lastConsumed) = slice.bars := by
      rw [consumed]
      exact filter_true slice.bars
    rw [all, code] at emitted
    rw [foldl_cons]
    by_cases empty : slice.bars = []
    · obtain ⟨same, sameCode⟩ := unmoved empty
      obtain ⟨two, splicesLater, aligned⟩ := ih (same.trans consumed) (sameCode.trans code)
      have nothing : one = [] := by
        rw [empty] at emitted
        cases emitted
        rfl
      rw [filter_cons_of_neg (by simp [empty])]
      refine ⟨one ++ two, splices.trans splicesLater, ?_⟩
      rw [nothing, nil_append]
      exact aligned
    · obtain ⟨finish, finishCode⟩ := moved empty
      obtain ⟨front, bar, split⟩ := (eq_nil_or_concat' slice.bars).resolve_left empty
      have last : bar ∈ slice.bars.getLast? := by simp [split]
      have ending : bar.timestamp = slice.finish := by simp [ContractSlice.finish, split]
      obtain ⟨item, lastItem, time, -, itemCode⟩ := getLast_of_forall₂ emitted.points last
      obtain ⟨two, splicesLater, aligned⟩ :=
        foldl_sliceTurn dateOf method rest finish finishCode (time.trans ending) itemCode
      have right : AllRight dateOf none one :=
        emitted.allRight_none (fun bar => by simp [rollRow, rolls]) slice.increasing
      have present : one ++ two ≠ [] := by
        intro nothing
        rw [(append_eq_nil_iff.mp nothing).1] at lastItem
        cases lastItem
      rw [filter_cons_of_pos (by simp [empty])]
      refine ⟨one ++ two, splices.trans splicesLater, ?_⟩
      simp only [allRight_append lastItem, aligned, present, right, AlignedFromFirst, ne_eq, not_false_eq_true,
        true_and]

variable [One K]

omit [Add K] [Sub K] [Mul K] [Div K] [LT K] [DecidableLT K] in
theorem wellFormed_iff {slices : List (ContractSlice K)} {after : SpliceState K}
    (splices : Splices (sortSlices slices) .start after added) :
    WellFormed dateOf slices after.points after.rollTable ↔ AllRight dateOf none added := by
  have points := splices.points
  have table := splices.rollTable
  rw [allRight_iff splices.flagged, points, table]
  constructor
  · intro formed
    exact ⟨by simp, formed.increasing, formed.flags, formed.table⟩
  · rintro ⟨-, increasing, flags, changes⟩
    refine ⟨increasing, ?_, flags, changes⟩
    intro point member
    obtain ⟨item, listed, rfl⟩ := mem_map.mp member
    obtain ⟨slice, sorted, priced⟩ := splices.raw item listed
    exact ⟨slice, (perm_insertionSort _ slices).mem_iff.mp sorted, priced⟩

omit [Zero K] [One K] [Add K] [Sub K] [Mul K] [Div K] [LT K] [DecidableLT K] in
theorem exists_bars_of_aligned {slices : List (ContractSlice K)}
    (aligned : AlignedFromFirst ((sortSlices slices).filter fun slice => !slice.bars.isEmpty)) :
    ∃ slice ∈ slices, slice.bars ≠ [] := by
  cases filled : (sortSlices slices).filter fun slice => !slice.bars.isEmpty with
  | nil =>
    rw [filled] at aligned
    cases aligned
  | cons first rest =>
    have member : first ∈ (sortSlices slices).filter fun slice => !slice.bars.isEmpty := by simp [filled]
    obtain ⟨sorted, some_bars⟩ := mem_filter.mp member
    exact ⟨first, (perm_insertionSort _ slices).mem_iff.mp sorted, by simpa using some_bars⟩

/-- Slices splice into a well-formed series exactly if those with bars are aligned, and none is empty where the
times have a zone. -/
theorem continuous_series_wellFormed_iff (dateOf : ℤ → ℤ) (method : AdjustmentMethod) (zoned : Bool)
    (slices : List (ContractSlice K)) :
    (∃ points rollTable, buildContinuousSeries dateOf method zoned slices = .ok (points, rollTable) ∧
      WellFormed dateOf slices points rollTable) ↔ (zoned = true → ∀ slice ∈ slices, slice.bars ≠ []) ∧
      AlignedFromFirst ((sortSlices slices).filter fun slice => !slice.bars.isEmpty) := by
  obtain ⟨added, splices, ordered⟩ := foldl_sliceTurn_start dateOf method (sortSlices slices)
    (rfl : (SpliceState.start : SpliceState K).lastConsumed = none) rfl
  have points := splices.points
  rw [← ordered, ← wellFormed_iff splices]
  simp only [buildContinuousSeries]
  constructor
  · rintro ⟨points', rollTable, built, formed⟩
    split_ifs at built with nothing incomparable unspliced
    obtain ⟨rfl, rfl⟩ := Prod.mk.inj (Except.ok.inj built)
    have present : added ≠ [] := by
      rintro rfl
      exact unspliced points
    refine ⟨?_, present, formed⟩
    intro zone slice listed empty
    obtain ⟨other, member, some_bars⟩ :=
      exists_bars_of_aligned (ordered.mp ⟨present, (wellFormed_iff splices).mp formed⟩)
    apply incomparable
    simp only [zone, Bool.true_and, Bool.and_eq_true, any_eq_true]
    exact ⟨⟨slice, listed, by simp [empty]⟩, other, member, by simpa using some_bars⟩
  · rintro ⟨filled, present, formed⟩
    have listed : slices ≠ [] := by
      rintro rfl
      obtain ⟨slice, member, -⟩ := exists_bars_of_aligned (ordered.mp ⟨present, (wellFormed_iff splices).mp formed⟩)
      cases member
    have comparable : ¬(zoned && slices.any (·.bars.isEmpty) && slices.any (!·.bars.isEmpty)) = true := by
      intro incomparable
      simp only [Bool.and_eq_true, any_eq_true] at incomparable
      obtain ⟨⟨zone, slice, member, empty⟩, -⟩ := incomparable
      exact filled zone slice member (by simpa using empty)
    have some_points : ((sortSlices slices).foldl (sliceTurn dateOf method) .start).points ≠ [] := by
      rw [points]
      exact fun nothing => present (map_eq_nil_iff.mp nothing)
    rw [if_neg listed, if_neg comparable, if_neg some_points]
    exact ⟨_, _, rfl, formed⟩

/-- A contract within another one moves the end back: its successor adds a point before the last one. -/
theorem nested_slice_not_wellFormed :
    ¬ ∃ points rollTable, buildContinuousSeries (K := ℕ) (fun time => time) .none false
        [⟨"IF2401", [⟨1, 100, 1⟩, ⟨5, 104, 1⟩], by decide⟩, ⟨"IF2402", [⟨2, 110, 1⟩, ⟨3, 111, 1⟩], by decide⟩,
          ⟨"IF2403", [⟨4, 120, 1⟩, ⟨6, 121, 1⟩], by decide⟩] = .ok (points, rollTable) ∧
      WellFormed (fun time => time)
        [⟨"IF2401", [⟨1, 100, 1⟩, ⟨5, 104, 1⟩], by decide⟩, ⟨"IF2402", [⟨2, 110, 1⟩, ⟨3, 111, 1⟩], by decide⟩,
          ⟨"IF2403", [⟨4, 120, 1⟩, ⟨6, 121, 1⟩], by decide⟩] points rollTable := by
  rintro ⟨points, rollTable, built, formed⟩
  have value : .ok (points, rollTable) = Except.ok (ε := BuildError)
      ([⟨1, 100, 100, "IF2401", 1, false⟩, ⟨5, 104, 104, "IF2401", 1, false⟩, ⟨4, 120, 120, "IF2403", 1, true⟩,
        ⟨6, 121, 121, "IF2403", 1, false⟩], [(4, "IF2402", "IF2403")]) := built.symm.trans (by rfl)
  obtain ⟨rfl, rfl⟩ := Prod.mk.inj (Except.ok.inj value)
  have increasing := formed.increasing
  revert increasing
  decide

end Series

end FinDashboard.Instruments
