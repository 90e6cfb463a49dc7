import Mathlib.Algebra.Field.Rat
import Mathlib.Algebra.Order.Ring.Rat
import Mathlib.Data.Nat.Find

/-!
# The series of the active contract

The volumes, or a calendar, say at which bars the next contract takes over. Every such bar is recorded as a
roll, also when the next contract is the active one already, and the prices stay those of the front contract.
-/

namespace FinDashboard.Tsmom

open List

inductive RollMethod
  | volume | openInterest | scheduled | manual
deriving DecidableEq

structure RollEvent (K : Type) where
  symbol : String
  barIndex : ℕ
  fromContract : String
  toContract : String
  frontPrice : K
  nextPrice : K
  rollYield : K
  reason : String
deriving DecidableEq

structure ActiveContractSeries (K : Type) where
  symbol : String
  dates : List String
  closes : List K
  opens : List K
  volumes : List K
  contractIds : List String
  rollEvents : List (RollEvent K)
deriving DecidableEq

/-- The arguments of `build_active_series` that are read; `next` has the closes and volumes of the next
contract where both are given. -/
structure RollData (K : Type) where
  symbol : String
  frontCloses : List K
  frontOpens : List K
  frontVolumes : List K
  next : Option (List K × List K) := none
  frontContractId : String := "FRONT"
  nextContractId : String := "NEXT"
  dates : Option (List String) := none
  rollMethod : RollMethod := .volume
  rollLookback : ℤ := 5
  forcedRollIndices : List ℤ := []

/-- The state of the loop over the bars. -/
structure RollState (K : Type) where
  currentContract : String
  contractIds : List String := []
  rollEvents : List (RollEvent K) := []

variable {K : Type} [Zero K] [Sub K] [Div K] [LT K] [LE K] [DecidableLT K] [DecidableLE K]

/-- The volume of the next contract has been the larger one on the last bars. -/
def shouldRoll (rollLookback : ℤ) (frontVolumes nextVolumes : List K) (barIndex : ℕ) : Bool :=
  if (barIndex : ℤ) < rollLookback then false
  else if frontVolumes.length ≤ barIndex ∨ nextVolumes.length ≤ barIndex then false
  else (range rollLookback.toNat).all fun back =>
    match frontVolumes[barIndex - back]?, nextVolumes[barIndex - back]? with
    | some front, some next => ¬next ≤ front
    | _, _ => false

namespace RollData

variable (data : RollData K)

/-- `should` and `reason`. -/
def shouldRollAt (nextVolumes : List K) (i : ℕ) : Bool × String :=
  match data.rollMethod with
  | .volume => (shouldRoll data.rollLookback data.frontVolumes nextVolumes i, "volume_crossover")
  | .scheduled => (data.forcedRollIndices.contains (i : ℤ), "scheduled")
  | _ => (false, "manual")

/-- The next contract takes over at a bar that is not the last one. -/
def triggered (nextVolumes : List K) (i : ℕ) : Bool :=
  (data.shouldRollAt nextVolumes i).1 && decide (i + 1 < data.frontCloses.length)

def rollEvent (next : List K × List K) (currentContract : String) (i : ℕ) : RollEvent K :=
  let frontPx := data.frontCloses.getD i 0
  let nextPx := next.1.getD i frontPx
  { symbol := data.symbol
    barIndex := i
    fromContract := currentContract
    toContract := data.nextContractId
    frontPrice := frontPx
    nextPrice := nextPx
    rollYield := if 0 < nextPx then (frontPx - nextPx) / nextPx else 0
    reason := (data.shouldRollAt next.2 i).2 }

/-- One bar of the loop. -/
def rollBar (next : List K × List K) (state : RollState K) (i : ℕ) : RollState K :=
  if data.triggered next.2 i then
    { currentContract := data.nextContractId
      contractIds := state.contractIds ++ [data.nextContractId]
      rollEvents := state.rollEvents ++ [data.rollEvent next state.currentContract i] }
  else { state with contractIds := state.contractIds ++ [state.currentContract] }

/-- The loop over the bars; without a next contract there is none. -/
def rollLoop : RollState K :=
  match data.next with
  | none =>
    { currentContract := data.frontContractId
      contractIds := replicate data.frontCloses.length data.frontContractId }
  | some next =>
    (range data.frontCloses.length).foldl (data.rollBar next) { currentContract := data.frontContractId }

end RollData

def buildActiveSeries (data : RollData K) : Except String (ActiveContractSeries K) :=
  let n := data.frontCloses.length
  if n = 0 then .error "front_closes 不能为空"
  else if data.frontOpens.length ≠ n then .error "front_opones 长度必须等于 front_closes"
  else if data.frontVolumes.length ≠ n then .error "front_volumes 长度必须等于 front_closes"
  else
    .ok {
      symbol := data.symbol
      dates := (range n).map fun i => ((data.dates.getD [])[i]?).getD (toString i)
      closes := data.frontCloses
      opens := data.frontOpens
      volumes := data.frontVolumes
      contractIds := data.rollLoop.contractIds
      rollEvents := data.rollLoop.rollEvents }

namespace RollData

variable (data : RollData K)

/-- Some bar before this one, of a series with a next contract, is a roll. -/
def RollsAt (i : ℕ) : Prop := ∃ next ∈ data.next, data.triggered next.2 i = true

/-- The contract that is active after the bars before this one. -/
def contractBefore (nextVolumes : List K) (i : ℕ) : String :=
  if (range i).any (data.triggered nextVolumes) then data.nextContractId else data.frontContractId

omit [Zero K] [Sub K] [Div K] [LT K] [DecidableLT K] in
theorem contractBefore_succ (nextVolumes : List K) (i : ℕ) : data.contractBefore nextVolumes (i + 1) =
    if data.triggered nextVolumes i then data.nextContractId else data.contractBefore nextVolumes i := by
  unfold contractBefore
  rw [range_succ, any_append, any_cons, any_nil, Bool.or_false, Bool.or_comm]
  cases data.triggered nextVolumes i <;> rfl

/-- After some bars the loop has named each by the rolls up to it, and recorded all of them. -/
theorem foldl_rollBar (next : List K × List K) (n : ℕ) :
    (range n).foldl (data.rollBar next) { currentContract := data.frontContractId } =
      { currentContract := data.contractBefore next.2 n
        contractIds := (range n).map fun i => data.contractBefore next.2 (i + 1)
        rollEvents := ((range n).filter (data.triggered next.2)).map fun i =>
          data.rollEvent next (data.contractBefore next.2 i) i } := by
  induction n with
  | zero => rfl
  | succ n ih =>
    rw [range_succ, foldl_append, ih, map_append, filter_append, map_append,
      foldl_cons, foldl_nil, contractBefore_succ, map_singleton, contractBefore_succ, rollBar]
    cases rolls : data.triggered next.2 n <;> simp [rolls]

def activeAt (i : ℕ) : String := data.next.elim data.frontContractId fun next => data.contractBefore next.2 i

variable {data} {i j : ℕ}

omit [Zero K] [Sub K] [Div K] [LT K] [DecidableLT K] in
theorem activeAt_of_rolled (rolls : data.RollsAt j) (before : j < i) : data.activeAt i = data.nextContractId := by
  obtain ⟨next, given, rolls⟩ := rolls
  have found := any_eq_true.mpr ⟨j, mem_range.mpr before, rolls⟩
  rw [activeAt, given, Option.elim_some, contractBefore, if_pos found]

omit [Zero K] [Sub K] [Div K] [LT K] [DecidableLT K] in
theorem activeAt_of_still (still : ∀ j < i, ¬data.RollsAt j) : data.activeAt i = data.frontContractId := by
  unfold activeAt
  cases given : data.next with
  | none => rfl
  | some next =>
    refine if_neg fun found => ?_
    obtain ⟨j, before, rolls⟩ := any_eq_true.mp found
    exact still j (mem_range.mp before) ⟨next, given, rolls⟩

theorem contractIds_rollLoop (i : ℕ) : data.rollLoop.contractIds[i]? =
    if i < data.frontCloses.length then some (data.activeAt (i + 1)) else none := by
  unfold rollLoop activeAt
  cases data.next with
  | none => exact List.getElem?_replicate
  | some next =>
    dsimp only
    rw [foldl_rollBar, List.getElem?_map]
    by_cases inside : i < data.frontCloses.length
    · rw [List.getElem?_range inside, if_pos inside]
      rfl
    · rw [List.getElem?_eq_none (by rw [length_range]; omega), if_neg inside]
      rfl

theorem mem_rollEvents {event : RollEvent K} : event ∈ data.rollLoop.rollEvents ↔
    ∃ i, ∃ next ∈ data.next, data.RollsAt i ∧ event = data.rollEvent next (data.activeAt i) i := by
  unfold rollLoop activeAt RollsAt
  cases data.next with
  | none => simp
  | some next =>
    dsimp only
    rw [foldl_rollBar, mem_map]
    constructor
    · rintro ⟨i, rolls, rfl⟩
      exact ⟨i, next, rfl, ⟨next, rfl, (mem_filter.mp rolls).2⟩, rfl⟩
    · rintro ⟨i, given, known, ⟨other, same, rolls⟩, rfl⟩
      obtain rfl := Option.some.inj known
      obtain rfl := Option.some.inj same
      have inside := of_decide_eq_true ((Bool.and_eq_true _ _).mp rolls).2
      exact ⟨i, mem_filter.mpr ⟨mem_range.mpr (by omega), rolls⟩, rfl⟩

/-- A recorded roll is one of the series, and every roll is recorded. -/
theorem exists_event {bar : ℕ} :
    (∃ event ∈ data.rollLoop.rollEvents, event.barIndex = bar) ↔ data.RollsAt bar := by
  constructor
  · rintro ⟨event, member, rfl⟩
    obtain ⟨i, next, given, rolls, rfl⟩ := mem_rollEvents.mp member
    exact rolls
  · intro rolls
    have some := rolls
    obtain ⟨next, given, -⟩ := some
    exact ⟨_, mem_rollEvents.mpr ⟨bar, next, given, rolls, rfl⟩, rfl⟩

omit [Zero K] [Sub K] [Div K] [LT K] [DecidableLT K] in
theorem RollsAt.inside (rolls : data.RollsAt i) : i + 1 < data.frontCloses.length := by
  obtain ⟨next, given, rolls⟩ := rolls
  exact of_decide_eq_true ((Bool.and_eq_true _ _).mp rolls).2

end RollData

namespace ActiveContractSeries

/-- The ids of a bar and of the next one differ. -/
def ChangesAfter (series : ActiveContractSeries K) (i : ℕ) : Prop :=
  ∃ id ∈ series.contractIds[i]?, ∃ other ∈ series.contractIds[i + 1]?, id ≠ other

/-- The ids change exactly so many bars before a recorded roll. -/
def ChangesAtRolls (series : ActiveContractSeries K) (offset : ℕ) : Prop :=
  ∀ bar, (∃ event ∈ series.rollEvents, event.barIndex = bar) ↔ ∃ i, i + offset = bar ∧ series.ChangesAfter i

end ActiveContractSeries

def RollData.closeOf (data : RollData K) (id : String) (i : ℕ) : Option K :=
  if id = data.frontContractId then data.frontCloses[i]?
  else if id = data.nextContractId then data.next.bind fun next => next.1[i]?
  else none

/-- The closes are those of the named contracts, the names change at the rolls, or at the bars after them, and
no roll comes after that from the front contract to the next one. -/
structure NamesItsPrices (data : RollData K) (series : ActiveContractSeries K) : Prop where
  prices : ∀ i, ∀ px ∈ series.closes[i]?, ∃ id ∈ series.contractIds[i]?, px ∈ data.closeOf id i
  changes : series.ChangesAtRolls 0 ∨ series.ChangesAtRolls 1
  apart : ∀ event ∈ series.rollEvents, event.fromContract ≠ event.toContract
  last : ∀ event ∈ series.rollEvents, event.fromContract = data.frontContractId →
    event.toContract = data.nextContractId → ∀ other ∈ series.rollEvents, other.barIndex ≤ event.barIndex

/-- At most one bar is a roll, it is not the first one, and from it on both contracts close alike. -/
def RollsAlike (data : RollData K) : Prop :=
  (∀ i, ¬data.RollsAt i) ∨ ∃ roll, 0 < roll ∧ data.RollsAt roll ∧ (∀ i, data.RollsAt i → i = roll) ∧
    data.frontContractId ≠ data.nextContractId ∧
    ∀ i, roll ≤ i → ∀ px ∈ data.frontCloses[i]?, ∃ next ∈ data.next, px ∈ next.1[i]?

variable {data : RollData K} {series : ActiveContractSeries K}

theorem buildActiveSeries_spec (built : buildActiveSeries data = .ok series) :
    series.closes = data.frontCloses ∧ series.contractIds = data.rollLoop.contractIds ∧
      series.rollEvents = data.rollLoop.rollEvents := by
  unfold buildActiveSeries at built
  dsimp only at built
  split_ifs at built
  obtain rfl := Except.ok.inj built
  exact ⟨rfl, rfl, rfl⟩

theorem changesAfter_iff (ids : series.contractIds = data.rollLoop.contractIds) {i : ℕ} :
    series.ChangesAfter i ↔ i + 1 < data.frontCloses.length ∧ data.activeAt (i + 1) ≠ data.activeAt (i + 2) := by
  unfold ActiveContractSeries.ChangesAfter
  rw [ids, RollData.contractIds_rollLoop, RollData.contractIds_rollLoop]
  by_cases inside : i + 1 < data.frontCloses.length
  · rw [if_pos inside, if_pos (by omega)]
    simp [inside]
  · rw [if_neg inside]
    simp [inside]

theorem NamesItsPrices.alike (names : NamesItsPrices data series) (built : buildActiveSeries data = .ok series)
    {roll : ℕ} (rolls : data.RollsAt roll) (first : ∀ j < roll, ¬data.RollsAt j) :
    0 < roll ∧ (∀ i, data.RollsAt i → i = roll) ∧ data.frontContractId ≠ data.nextContractId ∧
      ∀ i, roll ≤ i → ∀ px ∈ data.frontCloses[i]?, ∃ next ∈ data.next, px ∈ next.1[i]? := by
  obtain ⟨closes, ids, events⟩ := buildActiveSeries_spec built
  have events_apart : ∀ i, data.RollsAt i → data.activeAt i ≠ data.nextContractId := by
    intro i rollsAt
    have some := rollsAt
    obtain ⟨next, given, -⟩ := some
    have member := RollData.mem_rollEvents.mpr ⟨i, next, given, rollsAt, rfl⟩
    exact names.apart _ (events ▸ member)
  have later : ∀ i, roll < i → data.activeAt i = data.nextContractId :=
    fun i after => RollData.activeAt_of_rolled rolls after
  have differ : data.frontContractId ≠ data.nextContractId := by
    rw [← RollData.activeAt_of_still first]
    exact events_apart roll rolls
  refine ⟨?_, ?_, differ, ?_⟩
  · have recorded : ∃ event ∈ series.rollEvents, event.barIndex = roll := by
      rw [events]
      exact RollData.exists_event.mpr rolls
    rcases names.changes with after | before
    · obtain ⟨i, rfl, changes⟩ := (after roll).mp recorded
      rw [changesAfter_iff ids, later _ (by omega), later _ (by omega)] at changes
      exact absurd rfl changes.2
    · obtain ⟨i, rfl, -⟩ := (before roll).mp recorded
      exact Nat.succ_pos i
  · intro i rollsAt
    by_contra other
    have after : roll < i := by
      have notBefore := mt (first i) (not_not_intro rollsAt)
      omega
    exact events_apart i rollsAt (later i after)
  · intro i after px price
    obtain ⟨id, named, close⟩ := names.prices i px (closes ▸ price)
    have inside := (List.getElem?_eq_some_iff.mp price).1
    rw [ids, RollData.contractIds_rollLoop, if_pos inside, later _ (by omega)] at named
    obtain rfl := Option.some.inj named
    rw [RollData.closeOf, if_neg differ.symm, if_pos rfl] at close
    obtain ⟨next, given, price⟩ := Option.bind_eq_some_iff.mp close
    exact ⟨next, given, price⟩

theorem front_named (ids : series.contractIds = data.rollLoop.contractIds) {i : ℕ} {px : K}
    (still : ∀ j < i + 1, ¬data.RollsAt j) (price : data.frontCloses[i]? = some px) :
    ∃ id ∈ series.contractIds[i]?, px ∈ data.closeOf id i := by
  have inside := (List.getElem?_eq_some_iff.mp price).1
  rw [ids, RollData.contractIds_rollLoop, if_pos inside, RollData.activeAt_of_still still]
  refine ⟨data.frontContractId, rfl, ?_⟩
  rw [RollData.closeOf, if_pos rfl]
  exact price

theorem names_of_still (built : buildActiveSeries data = .ok series) (still : ∀ i, ¬data.RollsAt i) :
    NamesItsPrices data series := by
  obtain ⟨closes, ids, events⟩ := buildActiveSeries_spec built
  have none : ∀ event, event ∉ series.rollEvents := by
    intro event member
    exact still _ (RollData.exists_event.mp ⟨event, events ▸ member, rfl⟩)
  refine ⟨fun i px price => front_named ids (fun j _ => still j) (closes ▸ price), Or.inr fun bar => ?_,
    fun event member => absurd member (none event), fun event member => absurd member (none event)⟩
  refine iff_of_false (fun ⟨event, member, _⟩ => none event member) ?_
  rintro ⟨i, -, changes⟩
  have front : ∀ i, data.activeAt i = data.frontContractId :=
    fun i => RollData.activeAt_of_still fun j _ => still j
  rw [changesAfter_iff ids, front, front] at changes
  exact changes.2 rfl

theorem names_of_once (built : buildActiveSeries data = .ok series) {roll : ℕ} (after : 0 < roll)
    (rolls : data.RollsAt roll) (only : ∀ i, data.RollsAt i → i = roll)
    (differ : data.frontContractId ≠ data.nextContractId)
    (alike : ∀ i, roll ≤ i → ∀ px ∈ data.frontCloses[i]?, ∃ next ∈ data.next, px ∈ next.1[i]?) :
    NamesItsPrices data series := by
  obtain ⟨closes, ids, events⟩ := buildActiveSeries_spec built
  have early : ∀ i ≤ roll, ∀ j < i, ¬data.RollsAt j := fun i bound j before rollsAt => by
    have same := only j rollsAt
    omega
  have late : ∀ i, roll < i → data.activeAt i = data.nextContractId :=
    fun i after => RollData.activeAt_of_rolled rolls after
  have single : ∀ event ∈ series.rollEvents, event.barIndex = roll ∧
      event.fromContract = data.frontContractId ∧ event.toContract = data.nextContractId := by
    intro event member
    obtain ⟨i, next, -, rollsAt, rfl⟩ := RollData.mem_rollEvents.mp (events ▸ member)
    obtain rfl := only i rollsAt
    exact ⟨rfl, RollData.activeAt_of_still (early i le_rfl), rfl⟩
  refine ⟨?_, Or.inr fun bar => ?_, ?_, ?_⟩
  · intro i px price
    rw [closes] at price
    by_cases before : i < roll
    · exact front_named ids (early (i + 1) before) price
    · obtain ⟨next, given, close⟩ := alike i (by omega) px price
      have inside := (List.getElem?_eq_some_iff.mp price).1
      rw [ids, RollData.contractIds_rollLoop, if_pos inside, late _ (by omega)]
      refine ⟨data.nextContractId, rfl, ?_⟩
      rw [RollData.closeOf, if_neg differ.symm, if_pos rfl]
      exact Option.bind_eq_some_iff.mpr ⟨next, given, close⟩
  · rw [events, RollData.exists_event]
    constructor
    · intro rollsAt
      obtain rfl := only bar rollsAt
      obtain ⟨i, rfl⟩ : ∃ i, bar = i + 1 := ⟨bar - 1, by omega⟩
      refine ⟨i, rfl, (changesAfter_iff ids).mpr ⟨by have := rolls.inside; omega, ?_⟩⟩
      rw [RollData.activeAt_of_still (early (i + 1) le_rfl), late _ (by omega)]
      exact differ
    · rintro ⟨i, rfl, changes⟩
      have changed := ((changesAfter_iff ids).mp changes).2
      rcases Nat.lt_trichotomy (i + 1) roll with before | here | past
      · rw [RollData.activeAt_of_still (early _ before.le), RollData.activeAt_of_still (early _ before)] at changed
        exact absurd rfl changed
      · rw [here]
        exact rolls
      · rw [late _ past, late _ (by omega)] at changed
        exact absurd rfl changed
  · intro event member
    obtain ⟨-, source, target⟩ := single event member
    rw [source, target]
    exact differ
  · intro event member _ _ other listed
    rw [(single event member).1, (single other listed).1]

/-- A series names what it prices exactly if nothing changes at its only roll but the name. -/
theorem namesItsPrices_iff (built : buildActiveSeries data = .ok series) :
    NamesItsPrices data series ↔ RollsAlike data := by
  obtain ⟨closes, ids, events⟩ := buildActiveSeries_spec built
  constructor
  · intro names
    by_cases any : ∃ i, data.RollsAt i
    · classical
      have alike := names.alike built (Nat.find_spec any) fun j => Nat.find_min any
      exact Or.inr ⟨Nat.find any, alike.1, Nat.find_spec any, alike.2⟩
    · exact Or.inl fun i rolls => any ⟨i, rolls⟩
  · rintro (still | ⟨roll, after, rolls, only, differ, alike⟩)
    · exact names_of_still built still
    · exact names_of_once built after rolls only differ alike

/-- The next contract has the larger volume on all four days, and closes lower. -/
def fourDays : RollData ℚ where
  symbol := "IF"
  frontCloses := [102, 103, 104, 105]
  frontOpens := [102, 103, 104, 105]
  frontVolumes := [1, 1, 1, 1]
  next := some ([100, 101, 102, 103], [2, 2, 2, 2])
  rollLookback := 1

/-- The second and third day are rolls, the latter from the next contract to itself. -/
def fourDaySeries : ActiveContractSeries ℚ where
  symbol := "IF"
  dates := ["0", "1", "2", "3"]
  closes := [102, 103, 104, 105]
  opens := [102, 103, 104, 105]
  volumes := [1, 1, 1, 1]
  contractIds := ["FRONT", "NEXT", "NEXT", "NEXT"]
  rollEvents := [⟨"IF", 1, "FRONT", "NEXT", 103, 101, 2 / 101, "volume_crossover"⟩,
    ⟨"IF", 2, "NEXT", "NEXT", 104, 102, 2 / 102, "volume_crossover"⟩]

theorem fourDays_built : buildActiveSeries fourDays = .ok fourDaySeries := by decide +kernel

theorem namesItsPrices_iff_fourDays : NamesItsPrices fourDays fourDaySeries ↔ RollsAlike fourDays :=
  namesItsPrices_iff fourDays_built

theorem fourDays_misnamed :
    buildActiveSeries fourDays = .ok fourDaySeries ∧ ¬NamesItsPrices fourDays fourDaySeries := by
  refine ⟨fourDays_built, fun names => ?_⟩
  exact absurd names.apart (by decide)

end FinDashboard.Tsmom
