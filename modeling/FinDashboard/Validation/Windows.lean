import FinDashboard.Shared.Calendar

/-!
# Walk-forward windows and stress phases

The windows slide over the dates before the frozen test set; the stress phases are the market
phases that meet the range from the validation start to the end of the test set.
-/

namespace FinDashboard.Validation

inductive ValidationMode
  | rolling
  | expanding
deriving DecidableEq, Repr

inductive WindowRole
  | train
  | validation
  | test
deriving DecidableEq, Repr

structure WindowSlice where
  windowIndex : ℕ
  role : WindowRole
  start : ℤ
  last : ℤ
deriving DecidableEq, Repr

/-- A window trains before it tests. -/
structure WalkForwardWindow where
  windowIndex : ℕ
  train : WindowSlice
  test : WindowSlice
  trainIndex : train.windowIndex = windowIndex
  testIndex : test.windowIndex = windowIndex
  trainRole : train.role = .train
  testRole : test.role = .test
  separate : train.last < test.start
deriving DecidableEq

def nextTradingDay (date : ℤ) : ℤ :=
  if weekday (date + 1) < 5 then date + 1
  else if weekday (date + 2) < 5 then date + 2
  else date + 3

/-- `_add_trading_days`, forward. -/
def addTradingDays (date : ℤ) : ℕ → ℤ
  | 0 => date
  | days + 1 => addTradingDays (nextTradingDay date) days

/-- The arguments of `generate_walk_forward_windows`. -/
structure SplitArguments where
  mode : ValidationMode
  trainStart : ℤ
  trainEnd : ℤ
  testStart : ℤ
  testEnd : ℤ
  trainWindowDays : ℤ
  testWindowDays : ℤ
  stepDays : ℤ
deriving DecidableEq, Repr

inductive SplitError
  | trainOrder
  | testOrder
  | testBeforeTrain
  | nonpositiveDays
deriving DecidableEq, Repr

namespace SplitArguments

variable (arguments : SplitArguments)

def trainEndFrom (start : ℤ) : ℤ := addTradingDays start (arguments.trainWindowDays - 1).toNat

/-- The train range of the next turn. -/
def slide (curTrainStart curTrainEnd : ℤ) : ℤ × ℤ :=
  match arguments.mode with
  | .rolling =>
    (addTradingDays curTrainStart arguments.stepDays.toNat,
      arguments.trainEndFrom (addTradingDays curTrainStart arguments.stepDays.toNat))
  | .expanding => (curTrainStart, addTradingDays curTrainEnd arguments.stepDays.toNat)

/-- The last day of the train range of a turn, in either mode. -/
def trainEndAt (turn : ℕ) : ℤ :=
  addTradingDays arguments.trainStart
    ((arguments.trainWindowDays - 1).toNat + turn * arguments.stepDays.toNat)

def testStartAt (turn : ℕ) : ℤ := addTradingDays (arguments.trainEndAt turn) 1

def testLastAt (turn : ℕ) : ℤ :=
  addTradingDays (arguments.testStartAt turn) (arguments.testWindowDays - 1).toNat

/-- A turn adds a window when its ranges are inside those of the arguments. -/
structure Adds (turn : ℕ) : Prop where
  trains : arguments.trainEndAt turn ≤ arguments.trainEnd
  starts : arguments.testStart ≤ arguments.testStartAt turn
  ends : arguments.testLastAt turn ≤ arguments.testEnd

end SplitArguments

variable (date : ℤ)

theorem lt_nextTradingDay : date < nextTradingDay date := by
  unfold nextTradingDay
  split
  · omega
  · split <;> omega

theorem add_le_addTradingDays (days : ℕ) : date + days ≤ addTradingDays date days := by
  induction days generalizing date with
  | zero => simp [addTradingDays]
  | succ days ih =>
    have next := lt_nextTradingDay date
    have later := ih (nextTradingDay date)
    simp only [addTradingDays]
    push_cast
    omega

theorem addTradingDays_add (first second : ℕ) :
    addTradingDays (addTradingDays date first) second = addTradingDays date (first + second) := by
  induction first generalizing date with
  | zero => rw [Nat.zero_add]; rfl
  | succ first ih =>
    rw [Nat.succ_add]
    exact ih (nextTradingDay date)

theorem addTradingDays_mono {first second : ℕ} (before : first ≤ second) :
    addTradingDays date first ≤ addTradingDays date second := by
  obtain ⟨more, rfl⟩ := Nat.exists_eq_add_of_le before
  have later := add_le_addTradingDays (addTradingDays date first) more
  rw [addTradingDays_add] at later
  omega

def windowAfter (arguments : SplitArguments) (windowIndex : ℕ) (curTrainStart curTrainEnd : ℤ) :
    WalkForwardWindow where
  windowIndex := windowIndex
  train :=
    { windowIndex := windowIndex, role := .train, start := curTrainStart, last := curTrainEnd }
  test :=
    { windowIndex := windowIndex
      role := .test
      start := addTradingDays curTrainEnd 1
      last := addTradingDays (addTradingDays curTrainEnd 1) (arguments.testWindowDays - 1).toNat }
  trainIndex := rfl
  testIndex := rfl
  trainRole := rfl
  testRole := rfl
  separate := lt_nextTradingDay curTrainEnd

/-- The loop of `generate_walk_forward_windows`; the fuel bounds its turns. -/
def windowsFrom (arguments : SplitArguments) :
    (fuel : ℕ) → (windowIndex : ℕ) → (curTrainStart curTrainEnd : ℤ) → List WalkForwardWindow
  | 0, _, _, _ => []
  | fuel + 1, windowIndex, curTrainStart, curTrainEnd =>
    let window := windowAfter arguments windowIndex curTrainStart curTrainEnd
    let next := arguments.slide curTrainStart curTrainEnd
    if arguments.trainEnd < curTrainEnd then []
    else if arguments.testEnd < window.test.last then []
    else if window.test.start < arguments.testStart then
      windowsFrom arguments fuel windowIndex next.1 next.2
    else window :: windowsFrom arguments fuel (windowIndex + 1) next.1 next.2

def turns (arguments : SplitArguments) (curTrainEnd : ℤ) : ℕ :=
  (arguments.trainEnd - curTrainEnd + 1).toNat

def generateWalkForwardWindows (arguments : SplitArguments) :
    Except SplitError (List WalkForwardWindow) :=
  if arguments.trainEnd ≤ arguments.trainStart then .error .trainOrder
  else if arguments.testEnd ≤ arguments.testStart then .error .testOrder
  else if arguments.testStart ≤ arguments.trainStart then .error .testBeforeTrain
  else if arguments.trainWindowDays ≤ 0 ∨ arguments.testWindowDays ≤ 0 ∨ arguments.stepDays ≤ 0 then
    .error .nonpositiveDays
  else
    let firstTrainEnd := arguments.trainEndFrom arguments.trainStart
    .ok (windowsFrom arguments (turns arguments firstTrainEnd) 0 arguments.trainStart firstTrainEnd)

structure MarketPhase where
  label : String
  start : ℤ
  last : ℤ
deriving DecidableEq, Repr

def defaultStressPhases : List MarketPhase :=
  [ { label := "2018-Q1", start := 736695, last := 736784 },
    { label := "2018-Q4", start := 736968, last := 737059 },
    { label := "2020-Q1", start := 737425, last := 737515 },
    { label := "2022-Q1", start := 738156, last := 738245 },
    { label := "2022-Q4", start := 738429, last := 738520 },
    { label := "2024-Q1", start := 738886, last := 738976 },
    { label := "2024-Q4", start := 739160, last := 739251 } ]

def stressPhasesForRange (start last : ℤ) (phases : List MarketPhase) : List MarketPhase :=
  (phases.filter fun phase => phase.start ≤ last ∧ start ≤ phase.last).map fun phase =>
    { label := phase.label, start := max phase.start start, last := min phase.last last }

namespace SplitArguments

theorem trainEndAt_mono (arguments : SplitArguments) {j k : ℕ} (before : j ≤ k) :
    arguments.trainEndAt j ≤ arguments.trainEndAt k := by
  have steps := Nat.mul_le_mul_right arguments.stepDays.toNat before
  exact addTradingDays_mono _ (by omega)

theorem testLastAt_eq (arguments : SplitArguments) (k : ℕ) : arguments.testLastAt k =
    addTradingDays arguments.trainStart ((arguments.trainWindowDays - 1).toNat +
      k * arguments.stepDays.toNat + 1 + (arguments.testWindowDays - 1).toNat) := by
  simp only [testLastAt, testStartAt, trainEndAt, addTradingDays_add]

theorem testLastAt_mono (arguments : SplitArguments) {j k : ℕ} (before : j ≤ k) :
    arguments.testLastAt j ≤ arguments.testLastAt k := by
  have steps := Nat.mul_le_mul_right arguments.stepDays.toNat before
  rw [testLastAt_eq, testLastAt_eq]
  exact addTradingDays_mono _ (by omega)

end SplitArguments

variable {start last : ℤ}

section Windows

variable {arguments : SplitArguments} {fuel windowIndex k : ℕ} {curTrainStart curTrainEnd : ℤ}
  {window : WalkForwardWindow}

theorem windowsFrom_succ (arguments : SplitArguments) (fuel windowIndex : ℕ)
    (curTrainStart curTrainEnd : ℤ) :
    windowsFrom arguments (fuel + 1) windowIndex curTrainStart curTrainEnd =
      let window := windowAfter arguments windowIndex curTrainStart curTrainEnd
      let next := arguments.slide curTrainStart curTrainEnd
      if arguments.trainEnd < curTrainEnd then []
      else if arguments.testEnd < window.test.last then []
      else if window.test.start < arguments.testStart then
        windowsFrom arguments fuel windowIndex next.1 next.2
      else window :: windowsFrom arguments fuel (windowIndex + 1) next.1 next.2 := rfl

/-- Each window tests inside the range, after training inside it. -/
theorem mem_windowsFrom
    (member : window ∈ windowsFrom arguments fuel windowIndex curTrainStart curTrainEnd) :
    window.train.last ≤ arguments.trainEnd ∧ arguments.testStart ≤ window.test.start ∧
      window.test.start ≤ window.test.last ∧ window.test.last ≤ arguments.testEnd := by
  induction fuel generalizing windowIndex curTrainStart curTrainEnd with
  | zero => cases member
  | succ fuel ih =>
    simp only [windowsFrom] at member
    split at member
    · cases member
    · split at member
      · cases member
      · split at member
        · exact ih member
        · rename_i inTrain inTest after
          rcases List.mem_cons.mp member with rfl | later
          · have ordered := add_le_addTradingDays
              (windowAfter arguments windowIndex curTrainStart curTrainEnd).test.start
              (arguments.testWindowDays - 1).toNat
            refine ⟨not_lt.mp inTrain, not_lt.mp after, ?_, not_lt.mp inTest⟩
            exact le_trans (by omega) ordered
          · exact ih later

theorem mem_generateWalkForwardWindows {windows : List WalkForwardWindow}
    (generated : generateWalkForwardWindows arguments = .ok windows) (member : window ∈ windows) :
    window.train.last ≤ arguments.trainEnd ∧ arguments.testStart ≤ window.test.start ∧
      window.test.start ≤ window.test.last ∧ window.test.last ≤ arguments.testEnd := by
  unfold generateWalkForwardWindows at generated
  repeat' split at generated
  all_goals cases generated
  exact mem_windowsFrom member

/-- A rolling train range has the length it was started with. -/
def Rolling (arguments : SplitArguments) (curTrainStart curTrainEnd : ℤ) : Prop :=
  arguments.mode = .rolling → curTrainEnd = arguments.trainEndFrom curTrainStart

/-- Every turn moves the train end forward by the step. -/
theorem slide_spec (rolling : Rolling arguments curTrainStart curTrainEnd) :
    (arguments.slide curTrainStart curTrainEnd).2 = addTradingDays curTrainEnd arguments.stepDays.toNat ∧
      Rolling arguments (arguments.slide curTrainStart curTrainEnd).1
        (arguments.slide curTrainStart curTrainEnd).2 := by
  unfold SplitArguments.slide
  cases mode : arguments.mode with
  | rolling =>
    refine ⟨?_, fun _ => rfl⟩
    rw [rolling mode]
    simp only [SplitArguments.trainEndFrom, addTradingDays_add, Nat.add_comm]
  | expanding => exact ⟨rfl, fun absurd => by simp [mode] at absurd⟩

/-- More fuel than turns changes nothing: the loop has ended. -/
theorem windowsFrom_of_turns (positive : 0 < arguments.stepDays)
    (rolling : Rolling arguments curTrainStart curTrainEnd)
    (enough : turns arguments curTrainEnd ≤ fuel) :
    windowsFrom arguments (fuel + 1) windowIndex curTrainStart curTrainEnd =
      windowsFrom arguments fuel windowIndex curTrainStart curTrainEnd := by
  induction fuel generalizing windowIndex curTrainStart curTrainEnd with
  | zero =>
    have past : arguments.trainEnd < curTrainEnd := by
      unfold turns at enough
      omega
    simp [windowsFrom, past]
  | succ fuel ih =>
    obtain ⟨moved, rolling'⟩ := slide_spec rolling
    have ahead := add_le_addTradingDays curTrainEnd arguments.stepDays.toNat
    have enough' : turns arguments (arguments.slide curTrainStart curTrainEnd).2 ≤ fuel := by
      rw [moved]
      unfold turns at enough ⊢
      omega
    have more := windowsFrom_succ arguments (fuel + 1) windowIndex curTrainStart curTrainEnd
    have less := windowsFrom_succ arguments fuel windowIndex curTrainStart curTrainEnd
    rw [more, less]
    simp only [ih rolling' enough']

theorem trainEndAt_succ (rolling : Rolling arguments curTrainStart (arguments.trainEndAt k)) :
    (arguments.slide curTrainStart (arguments.trainEndAt k)).2 = arguments.trainEndAt (k + 1) := by
  rw [(slide_spec rolling).1]
  simp only [SplitArguments.trainEndAt, addTradingDays_add, Nat.succ_mul, Nat.add_assoc]

theorem exists_turn_iff {P : ℕ → Prop} :
    (∃ turn, k ≤ turn ∧ P turn) ↔ P k ∨ ∃ turn, k + 1 ≤ turn ∧ P turn := by
  constructor
  · rintro ⟨turn, later, holds⟩
    rcases later.eq_or_lt with rfl | later
    · exact .inl holds
    · exact .inr ⟨turn, later, holds⟩
  · rintro (holds | ⟨turn, later, holds⟩)
    · exact ⟨k, le_rfl, holds⟩
    · exact ⟨turn, by omega, holds⟩

theorem no_window_iff (ended : ∀ turn, k ≤ turn → ¬ arguments.Adds turn) :
    (∃ window ∈ ([] : List WalkForwardWindow), window.test.start = start ∧ window.test.last = last) ↔
      ∃ turn, k ≤ turn ∧ arguments.Adds turn ∧ arguments.testStartAt turn = start ∧
        arguments.testLastAt turn = last := by
  constructor
  · rintro ⟨_, member, _⟩
    cases member
  · rintro ⟨turn, later, adds, -⟩
    exact absurd adds (ended turn later)

theorem not_adds_of_trained (trained : arguments.trainEnd < arguments.trainEndAt k) (turn : ℕ)
    (later : k ≤ turn) : ¬ arguments.Adds turn := by
  intro adds
  have ahead := arguments.trainEndAt_mono later
  have within := adds.trains
  omega

theorem exists_mem_windowsFrom_iff (positive : 0 < arguments.stepDays)
    (rolling : Rolling arguments curTrainStart (arguments.trainEndAt k))
    (enough : turns arguments (arguments.trainEndAt k) ≤ fuel) :
    (∃ window ∈ windowsFrom arguments fuel windowIndex curTrainStart (arguments.trainEndAt k),
        window.test.start = start ∧ window.test.last = last) ↔
      ∃ turn, k ≤ turn ∧ arguments.Adds turn ∧ arguments.testStartAt turn = start ∧
        arguments.testLastAt turn = last := by
  induction fuel generalizing windowIndex curTrainStart k with
  | zero =>
    have trained : arguments.trainEnd < arguments.trainEndAt k := by
      unfold turns at enough
      omega
    exact no_window_iff (not_adds_of_trained trained)
  | succ fuel ih =>
    have next := (slide_spec rolling).2
    have ahead := add_le_addTradingDays (arguments.trainEndAt k) arguments.stepDays.toNat
    have moved := trainEndAt_succ rolling
    rw [← (slide_spec rolling).1] at ahead
    rw [moved] at next ahead
    have enough' : turns arguments (arguments.trainEndAt (k + 1)) ≤ fuel := by
      unfold turns at enough ⊢
      omega
    have window_start : (windowAfter arguments windowIndex curTrainStart
        (arguments.trainEndAt k)).test.start = arguments.testStartAt k := rfl
    have window_last : (windowAfter arguments windowIndex curTrainStart
        (arguments.trainEndAt k)).test.last = arguments.testLastAt k := rfl
    simp only [windowsFrom_succ, moved, window_start, window_last]
    split_ifs with trained tested early
    · exact no_window_iff (not_adds_of_trained trained)
    · apply no_window_iff
      intro turn later adds
      have ahead := arguments.testLastAt_mono later
      have within := adds.ends
      omega
    · have not_adds : ¬ arguments.Adds k := by
        intro adds
        have within := adds.starts
        omega
      rw [exists_turn_iff, or_iff_right (fun adds => not_adds adds.1)]
      exact ih next enough'
    · have adds : arguments.Adds k := ⟨by omega, by omega, by omega⟩
      rw [exists_turn_iff, ← @ih (windowIndex + 1) _ _ next enough']
      simp only [List.mem_cons, or_and_right, exists_or, exists_eq_left, window_start, window_last,
        adds, true_and]

theorem exists_mem_generateWalkForwardWindows_iff {windows : List WalkForwardWindow}
    (generated : generateWalkForwardWindows arguments = .ok windows) :
    (∃ window ∈ windows, window.test.start = start ∧ window.test.last = last) ↔
      ∃ turn, arguments.Adds turn ∧ arguments.testStartAt turn = start ∧
        arguments.testLastAt turn = last := by
  unfold generateWalkForwardWindows at generated
  repeat' split at generated
  all_goals cases generated
  rename_i positive
  have step : 0 < arguments.stepDays := by omega
  have first : arguments.trainEndAt 0 = arguments.trainEndFrom arguments.trainStart := by
    simp only [SplitArguments.trainEndAt, SplitArguments.trainEndFrom, zero_mul, add_zero]
  have rolling : Rolling arguments arguments.trainStart (arguments.trainEndAt 0) := fun _ => first
  rw [← first, exists_mem_windowsFrom_iff step rolling le_rfl]
  simp

end Windows

theorem mem_stressPhasesForRange {phases : List MarketPhase} {phase : MarketPhase}
    (ordered : ∀ p ∈ phases, p.start ≤ p.last) (range : start ≤ last)
    (member : phase ∈ stressPhasesForRange start last phases) :
    phase.start ≤ phase.last ∧ phase.last ≤ last := by
  obtain ⟨given, held, rfl⟩ := List.mem_map.mp member
  obtain ⟨listed, meets⟩ := List.mem_filter.mp held
  have inOrder := ordered given listed
  simp only [decide_eq_true_eq] at meets
  simp only
  omega

end FinDashboard.Validation
