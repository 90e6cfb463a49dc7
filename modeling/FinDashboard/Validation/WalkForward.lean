import FinDashboard.Validation.Windows

/-!
# The walk-forward loop

The loop ends, its windows move forward inside the ranges they are given, and each trains before it
tests. A rolling train range has the configured number of trading days once it starts on one; the
first range starts on the day it is given, which may be on a weekend.
-/

namespace FinDashboard.Validation

open List SplitArguments

variable {arguments : SplitArguments} {fuel windowIndex : ℕ} {curTrainStart curTrainEnd : ℤ}
  {window : WalkForwardWindow} {windows : List WalkForwardWindow}

def tradingDays (start last : ℤ) : List ℤ :=
  ((range (last + 1 - start).toNat).map fun day : ℕ => start + (day : ℤ)).filter
    (weekday · < 5)

theorem tradingDays_of_lt {start last : ℤ} (past : last < start) : tradingDays start last = [] := by
  have none : (last + 1 - start).toNat = 0 := by omega
  simp [tradingDays, none]

theorem tradingDays_of_le {start last : ℤ} (within : start ≤ last) : tradingDays start last =
    (if weekday start < 5 then [start] else []) ++ tradingDays (start + 1) last := by
  have more : (last + 1 - start).toNat = (last + 1 - (start + 1)).toNat + 1 := by omega
  have shift : (fun day : ℕ => start + ((day + 1 : ℕ) : ℤ)) = fun day : ℕ => start + 1 + (day : ℤ) := by
    funext day
    push_cast
    omega
  unfold tradingDays
  rw [more, range_succ_eq_map, map_cons, map_map, filter_cons]
  simp only [Function.comp_def, Nat.succ_eq_add_one, shift, Nat.cast_zero, add_zero]
  by_cases trading : weekday start < 5 <;> simp [trading]

theorem weekday_nextTradingDay (date : ℤ) : weekday (nextTradingDay date) < 5 := by
  unfold nextTradingDay weekday
  split_ifs <;> omega

theorem tradingDays_nextTradingDay {date last : ℤ} (within : nextTradingDay date ≤ last) :
    tradingDays (date + 1) last = nextTradingDay date :: tradingDays (nextTradingDay date + 1) last := by
  unfold nextTradingDay at within ⊢
  split_ifs at within ⊢ with first second
  · rw [tradingDays_of_le within, if_pos first]
    rfl
  · rw [tradingDays_of_le (by omega), if_neg first, nil_append, add_assoc, one_add_one_eq_two,
      tradingDays_of_le within, if_pos second]
    rfl
  · have third : weekday (date + 3) < 5 := by
      unfold weekday at first second ⊢
      omega
    rw [tradingDays_of_le (by omega), if_neg first, nil_append, add_assoc, one_add_one_eq_two,
      tradingDays_of_le (by omega), if_neg second, nil_append, add_assoc, two_add_one_eq_three,
      tradingDays_of_le within, if_pos third]
    rfl

theorem weekday_addTradingDays (date : ℤ) {days : ℕ} (positive : 0 < days) :
    weekday (addTradingDays date days) < 5 := by
  induction days generalizing date with
  | zero => exact absurd positive (lt_irrefl 0)
  | succ days ih =>
    rw [addTradingDays]
    rcases days.eq_zero_or_pos with rfl | more
    · exact weekday_nextTradingDay date
    · exact ih _ more

theorem length_tradingDays_after (date : ℤ) (days : ℕ) :
    (tradingDays (date + 1) (addTradingDays date days)).length = days := by
  induction days generalizing date with
  | zero => simp [addTradingDays, tradingDays_of_lt]
  | succ days ih =>
    have later := add_le_addTradingDays (nextTradingDay date) days
    have within : nextTradingDay date ≤ addTradingDays (nextTradingDay date) days := by omega
    rw [addTradingDays, tradingDays_nextTradingDay within, length_cons, ih]

/-- A range that starts on a trading day has one more. -/
theorem length_tradingDays (date : ℤ) (days : ℕ) :
    (tradingDays date (addTradingDays date days)).length = days + if weekday date < 5 then 1 else 0 := by
  have later := add_le_addTradingDays date days
  have within : date ≤ addTradingDays date days := by omega
  rw [tradingDays_of_le within, length_append, length_tradingDays_after, Nat.add_comm]
  split_ifs <;> rfl

/-- The loop breaks after finitely many turns. -/
inductive Ends (arguments : SplitArguments) : ℤ → ℤ → Prop
  | trained {curTrainStart curTrainEnd : ℤ} (past : arguments.trainEnd < curTrainEnd) :
      Ends arguments curTrainStart curTrainEnd
  | tested {curTrainStart curTrainEnd : ℤ}
      (past : arguments.testEnd < (windowAfter arguments 0 curTrainStart curTrainEnd).test.last) :
      Ends arguments curTrainStart curTrainEnd
  | turn {curTrainStart curTrainEnd : ℤ}
      (rest : Ends arguments (arguments.slide curTrainStart curTrainEnd).1
        (arguments.slide curTrainStart curTrainEnd).2) : Ends arguments curTrainStart curTrainEnd

/-- By induction on the turns that the train end leaves. -/
theorem ends (positive : 0 < arguments.stepDays) (rolling : Rolling arguments curTrainStart curTrainEnd) :
    Ends arguments curTrainStart curTrainEnd := by
  induction left : turns arguments curTrainEnd using Nat.strong_induction_on
    generalizing curTrainStart curTrainEnd with
  | h left ih =>
    obtain ⟨moved, rolling'⟩ := slide_spec rolling
    have ahead := add_le_addTradingDays curTrainEnd arguments.stepDays.toNat
    by_cases past : arguments.trainEnd < curTrainEnd
    · exact .trained past
    · apply Ends.turn
      apply ih _ _ rolling' rfl
      rw [moved, ← left]
      unfold turns
      omega

/-- What the states of the loop keep gives what its windows have. -/
theorem windowsFrom_forall (holds : ℤ → ℤ → Prop) {P : WalkForwardWindow → Prop}
    (keeps : ∀ start last, holds start last →
      holds (arguments.slide start last).1 (arguments.slide start last).2)
    (added : ∀ index start last, holds start last → P (windowAfter arguments index start last))
    (initial : holds curTrainStart curTrainEnd) :
    ∀ window ∈ windowsFrom arguments fuel windowIndex curTrainStart curTrainEnd, P window := by
  induction fuel generalizing windowIndex curTrainStart curTrainEnd with
  | zero => simp [windowsFrom]
  | succ fuel ih =>
    intro window member
    have later := keeps _ _ initial
    rw [windowsFrom_succ] at member
    simp only at member
    split_ifs at member
    · cases member
    · cases member
    · exact ih later window member
    · rcases mem_cons.mp member with rfl | member
      · exact added windowIndex _ _ initial
      · exact ih later window member

theorem windowIndex_windowsFrom :
    (windowsFrom arguments fuel windowIndex curTrainStart curTrainEnd).map (·.windowIndex) =
      range' windowIndex (windowsFrom arguments fuel windowIndex curTrainStart curTrainEnd).length := by
  induction fuel generalizing windowIndex curTrainStart curTrainEnd with
  | zero => rfl
  | succ fuel ih =>
    rw [windowsFrom_succ]
    simp only
    split_ifs
    · rfl
    · rfl
    · exact ih
    · rw [map_cons, length_cons, range'_succ, ih]
      rfl

/-- A later window trains and tests later. -/
structure Forward (window later : WalkForwardWindow) : Prop where
  trains : window.train.last < later.train.last
  tests : window.test.start < later.test.start

theorem le_train_last (rolling : Rolling arguments curTrainStart curTrainEnd) :
    ∀ window ∈ windowsFrom arguments fuel windowIndex curTrainStart curTrainEnd,
      curTrainEnd ≤ window.train.last ∧ window.train.last < window.test.start := by
  refine windowsFrom_forall
    (fun start last => Rolling arguments start last ∧ curTrainEnd ≤ last) ?_ ?_ ?_
  · intro start last ⟨rolling, later⟩
    obtain ⟨moved, rolling'⟩ := slide_spec rolling
    have ahead := add_le_addTradingDays last arguments.stepDays.toNat
    exact ⟨rolling', by omega⟩
  · intro index start last ⟨_, later⟩
    exact ⟨later, (windowAfter arguments index start last).separate⟩
  · exact ⟨rolling, le_refl _⟩

theorem forward_windowsFrom (fuel windowIndex : ℕ) (positive : 0 < arguments.stepDays)
    (rolling : Rolling arguments curTrainStart curTrainEnd) :
    (windowsFrom arguments fuel windowIndex curTrainStart curTrainEnd).Pairwise Forward := by
  induction fuel generalizing windowIndex curTrainStart curTrainEnd with
  | zero => exact List.Pairwise.nil
  | succ fuel ih =>
    obtain ⟨moved, rolling'⟩ := slide_spec rolling
    rw [windowsFrom_succ]
    simp only
    split_ifs
    · exact List.Pairwise.nil
    · exact List.Pairwise.nil
    · exact ih _ rolling'
    · refine pairwise_cons.mpr ⟨?_, ih _ rolling'⟩
      intro later member
      obtain ⟨after, before⟩ := le_train_last rolling' later member
      have next : nextTradingDay curTrainEnd ≤ addTradingDays curTrainEnd arguments.stepDays.toNat := by
        have step : 1 ≤ arguments.stepDays.toNat := by omega
        exact addTradingDays_mono curTrainEnd step
      have first := lt_nextTradingDay curTrainEnd
      rw [moved] at after
      have trains : curTrainEnd < later.train.last := by omega
      have tests : nextTradingDay curTrainEnd < later.test.start := by omega
      exact ⟨trains, tests⟩

theorem le_train_start : ∀ window ∈ windowsFrom arguments fuel windowIndex curTrainStart curTrainEnd,
    curTrainStart ≤ window.train.start := by
  refine windowsFrom_forall (fun start _ => curTrainStart ≤ start) ?_ ?_ ?_
  · intro start last later
    have ahead := add_le_addTradingDays start arguments.stepDays.toNat
    unfold slide
    cases arguments.mode with
    | rolling =>
      simp only
      omega
    | expanding => exact later
  · exact fun _ _ _ later => later
  · exact le_refl _

theorem train_start_eq (mode : arguments.mode = .expanding) :
    ∀ window ∈ windowsFrom arguments fuel windowIndex curTrainStart curTrainEnd,
      window.train.start = curTrainStart := by
  refine windowsFrom_forall (fun start _ => start = curTrainStart) ?_ ?_ ?_
  · intro start last same
    simp only [slide, mode]
    exact same
  · exact fun _ _ _ same => same
  · rfl

/-- The train range has the configured number of trading days. -/
def TrainsWhole (arguments : SplitArguments) (window : WalkForwardWindow) : Prop :=
  (tradingDays window.train.start window.train.last).length = arguments.trainWindowDays

theorem trainsWhole_iff (days : 0 < arguments.trainWindowDays) (index : ℕ) (start : ℤ) :
    TrainsWhole arguments (windowAfter arguments index start (arguments.trainEndFrom start)) ↔
      weekday start < 5 := by
  have count := length_tradingDays start (arguments.trainWindowDays - 1).toNat
  unfold TrainsWhole windowAfter trainEndFrom
  simp only [count]
  split_ifs with trading
  · simp only [trading, iff_true]
    push_cast
    omega
  · simp only [trading, iff_false]
    push_cast
    omega

theorem trainsWhole_windowsFrom (mode : arguments.mode = .rolling) (days : 0 < arguments.trainWindowDays)
    (step : 0 < arguments.stepDays) (rolling : Rolling arguments curTrainStart curTrainEnd)
    (trading : weekday curTrainStart < 5) :
    ∀ window ∈ windowsFrom arguments fuel windowIndex curTrainStart curTrainEnd,
      TrainsWhole arguments window := by
  refine windowsFrom_forall
    (fun start last => Rolling arguments start last ∧ weekday start < 5) ?_ ?_ ?_
  · intro start last ⟨rolling, _⟩
    refine ⟨(slide_spec rolling).2, ?_⟩
    simp only [slide, mode]
    exact weekday_addTradingDays start (by omega)
  · intro index start last ⟨rolling, trading⟩
    rw [rolling mode]
    exact (trainsWhole_iff days index start).mpr trading
  · exact ⟨rolling, trading⟩

/-- The rolling ranges are whole unless the first one is used and starts on a weekend. -/
theorem trainsWhole_all_iff (mode : arguments.mode = .rolling) (days : 0 < arguments.trainWindowDays)
    (step : 0 < arguments.stepDays) (enough : turns arguments (arguments.trainEndAt 0) ≤ fuel) :
    (∀ window ∈ windowsFrom arguments fuel windowIndex arguments.trainStart (arguments.trainEndAt 0),
        TrainsWhole arguments window) ↔ weekday arguments.trainStart < 5 ∨ ¬ arguments.Adds 0 := by
  have first : arguments.trainEndAt 0 = arguments.trainEndFrom arguments.trainStart := by
    simp only [trainEndAt, trainEndFrom, zero_mul, add_zero]
  have rolling : Rolling arguments arguments.trainStart (arguments.trainEndAt 0) := fun _ => first
  constructor
  · intro whole
    by_contra weekend
    obtain ⟨offday, adds⟩ := not_or.mp weekend
    have adds := not_not.mp adds
    have trains := adds.trains
    have starts := adds.starts
    have tests := adds.ends
    cases fuel with
    | zero =>
      unfold turns at enough
      omega
    | succ fuel =>
      have window_start : (windowAfter arguments windowIndex arguments.trainStart
          (arguments.trainEndAt 0)).test.start = arguments.testStartAt 0 := rfl
      have window_last : (windowAfter arguments windowIndex arguments.trainStart
          (arguments.trainEndAt 0)).test.last = arguments.testLastAt 0 := rfl
      rw [windowsFrom_succ] at whole
      simp only [window_start, window_last, not_lt.mpr trains, not_lt.mpr starts, not_lt.mpr tests,
        if_false] at whole
      have used := whole _ mem_cons_self
      rw [first] at used
      exact offday ((trainsWhole_iff days windowIndex _).mp used)
  · intro fits
    by_cases trading : weekday arguments.trainStart < 5
    · exact trainsWhole_windowsFrom mode days step rolling trading
    · have unused := fits.resolve_left trading
      cases fuel with
      | zero => simp [windowsFrom]
      | succ fuel =>
        have next : weekday (arguments.slide arguments.trainStart (arguments.trainEndAt 0)).1 < 5 := by
          simp only [slide, mode]
          exact weekday_addTradingDays _ (by omega)
        have window_start : (windowAfter arguments windowIndex arguments.trainStart
            (arguments.trainEndAt 0)).test.start = arguments.testStartAt 0 := rfl
        have window_last : (windowAfter arguments windowIndex arguments.trainStart
            (arguments.trainEndAt 0)).test.last = arguments.testLastAt 0 := rfl
        rw [windowsFrom_succ]
        simp only [window_start, window_last]
        split_ifs with trained tested early
        · simp
        · simp
        · exact trainsWhole_windowsFrom mode days step (slide_spec rolling).2 next
        · exact absurd ⟨not_lt.mp trained, not_lt.mp early, not_lt.mp tested⟩ unused

/-- The loop ends, no turn of it is cut off, and the windows move forward inside their ranges. -/
structure WalksForward (arguments : SplitArguments) (windows : List WalkForwardWindow) : Prop where
  ends : Ends arguments arguments.trainStart (arguments.trainEndAt 0)
  complete : ∀ fuel, turns arguments (arguments.trainEndAt 0) ≤ fuel →
    windowsFrom arguments fuel 0 arguments.trainStart (arguments.trainEndAt 0) = windows
  indices : windows.map (·.windowIndex) = range windows.length
  separate : ∀ window ∈ windows, window.train.last < window.test.start
  trains : ∀ window ∈ windows,
    arguments.trainStart ≤ window.train.start ∧ window.train.last ≤ arguments.trainEnd
  tests : ∀ window ∈ windows, arguments.testStart ≤ window.test.start ∧
    window.test.start ≤ window.test.last ∧ window.test.last ≤ arguments.testEnd
  increasing : windows.Pairwise fun window later => window.test.start < later.test.start
  expanding : arguments.mode = .expanding →
    (∀ window ∈ windows, window.train.start = arguments.trainStart) ∧
      windows.Pairwise fun window later => window.train.last < later.train.last
  rolling : arguments.mode = .rolling → ∀ window ∈ windows, TrainsWhole arguments window

theorem generateWalkForwardWindows_spec (generated : generateWalkForwardWindows arguments = .ok windows) :
    0 < arguments.trainWindowDays ∧ 0 < arguments.stepDays ∧
      windows = windowsFrom arguments (turns arguments (arguments.trainEndAt 0)) 0
        arguments.trainStart (arguments.trainEndAt 0) := by
  have first : arguments.trainEndAt 0 = arguments.trainEndFrom arguments.trainStart := by
    simp only [trainEndAt, trainEndFrom, zero_mul, add_zero]
  unfold generateWalkForwardWindows at generated
  split_ifs at generated with _ _ _ positive
  rw [first]
  exact ⟨by omega, by omega, (Except.ok.inj generated).symm⟩

theorem windowsFrom_complete (positive : 0 < arguments.stepDays)
    (rolling : Rolling arguments curTrainStart curTrainEnd)
    (enough : turns arguments curTrainEnd ≤ fuel) :
    windowsFrom arguments fuel windowIndex curTrainStart curTrainEnd =
      windowsFrom arguments (turns arguments curTrainEnd) windowIndex curTrainStart curTrainEnd := by
  induction fuel, enough using Nat.le_induction with
  | base => rfl
  | succ fuel enough ih => rw [windowsFrom_of_turns positive rolling enough, ih]

/-- The windows are as they should be unless the first range of a rolling walk is used and starts on a
weekend. -/
theorem walksForward_iff (arguments : SplitArguments) {windows : List WalkForwardWindow}
    (generated : generateWalkForwardWindows arguments = .ok windows) : WalksForward arguments windows ↔
      arguments.mode = .expanding ∨ weekday arguments.trainStart < 5 ∨ ¬ arguments.Adds 0 := by
  obtain ⟨days, step, rfl⟩ := generateWalkForwardWindows_spec generated
  have first : Rolling arguments arguments.trainStart (arguments.trainEndAt 0) := by
    intro _
    simp only [trainEndAt, trainEndFrom, zero_mul, add_zero]
  have forward := forward_windowsFrom (turns arguments (arguments.trainEndAt 0)) 0 step first
  constructor
  · intro walks
    cases mode : arguments.mode with
    | rolling => exact .inr ((trainsWhole_all_iff mode days step le_rfl).mp (walks.rolling mode))
    | expanding => exact .inl rfl
  · intro fits
    refine
      { ends := Validation.ends step first
        complete := fun fuel enough => windowsFrom_complete step first enough
        indices := windowIndex_windowsFrom.trans range_eq_range'.symm
        separate := fun window _ => ?_
        trains := fun window member =>
          ⟨le_train_start window member, (mem_windowsFrom member).1⟩
        tests := fun window member => (mem_windowsFrom member).2
        increasing := forward.imp Forward.tests
        expanding := fun mode => ⟨train_start_eq mode, forward.imp Forward.trains⟩
        rolling := fun mode => (trainsWhole_all_iff mode days step le_rfl).mpr ?_ }
    · exact window.separate
    · exact fits.resolve_left (by simp [mode])

/-- Two rolling weeks of training before a week of testing, from a Monday on. -/
def mondayWalk : SplitArguments where
  mode := .rolling
  trainStart := 738886
  trainEnd := 738920
  testStart := 738887
  testEnd := 738930
  trainWindowDays := 10
  testWindowDays := 5
  stepDays := 5

theorem walksForward_iff_monday :
    ∃ windows, generateWalkForwardWindows mondayWalk = .ok windows ∧ windows.length = 4 ∧
      (WalksForward mondayWalk windows ↔
        mondayWalk.mode = .expanding ∨ weekday mondayWalk.trainStart < 5 ∨ ¬ mondayWalk.Adds 0) :=
  ⟨_, rfl, by decide +kernel, walksForward_iff mondayWalk rfl⟩

/-- From the Saturday before on, the first range has nine trading days. -/
theorem walksForward_weekend : ¬ ∀ (arguments : SplitArguments) (windows : List WalkForwardWindow),
    generateWalkForwardWindows arguments = .ok windows → WalksForward arguments windows := by
  intro walks
  have weekend := walks { mondayWalk with trainStart := 738884 } _ rfl
  have whole := weekend.rolling rfl _ mem_cons_self
  unfold TrainsWhole at whole
  revert whole
  decide +kernel

section Longer

variable {trainEnd testEnd : ℤ}

theorem windowsFrom_prefix (train : arguments.trainEnd ≤ trainEnd) (test : arguments.testEnd ≤ testEnd) :
    ∀ (fuel fuel' windowIndex : ℕ) (curTrainStart curTrainEnd : ℤ), fuel ≤ fuel' →
      windowsFrom arguments fuel windowIndex curTrainStart curTrainEnd <+:
        windowsFrom { arguments with trainEnd := trainEnd, testEnd := testEnd } fuel' windowIndex curTrainStart
          curTrainEnd := by
  intro fuel
  induction fuel with
  | zero => exact fun _ _ _ _ _ => nil_prefix
  | succ fuel ih =>
    intro fuel' windowIndex curTrainStart curTrainEnd enough
    obtain ⟨more, rfl⟩ := Nat.exists_eq_add_of_le' enough
    rw [Nat.add_comm more, Nat.add_right_comm]
    have window : windowAfter { arguments with trainEnd := trainEnd, testEnd := testEnd } =
        windowAfter arguments := rfl
    have slides : slide { arguments with trainEnd := trainEnd, testEnd := testEnd } = slide arguments := rfl
    unfold windowsFrom
    rw [window, slides]
    dsimp only
    by_cases trained : arguments.trainEnd < curTrainEnd
    · rw [if_pos trained]
      exact nil_prefix
    by_cases tested : arguments.testEnd < (windowAfter arguments windowIndex curTrainStart curTrainEnd).test.last
    · rw [if_neg trained, if_pos tested]
      exact nil_prefix
    have trained' : ¬trainEnd < curTrainEnd := by omega
    have tested' := not_lt.mpr ((not_lt.mp tested).trans test)
    rw [if_neg trained, if_neg tested, if_neg trained', if_neg tested']
    by_cases early : (windowAfter arguments windowIndex curTrainStart curTrainEnd).test.start < arguments.testStart
    · rw [if_pos early, if_pos early]
      exact ih _ _ _ _ (by omega)
    · rw [if_neg early, if_neg early]
      exact (prefix_cons_inj _).mpr (ih _ _ _ _ (by omega))

/-- A longer plan goes on after the windows of a shorter one. -/
theorem generateWalkForwardWindows_prefix (train : arguments.trainEnd ≤ trainEnd)
    (test : arguments.testEnd ≤ testEnd) (generated : generateWalkForwardWindows arguments = .ok windows) :
    ∃ longer, generateWalkForwardWindows { arguments with trainEnd := trainEnd, testEnd := testEnd } = .ok longer ∧
      windows <+: longer := by
  unfold generateWalkForwardWindows at generated ⊢
  dsimp only at generated ⊢
  split_ifs at generated with order order' before days
  obtain rfl := Except.ok.inj generated
  rw [if_neg (by omega), if_neg (by omega), if_neg before, if_neg days]
  exact ⟨_, rfl, windowsFrom_prefix train test _ _ _ _ _ (by unfold turns; dsimp only [trainEndFrom]; omega)⟩

theorem generateWalkForwardWindows_prefix_monday : ∃ longer,
    generateWalkForwardWindows { mondayWalk with trainEnd := 738930, testEnd := 738960 } = .ok longer ∧
      ((generateWalkForwardWindows mondayWalk).toOption.getD []) <+: longer :=
  generateWalkForwardWindows_prefix (show mondayWalk.trainEnd ≤ 738930 by decide)
    (show mondayWalk.testEnd ≤ 738960 by decide) rfl

end Longer

end FinDashboard.Validation
