import FinDashboard.Shared.Calendar
import Mathlib.Data.List.Nodup

/-!
# The loop of a scheduled task

A task is run at a time of the day or at an interval. The loop sleeps until the next firing instant;
where that instant falls on a day off it sleeps an hour at most. After a sleep it looks at the date
again before it runs the task.

Instants are microseconds of the wall clock of the scheduler, counted from the midnight that begins
day zero.
-/

namespace FinDashboard.Scheduler

open List

section TaskLoop

def dayMicros : ℤ := 86400000000

def hourMicros : ℤ := 3600000000

def dateOf (instant : ℤ) : ℤ := instant / dayMicros

structure TimeOfDay where
  micros : ℤ
  valid : 0 ≤ micros ∧ micros < dayMicros

def combine (date : ℤ) (time : TimeOfDay) : ℤ := date * dayMicros + time.micros

structure TradingCalendar where
  holidays : List ℤ

/-- A weekday that is no holiday. -/
def TradingCalendar.isTradingDay (calendar : TradingCalendar) (date : ℤ) : Bool :=
  if 5 ≤ weekday date then false else date ∉ calendar.holidays

structure ScheduledTask where
  name : String
  time : Option TimeOfDay := none
  interval : Option ℤ := none
  tradingDaysOnly : Bool := true
  /-- Either the time or the interval is given. -/
  exclusive : time.isSome ≠ interval.isSome

/-- `_compute_next_fire`: the time of today if it is still to come, and else that of tomorrow. -/
def computeNextFire (time : TimeOfDay) (now : ℤ) : ℤ :=
  let fireToday := combine (dateOf now) time
  if now < fireToday then fireToday else combine (dateOf now + 1) time

section Loop

variable (calendar : TradingCalendar) (task : ScheduledTask)

/-- How long the loop sleeps. -/
def wait (now : ℤ) : ℤ :=
  match task.interval, task.time with
  | some interval, _ => interval
  | none, some time =>
    let fire := computeNextFire time now
    if task.tradingDaysOnly && !calendar.isTradingDay (dateOf fire) then
      min (fire - now) hourMicros
    else max 0 (fire - now)
  | none, none => 0

/-- The check after a sleep. -/
def runsAt (woke : ℤ) : Bool :=
  !(task.time.isSome && task.tradingDaysOnly && !calendar.isTradingDay (dateOf woke))

/-- The runs of the loop: the instant at which it computes its next sleep, and the instants at which
it has started the task. A sleep never ends early, a sleep from `now` to `woke` is `Allowed`, and
the task takes less than the rest of the day. -/
inductive LoopRun (Allowed : ℤ → ℤ → Prop) (start : ℤ) : ℤ → List ℤ → Prop
  | start : LoopRun Allowed start start []
  | skip {now woke : ℤ} {runs : List ℤ} : LoopRun Allowed start now runs →
      now + wait calendar task now ≤ woke → Allowed now woke → runsAt calendar task woke = false →
      LoopRun Allowed start woke runs
  | run {now woke done : ℤ} {runs : List ℤ} : LoopRun Allowed start now runs →
      now + wait calendar task now ≤ woke → Allowed now woke → runsAt calendar task woke = true →
      woke ≤ done → dateOf done = dateOf woke → LoopRun Allowed start done (runs ++ [woke])

end Loop

end TaskLoop

/-!
## A daily task runs once on every trading day

On the evening before a day off the loop sleeps for an hour only, and the date it looks at after the
sleep is the one of the evening: a sleep that ends before midnight runs the task once more. Apart
from these sleeps the task runs exactly once on every trading day, as long as every sleep ends on
the day on which it is due.
-/

section DailyRuns

variable {calendar : TradingCalendar} {task : ScheduledTask} {time : TimeOfDay}
  {now woke start date run : ℤ} {runs : List ℤ}

theorem dateOf_combine (date : ℤ) (time : TimeOfDay) : dateOf (combine date time) = date := by
  have bounds := time.valid
  unfold dateOf combine dayMicros at *
  omega

theorem combine_mono {first second : ℤ} (before : first ≤ second) :
    combine first time ≤ combine second time := by
  unfold combine dayMicros
  omega

theorem dateOf_mono {first second : ℤ} (before : first ≤ second) : dateOf first ≤ dateOf second := by
  unfold dateOf dayMicros
  omega

theorem combine_le_of_lt (past : date < dateOf now) : combine date time ≤ now := by
  have bounds := time.valid
  unfold dateOf combine dayMicros at *
  omega

theorem computeNextFire_cases (time : TimeOfDay) (now : ℤ) :
    now < combine (dateOf now) time ∧ computeNextFire time now = combine (dateOf now) time ∨
      combine (dateOf now) time ≤ now ∧ computeNextFire time now = combine (dateOf now + 1) time := by
  by_cases later : now < combine (dateOf now) time
  · exact .inl ⟨later, if_pos later⟩
  · exact .inr ⟨by omega, if_neg later⟩

/-- The next firing instant is today or tomorrow. -/
theorem dateOf_computeNextFire (time : TimeOfDay) (now : ℤ) :
    dateOf (computeNextFire time now) = dateOf now ∨
      combine (dateOf now) time ≤ now ∧ dateOf (computeNextFire time now) = dateOf now + 1 := by
  rcases computeNextFire_cases time now with ⟨-, fire⟩ | ⟨passed, fire⟩
  · exact .inl (by rw [fire, dateOf_combine])
  · exact .inr ⟨passed, by rw [fire, dateOf_combine]⟩

theorem combine_dateOf_computeNextFire (time : TimeOfDay) (now : ℤ) :
    combine (dateOf (computeNextFire time now)) time = computeNextFire time now := by
  rcases computeNextFire_cases time now with ⟨-, fire⟩ | ⟨-, fire⟩ <;> rw [fire, dateOf_combine]

theorem lt_computeNextFire (time : TimeOfDay) (now : ℤ) : now < computeNextFire time now := by
  rcases computeNextFire_cases time now with ⟨later, fire⟩ | ⟨-, fire⟩
  · rw [fire]
    exact later
  · have bounds := time.valid
    rw [fire]
    unfold dateOf combine dayMicros at *
    omega

/-- The firing instants of the days before the next one are over. -/
theorem combine_le_of_lt_computeNextFire (before : date < dateOf (computeNextFire time now)) :
    combine date time ≤ now := by
  rcases computeNextFire_cases time now with ⟨-, fire⟩ | ⟨passed, fire⟩
  · rw [fire, dateOf_combine] at before
    exact combine_le_of_lt before
  · rw [fire, dateOf_combine] at before
    have today : combine date time ≤ combine (dateOf now) time := combine_mono (by omega)
    omega

/-- A sleep ends on the day on which it is due. -/
def Punctual (calendar : TradingCalendar) (task : ScheduledTask) (now woke : ℤ) : Prop :=
  dateOf woke = dateOf (now + wait calendar task now)

/-- A sleep on the evening of a trading day before a day off that is due on the same evening. -/
structure EveningRecheck (calendar : TradingCalendar) (time : TimeOfDay) (now : ℤ) : Prop where
  today : calendar.isTradingDay (dateOf now) = true
  passed : combine (dateOf now) time ≤ now
  tomorrow : calendar.isTradingDay (dateOf now + 1) = false
  early : dateOf (now + hourMicros) = dateOf now

/-- The sleeps after which the loop does what it is meant to. -/
def Regular (calendar : TradingCalendar) (task : ScheduledTask) (time : TimeOfDay) (now woke : ℤ) :
    Prop :=
  Punctual calendar task now woke ∧ ¬EveningRecheck calendar time now

section Sleep

variable (daily : task.time = some time) (trading : task.tradingDaysOnly = true)

include daily in
theorem interval_eq_none : task.interval = none := by
  have exclusive := task.exclusive
  rw [daily] at exclusive
  cases found : task.interval with
  | none => rfl
  | some interval => simp [found] at exclusive

include daily trading in
/-- The sleep until a firing instant, and the one that is cut short before a day off. -/
theorem wait_daily : wait calendar task now =
    if calendar.isTradingDay (dateOf (computeNextFire time now)) = true
      then computeNextFire time now - now else min (computeNextFire time now - now) hourMicros := by
  have later := lt_computeNextFire time now
  have positive : max 0 (computeNextFire time now - now) = computeNextFire time now - now := by
    omega
  unfold wait
  simp only [interval_eq_none daily, daily, trading, positive]
  cases calendar.isTradingDay (dateOf (computeNextFire time now)) <;> rfl

include daily trading in
theorem runsAt_daily : runsAt calendar task woke = calendar.isTradingDay (dateOf woke) := by
  unfold runsAt
  rw [daily, trading]
  simp

include daily trading in
theorem wait_pos : 0 < wait calendar task now := by
  have later := lt_computeNextFire time now
  rw [wait_daily daily trading]
  unfold hourMicros
  split <;> omega

include daily trading in
/-- A regular sleep that ends on a trading day reaches its firing instant. -/
theorem fires_of_regular (ends : now + wait calendar task now ≤ woke)
    (regular : Regular calendar task time now woke)
    (open_day : calendar.isTradingDay (dateOf woke) = true) :
    dateOf woke = dateOf (computeNextFire time now) ∧ computeNextFire time now ≤ woke := by
  obtain ⟨punctual, calm⟩ := regular
  unfold Punctual at punctual
  have waited := @wait_daily calendar task time now daily trading
  by_cases fires : calendar.isTradingDay (dateOf (computeNextFire time now)) = true
  · rw [if_pos fires] at waited
    rw [waited] at punctual ends
    have due : now + (computeNextFire time now - now) = computeNextFire time now := by omega
    rw [due] at punctual ends
    exact ⟨punctual, ends⟩
  · exfalso
    rw [if_neg fires] at waited
    have later := lt_computeNextFire time now
    have due : now ≤ now + wait calendar task now ∧
        now + wait calendar task now ≤ computeNextFire time now := by
      rw [waited]
      unfold hourMicros
      omega
    have first := dateOf_mono due.1
    have last := dateOf_mono due.2
    have other : dateOf woke ≠ dateOf (computeNextFire time now) := by
      intro same
      rw [same] at open_day
      exact fires open_day
    rcases dateOf_computeNextFire time now with today | ⟨passed, tomorrow⟩
    · omega
    · have evening : dateOf woke = dateOf now := by omega
      apply calm
      refine ⟨evening ▸ open_day, passed, ?_, ?_⟩
      · rw [← tomorrow]
        simpa using fires
      · -- the hour ends today, since the sleep that is cut short does
        have short : now + hourMicros < computeNextFire time now := by
          by_contra long
          have full : now + wait calendar task now = computeNextFire time now := by
            rw [waited]
            omega
          rw [full] at punctual
          exact other punctual
        have hour : now + wait calendar task now = now + hourMicros := by
          rw [waited]
          omega
        rw [← hour, ← punctual, evening]

include daily trading in
/-- A sleep passes over the firing instant of the day on which it ends, and over no other. -/
theorem fired_of_regular (regular : Regular calendar task time now woke)
    (passed : combine date time ≤ woke) : combine date time ≤ now ∨ date = dateOf woke := by
  have ends := dateOf_mono passed
  rw [dateOf_combine] at ends
  by_cases same : date = dateOf woke
  · exact .inr same
  · left
    apply combine_le_of_lt_computeNextFire
    have later := lt_computeNextFire time now
    have due : now + wait calendar task now ≤ computeNextFire time now := by
      rw [wait_daily daily trading]
      unfold hourMicros
      split <;> omega
    have last := dateOf_mono due
    have punctual : dateOf woke = dateOf (now + wait calendar task now) := regular.1
    omega

end Sleep

/-- What is wanted of a daily task up to an instant. -/
structure DailySound (calendar : TradingCalendar) (time : TimeOfDay) (start stop : ℤ)
    (runs : List ℤ) : Prop where
  /-- It runs on trading days, and not before its time. -/
  trading : ∀ run ∈ runs, calendar.isTradingDay (dateOf run) = true
  notBefore : ∀ run ∈ runs, combine (dateOf run) time ≤ run
  /-- It runs once a day at most. -/
  once : (runs.map dateOf).Nodup
  /-- It runs on every trading day whose instant comes after the start and before the stop. -/
  each : ∀ date, calendar.isTradingDay date = true → start < combine date time →
    combine date time < stop → ∃ run ∈ runs, dateOf run = date

/-- The state of the loop before a sleep. -/
structure DailyInvariant (calendar : TradingCalendar) (time : TimeOfDay) (start now : ℤ)
    (runs : List ℤ) : Prop where
  trading : ∀ run ∈ runs, calendar.isTradingDay (dateOf run) = true
  notBefore : ∀ run ∈ runs, combine (dateOf run) time ≤ run
  past : ∀ run ∈ runs, run ≤ now
  once : (runs.map dateOf).Nodup
  each : ∀ date, calendar.isTradingDay date = true → start < combine date time →
    combine date time ≤ now → ∃ run ∈ runs, dateOf run = date

theorem DailyInvariant.initial (calendar : TradingCalendar) (time : TimeOfDay) (start : ℤ) :
    DailyInvariant calendar time start start [] where
  trading := nofun
  notBefore := nofun
  past := nofun
  once := nodup_nil
  each date _ after before := by omega

section Runs

variable (daily : task.time = some time) (trading : task.tradingDaysOnly = true)

include daily trading in
theorem DailyInvariant.afterSkip (held : DailyInvariant calendar time start now runs)
    (ends : now + wait calendar task now ≤ woke) (regular : Regular calendar task time now woke)
    (closed : runsAt calendar task woke = false) : DailyInvariant calendar time start woke runs where
  trading := held.trading
  notBefore := held.notBefore
  past run member := by
    have waited := @wait_pos calendar task time now daily trading
    have before := held.past run member
    omega
  once := held.once
  each date open_day after passed := by
    rcases fired_of_regular daily trading regular passed with before | same
    · exact held.each date open_day after before
    · rw [runsAt_daily daily trading, ← same, open_day] at closed
      cases closed

include daily trading in
theorem DailyInvariant.afterRun {done : ℤ} (held : DailyInvariant calendar time start now runs)
    (ends : now + wait calendar task now ≤ woke) (regular : Regular calendar task time now woke)
    (runs_now : runsAt calendar task woke = true) (finishes : woke ≤ done)
    (same_day : dateOf done = dateOf woke) :
    DailyInvariant calendar time start done (runs ++ [woke]) := by
  rw [runsAt_daily daily trading] at runs_now
  obtain ⟨fire_day, fired⟩ := fires_of_regular daily trading ends regular runs_now
  have later := lt_computeNextFire time now
  have fire : combine (dateOf woke) time = computeNextFire time now := by
    rw [fire_day]
    exact combine_dateOf_computeNextFire time now
  have fresh : dateOf woke ∉ runs.map dateOf := by
    intro member
    obtain ⟨run, member, same⟩ := mem_map.mp member
    have early := held.notBefore run member
    have before := held.past run member
    rw [same, fire] at early
    omega
  refine ⟨?_, ?_, ?_, ?_, ?_⟩
  · intro run member
    rcases mem_append.mp member with old | new
    · exact held.trading run old
    · rw [mem_singleton.mp new]
      exact runs_now
  · intro run member
    rcases mem_append.mp member with old | new
    · exact held.notBefore run old
    · rw [mem_singleton.mp new, fire]
      exact fired
  · intro run member
    rcases mem_append.mp member with old | new
    · have before := held.past run old
      omega
    · rw [mem_singleton.mp new]
      exact finishes
  · rw [map_append]
    exact held.once.append (nodup_singleton _) (by simpa using fresh)
  · intro date open_day after passed
    have last := dateOf_mono passed
    rw [dateOf_combine, same_day] at last
    by_cases same : date = dateOf woke
    · exact ⟨woke, mem_append_right _ (mem_singleton_self _), same.symm⟩
    · have before : combine date time ≤ now := by
        apply combine_le_of_lt_computeNextFire
        omega
      obtain ⟨run, member, day⟩ := held.each date open_day after before
      exact ⟨run, mem_append_left _ member, day⟩

include daily trading in
theorem dailyInvariant_of_loopRun
    (loop : LoopRun calendar task (Regular calendar task time) start now runs) :
    DailyInvariant calendar time start now runs := by
  induction loop with
  | start => exact .initial calendar time start
  | skip _ ends regular closed ih => exact ih.afterSkip daily trading ends regular closed
  | run _ ends regular runs_now finishes same_day ih =>
    exact ih.afterRun daily trading ends regular runs_now finishes same_day

include daily trading in
/-- In a run whose sleeps are all regular a daily task runs on every trading day, at its time or
later, and once. The loop is stopped while it runs the task or in a sleep that is not yet due. -/
theorem dailySound_of_loopRun
    (loop : LoopRun calendar task (Regular calendar task time) start now runs) {stop : ℤ}
    (stopped : stop ≤ now + wait calendar task now) : DailySound calendar time start stop runs := by
  have held := dailyInvariant_of_loopRun daily trading loop
  refine ⟨held.trading, held.notBefore, held.once, ?_⟩
  intro date open_day after before
  apply held.each date open_day after
  apply combine_le_of_lt_computeNextFire
  by_contra beyond
  have due : computeNextFire time now ≤ combine date time := by
    rw [← combine_dateOf_computeNextFire time now]
    exact combine_mono (by omega)
  have later := lt_computeNextFire time now
  rw [wait_daily daily trading] at stopped
  unfold hourMicros at stopped
  split at stopped <;> omega

end Runs

section Examples

/-- `close_cancel` at 14:55. -/
def closeTime : TimeOfDay := { micros := 53700000000, valid := by decide }

def closeCancelTask : ScheduledTask where
  name := "close_cancel"
  time := some closeTime
  exclusive := by decide

def weekdays : TradingCalendar := { holidays := [] }

/-- An hour of a day. -/
def clock (date hours minutes : ℤ) : ℤ := date * dayMicros + (hours * 60 + minutes) * 60000000

def thursday : ℤ := 739680

theorem dailySound_thursday : DailySound weekdays closeTime (clock thursday 14 0) (clock thursday 20 0)
      [clock thursday 14 55] := by
  have punctual : Punctual weekdays closeCancelTask (clock thursday 14 0) (clock thursday 14 55) := by
    unfold Punctual
    decide +kernel
  have regular : Regular weekdays closeCancelTask closeTime (clock thursday 14 0)
      (clock thursday 14 55) :=
    ⟨punctual, fun evening => absurd evening.passed (by decide +kernel)⟩
  have loop : LoopRun weekdays closeCancelTask (Regular weekdays closeCancelTask closeTime)
      (clock thursday 14 0) (clock thursday 14 56) ([] ++ [clock thursday 14 55]) :=
    .run .start (by decide +kernel) regular (by decide +kernel) (by decide +kernel)
      (by decide +kernel)
  exact dailySound_of_loopRun rfl rfl loop (by decide +kernel)

/-- Every sleep ends exactly when it is due, and on Friday the orders are cancelled at 14:55 and
again at 15:55. -/
theorem friday_runs_twice :
    LoopRun weekdays closeCancelTask (fun now woke => woke = now + wait weekdays closeCancelTask now)
        (clock (thursday + 1) 14 0) (clock (thursday + 1) 15 55)
        [clock (thursday + 1) 14 55, clock (thursday + 1) 15 55] ∧
      ∀ stop, ¬DailySound weekdays closeTime (clock (thursday + 1) 14 0) stop
        [clock (thursday + 1) 14 55, clock (thursday + 1) 15 55] := by
  constructor
  · have first : LoopRun weekdays closeCancelTask
        (fun now woke => woke = now + wait weekdays closeCancelTask now)
        (clock (thursday + 1) 14 0) (clock (thursday + 1) 14 55)
        ([] ++ [clock (thursday + 1) 14 55]) :=
      .run .start (by decide +kernel) (by decide +kernel) (by decide +kernel) le_rfl rfl
    exact .run first (by decide +kernel) (by decide +kernel) (by decide +kernel) le_rfl rfl
  · intro stop sound
    exact absurd sound.once (by decide +kernel)

end Examples

end DailyRuns

end FinDashboard.Scheduler
